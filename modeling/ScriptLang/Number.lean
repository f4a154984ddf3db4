import ScriptLang.Number.Shortest

/-! Numbers: 64 bit integers that turn into doubles as soon as an exact result leaves their range
or an operand is a double already. -/
namespace ScriptLang

inductive Number where
  | int (value : Int64)
  | float (value : Float)

def Int64.ofInt? (n : Int) : Option Int64 :=
  if Int64.minValue.toInt ≤ n ∧ n ≤ Int64.maxValue.toInt then some (Int64.ofInt n) else none

namespace Number

/-- The number as a double: the nearest one to an integer, the even one of two that are. -/
def toFloat : Number → Float
  | int n => .ofModel (.ofInt64 n)
  | float x => x

def isZero : Number → Bool
  | int n => n == 0
  | float x => x == 0.0

def isNegative : Number → Bool
  | int n => n < 0
  | float x => x < 0.0

def ofBool (b : Bool) : Number := int (if b then 1 else 0)

/-- The exact result on two integers when it is defined and in range, the result on doubles
otherwise. -/
def combine (exact : Int → Int → Option Int) (rounded : Float → Float → Float)
    (a b : Number) : Number :=
  let fallback := float (rounded a.toFloat b.toFloat)
  match a, b with
  | int m, int n => (((exact m.toInt n.toInt).bind Int64.ofInt?).map int).getD fallback
  | _, _ => fallback

def add : Number → Number → Number := combine (fun m n => some (m + n)) (· + ·)

def sub : Number → Number → Number := combine (fun m n => some (m - n)) (· - ·)

def mul : Number → Number → Number := combine (fun m n => some (m * n)) (· * ·)

/-- A power with an exponent of at most 32 bits. A base beyond one in size leaves the 64 bit range
by the 64th power, so larger powers are never computed. -/
def exactPower (base exponent : Int) : Option Int :=
  if exponent < 0 ∨ UInt32.size ≤ exponent then none
  else if base.natAbs ≤ 1 then
    some (if exponent = 0 then 1 else if exponent % 2 = 0 then base * base else base)
  else if 64 ≤ exponent then none
  else some (Int.pow base exponent.toNat)

def pow : Number → Number → Number := combine exactPower Float.pow

/-- Always on doubles. -/
def div (a b : Number) : Number := float (a.toFloat / b.toFloat)

def neg (n : Number) : Number := sub (int 0) n

/-- No order holds between NaN and anything. -/
def compare : Number → Number → Option Ordering
  | int m, int n => some (Ord.compare m.toInt n.toInt)
  | a, b =>
    let x := a.toFloat
    let y := b.toFloat
    if x < y then some .lt else if x == y then some .eq else if x > y then some .gt else none

instance : BEq Number := ⟨fun a b => compare a b == some .eq⟩

/-- The integer a number stands for, when it stands for one, brought into the 64 bit range. -/
def whole? : Number → Option Int
  | int n => some n.toInt
  | float x => (Binary.ofFloat x).whole?.map fun n =>
    max Int64.minValue.toInt (min Int64.maxValue.toInt n)

/-- The place in a list of the given length that a number names; negative ones count from the
end. No place is beyond the 64 bit range. -/
def toIndex (n : Number) (length : Nat) : Option Nat := do
  let index ← n.whole?
  let place := if index < 0 then index + length else index
  if 0 ≤ place ∧ place < length ∧ place ≤ Int64.maxValue.toInt then some place.toNat else none

/-- Whole doubles below `10 ^ 16` show one decimal, so that they are told from integers. -/
def text : Number → String
  | int n => toString n.toInt
  | float x =>
    let binary := Binary.ofFloat x
    match binary.whole? with
    | some n => if n.natAbs < Nat.pow 10 16 then binary.text ++ ".0" else binary.text
    | none => binary.text

end Number

end ScriptLang
