import ScriptLang.Fault
import ScriptLang.Value

/-! Operators on values. A failed operation says where it failed as far as its operands know; the
result of a successful one keeps the frame of the left operand. -/
namespace ScriptLang

structure OperationError where
  fault : Fault
  stamp : Stamp

namespace Value

/-- The longest text, in bytes, that repetition may build. -/
def repetitionLimit : Nat := Nat.pow 2 28

/-- From the first to the second span, or the one there is. -/
def joinSpans : Option Span → Option Span → Option Span
  | some s, some t => some (s.through t)
  | some s, none => some s
  | none, t => t

/-- Neither operand is to blame alone. -/
def illegal (a b : Value) : OperationError :=
  ⟨.illegalOperation, joinSpans a.stamp.span b.stamp.span, a.stamp.frame⟩

def illegalAlone (a : Value) : OperationError := ⟨.illegalOperation, a.stamp⟩

def blame (a b : Value) (fault : Fault) : OperationError := ⟨fault, b.stamp.span, a.stamp.frame⟩

def derived (a : Value) : Stamp := ⟨none, a.stamp.frame⟩

def add (a b : Value) : Except OperationError Value :=
  match a, b with
  | number m _, number n _ => .ok (number (m.add n) a.derived)
  | string s _, string t _ => .ok (string (s ++ t) a.derived)
  | list vs _, b => .ok (list (vs ++ [b]) a.derived)
  | a, b => .error (illegal a b)

def sub (a b : Value) : Except OperationError Value :=
  match a, b with
  | number m _, number n _ => .ok (number (m.sub n) a.derived)
  | list vs _, number n _ =>
    match n.toIndex vs.length with
    | some i => .ok (list (vs.eraseIdx i) a.derived)
    | none => .error (blame a b (.removeOutOfBounds n vs.length))
  | a, b => .error (illegal a b)

/-- A count below zero repeats nothing. -/
def repeated (s : String) (count : Int) : Option String :=
  if s.utf8ByteSize * count.toNat ≤ repetitionLimit then
    some (if s.isEmpty then "" else count.toNat.repeat (· ++ s) "")
  else none

def mul (a b : Value) : Except OperationError Value :=
  match a, b with
  | number m _, number n _ => .ok (number (m.mul n) a.derived)
  | string s _, number (.int count) _ =>
    match repeated s count.toInt with
    | some t => .ok (string t a.derived)
    | none => .error (blame a b .repetitionTooLarge)
  | list vs _, list ws _ => .ok (list (vs ++ ws) a.derived)
  | a, b => .error (illegal a b)

def div (a b : Value) : Except OperationError Value :=
  match a, b with
  | number m _, number n _ =>
    if n.isZero then .error (blame a b .divisionByZero)
    else .ok (number (m.div n) a.derived)
  | list vs _, number n _ =>
    match (n.toIndex vs.length).bind (vs[·]?) with
    | some v => .ok v
    | none => .error (blame a b (.retrieveOutOfBounds n vs.length))
  | a, b => .error (illegal a b)

def onNumbers (f : Number → Number → Number) (a b : Value) : Except OperationError Value :=
  match a, b with
  | number m _, number n _ => .ok (number (f m n) a.derived)
  | a, b => .error (illegal a b)

def pow : Value → Value → Except OperationError Value := onNumbers Number.pow

def eq (a b : Value) : Except OperationError Value :=
  .ok (number (.ofBool (same a b)) a.derived)

def ne (a b : Value) : Except OperationError Value :=
  .ok (number (.ofBool (!same a b)) a.derived)

/-- Numbers that have no order satisfy no comparison. -/
def ordered (accept : Ordering → Bool) : Value → Value → Except OperationError Value :=
  onNumbers fun m n => .ofBool ((m.compare n).any accept)

def lt : Value → Value → Except OperationError Value := ordered Ordering.isLT

def lte : Value → Value → Except OperationError Value := ordered Ordering.isLE

def gt : Value → Value → Except OperationError Value := ordered Ordering.isGT

def gte : Value → Value → Except OperationError Value := ordered Ordering.isGE

def and : Value → Value → Except OperationError Value :=
  onNumbers fun m n => .ofBool (!m.isZero && !n.isZero)

def or : Value → Value → Except OperationError Value :=
  onNumbers fun m n => .ofBool (!m.isZero || !n.isZero)

def neg (a : Value) : Except OperationError Value :=
  match a with
  | number n _ => .ok (number n.neg a.derived)
  | a => .error (illegalAlone a)

def not (a : Value) : Except OperationError Value :=
  match a with
  | number n _ => .ok (number (.ofBool n.isZero) a.derived)
  | a => .error (illegalAlone a)

end Value

def BinaryOp.apply : BinaryOp → Value → Value → Except OperationError Value
  | add => Value.add
  | sub => Value.sub
  | mul => Value.mul
  | div => Value.div
  | pow => Value.pow
  | eq => Value.eq
  | ne => Value.ne
  | lt => Value.lt
  | lte => Value.lte
  | gt => Value.gt
  | gte => Value.gte
  | and => Value.and
  | or => Value.or

def UnaryOp.apply : UnaryOp → Value → Except OperationError Value
  | plus => .ok
  | minus => Value.neg
  | not => Value.not

end ScriptLang
