/-! The exact value of a double: a sign, a whole significand and a power of two. -/
namespace ScriptLang

inductive Binary where
  | nan
  | infinite (negative : Bool)
  /-- `significand * 2 ^ exponent`, with a sign that zero has too. -/
  | finite (negative : Bool) (significand : Nat) (exponent : Int)
  deriving DecidableEq

namespace Binary

def leadingBit : Nat := Nat.pow 2 52

/-- Reads the three fields of the 64 bit layout. A biased exponent of zero marks a significand
without its leading bit. -/
def ofBits (bits : Nat) : Binary :=
  let negative := bits.testBit 63
  let biased := bits / leadingBit % 2048
  let fraction := bits % leadingBit
  if biased = 2047 then
    if fraction = 0 then .infinite negative else .nan
  else if biased = 0 then .finite negative fraction (-1074)
  else .finite negative (leadingBit + fraction) ((biased : Int) - 1075)

def ofFloat (x : Float) : Binary := ofBits x.toBits.toNat

def whole? : Binary → Option Int
  | finite negative significand exponent =>
    let scale := Nat.pow 2 (-exponent).toNat
    if significand % scale = 0 then
      let magnitude : Int := (significand / scale * Nat.pow 2 exponent.toNat : Nat)
      some (if negative then -magnitude else magnitude)
    else none
  | _ => none

end Binary

end ScriptLang
