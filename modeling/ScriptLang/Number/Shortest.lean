import ScriptLang.Number.Binary

/-! The decimal text of a double: the fewest significant digits that still read back as the same
double, of those the nearest to it, and of two equally near the larger. The text is positional
however long that makes it. Everything is computed exactly, on naturals. -/
namespace ScriptLang

structure Decimal where
  digits : Nat
  exponent : Int
  deriving DecidableEq

/-- A double and the reals that round to it, as numerators over one denominator. -/
structure Rounding where
  low : Nat
  value : Nat
  high : Nat
  denominator : Nat
  /-- Whether the two ends round to the double as well. -/
  closed : Bool

namespace Rounding

/-- The double below a power of two is half as far away as the one above it. -/
def ofBinary (significand : Nat) (exponent : Int) : Rounding :=
  let up := Nat.pow 2 (exponent - 2).toNat
  { low := (4 * significand - if significand = Binary.leadingBit then 1 else 2) * up
    value := 4 * significand * up
    high := (4 * significand + 2) * up
    denominator := Nat.pow 2 (2 - exponent).toNat
    closed := significand % 2 = 0 }

def admits (r : Rounding) (n d : Nat) : Bool :=
  let left := r.low * d
  let middle := n * r.denominator
  let right := r.high * d
  if r.closed then left ≤ middle && middle ≤ right else left < middle && middle < right

/-- The `e` with `10 ^ (e - 1) ≤ value < 10 ^ e`, found from the lengths of the two parts. -/
def magnitude (r : Rounding) : Int :=
  let e : Int := (Nat.toDigits 10 r.value).length - (Nat.toDigits 10 r.denominator).length
  if r.denominator * Nat.pow 10 e.toNat ≤ r.value * Nat.pow 10 (-e).toNat then e + 1 else e

/-- The better of the two neighbours with `count` significant digits, if one rounds to the
double. -/
def atCount (r : Rounding) (count : Nat) : Option Decimal :=
  let exponent := r.magnitude - count
  let up := Nat.pow 10 exponent.toNat
  let down := Nat.pow 10 (-exponent).toNat
  let n := r.value * down
  let d := r.denominator * up
  let below := n / d
  let lower := r.admits (below * up) down
  let upper := r.admits ((below + 1) * up) down
  let nearerBelow := 2 * (n % d) < d
  if lower && (nearerBelow || !upper) then some ⟨below, exponent⟩
  else if upper then some ⟨below + 1, exponent⟩
  else none

/-- Seventeen digits tell any two doubles apart. -/
def shortest (r : Rounding) : Decimal :=
  ((List.range' 1 17).findSome? r.atCount).getD ⟨0, 0⟩

end Rounding

namespace Decimal

def positional (d : Decimal) : String :=
  let whole := d.digits * Nat.pow 10 d.exponent.toNat
  let places := (-d.exponent).toNat
  let scale := Nat.pow 10 places
  let digits := Nat.toDigits 10 (whole / scale)
  let rest := Nat.toDigits 10 (whole % scale)
  let fraction := (List.replicate (places - rest.length) '0' ++ rest).reverse.dropWhile (· = '0')
  String.ofList (if fraction.isEmpty then digits else digits ++ '.' :: fraction.reverse)

end Decimal

/-- The shortest text of a double, without a fraction when it is whole. -/
def Binary.text : Binary → String
  | nan => "NaN"
  | infinite negative => if negative then "-inf" else "inf"
  | finite negative significand exponent =>
    let magnitude :=
      if significand = 0 then "0"
      else (Rounding.ofBinary significand exponent).shortest.positional
    if negative then "-" ++ magnitude else magnitude

end ScriptLang
