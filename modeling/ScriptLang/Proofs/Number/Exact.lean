import Mathlib
import ScriptLang.Value.Operation

/-! Arithmetic on integers. Sums, differences, products, powers and negatives are the exact ones as
long as they are 64 bit integers, and doubles when they are not. Only a power with an exponent of
more than 32 bits is a double in any case, which matters for the bases whose powers stay small. -/
namespace ScriptLang

def Int64.Fits (n : Int) : Prop := -2 ^ 63 ≤ n ∧ n < 2 ^ 63

theorem Int64.ofInt?_of_fits {n : Int} (h : Fits n) :
    ∃ m : Int64, ofInt? n = some m ∧ m.toInt = n := by
  refine ⟨Int64.ofInt n, if_pos ?_, Int64.toInt_ofInt_of_le h.1 h.2⟩
  rw [Int64.toInt_minValue, Int64.toInt_maxValue]
  unfold Fits at h
  omega

theorem Int64.ofInt?_of_not_fits {n : Int} (h : ¬ Fits n) : ofInt? n = none := by
  apply if_neg
  rw [Int64.toInt_minValue, Int64.toInt_maxValue]
  unfold Fits at h
  omega

theorem Int64.ofInt?_eq_some {k : Int} {n : Int64} : ofInt? k = some n ↔ n.toInt = k := by
  constructor
  · intro found
    by_cases fits : Fits k
    · obtain ⟨m, found', value⟩ := ofInt?_of_fits fits
      rw [found] at found'
      cases found'
      exact value
    · rw [ofInt?_of_not_fits fits] at found
      cases found
  · rintro rfl
    obtain ⟨m, found, value⟩ := ofInt?_of_fits ⟨n.le_toInt, n.toInt_lt⟩
    rw [found, Int64.toInt_inj.1 value]

theorem Int64.fits_neg_iff (a : Int64) : Fits (-a.toInt) ↔ a ≠ Int64.minValue := by
  have low := a.le_toInt
  have high := a.toInt_lt
  rw [← Int64.toInt_inj.ne, Int64.toInt_minValue]
  unfold Fits
  omega

namespace Number

/-- The number is the integer `n` if that fits, and the double `x` if not. -/
structure Settles (r : Number) (n : Int) (x : Float) : Prop where
  exact : Int64.Fits n → ∃ m : Int64, r = .int m ∧ m.toInt = n
  rounded : ¬ Int64.Fits n → r = .float x

theorem settles_combine {exact : Int → Int → Option Int} {rounded : Float → Float → Float}
    {a b : Int64} {n : Int} (h : (exact a.toInt b.toInt).bind Int64.ofInt? = Int64.ofInt? n) :
    (combine exact rounded (.int a) (.int b)).Settles n
      (rounded (int a).toFloat (int b).toFloat) := by
  unfold combine
  dsimp only
  rw [h]
  constructor
  · intro fits
    obtain ⟨m, found, value⟩ := Int64.ofInt?_of_fits fits
    exact ⟨m, by rw [found]; rfl, value⟩
  · intro out
    rw [Int64.ofInt?_of_not_fits out]
    rfl

theorem settles_add (a b : Int64) : (add (.int a) (.int b)).Settles (a.toInt + b.toInt)
    ((int a).toFloat + (int b).toFloat) := settles_combine rfl

theorem settles_sub (a b : Int64) : (sub (.int a) (.int b)).Settles (a.toInt - b.toInt)
    ((int a).toFloat - (int b).toFloat) := settles_combine rfl

section Powers

variable {a e : Int}

/-- Powers of zero, one and minus one are found by looking at the exponent. -/
theorem exactPower_of_natAbs_le_one (base : a.natAbs ≤ 1) (nonneg : 0 ≤ e) (short : e < 2 ^ 32) :
    exactPower a e = some (a ^ e.toNat) := by
  have bits : ¬ (e < 0 ∨ (UInt32.size : Int) ≤ e) := by
    change ¬ (e < 0 ∨ (4294967296 : Int) ≤ e)
    omega
  obtain ⟨k, rfl⟩ := Int.eq_ofNat_of_zero_le nonneg
  rw [exactPower, if_neg bits, if_pos base, Int.toNat_natCast]
  congr 1
  have cases : a = 0 ∨ a = 1 ∨ a = -1 := by omega
  by_cases zero : (k : Int) = 0
  · obtain rfl : k = 0 := by omega
    simp
  · rw [if_neg zero]
    have nonzero : k ≠ 0 := by omega
    by_cases even : (k : Int) % 2 = 0
    · have even' : Even k := Nat.even_iff.2 (by omega)
      rw [if_pos even]
      obtain rfl | rfl | rfl := cases
      · simp [nonzero]
      · simp
      · simp [even'.neg_one_pow]
    · have odd : Odd k := Nat.odd_iff.2 (by omega)
      rw [if_neg even]
      obtain rfl | rfl | rfl := cases
      · simp [nonzero]
      · simp
      · simp [odd.neg_one_pow]

theorem not_fits_pow (base : 2 ≤ a.natAbs) {k : Nat} (large : 64 ≤ k) : ¬ Int64.Fits (a ^ k) := by
  have size : 2 ^ 64 ≤ (a ^ k).natAbs := by
    rw [Int.natAbs_pow]
    calc 2 ^ 64 ≤ 2 ^ k := Nat.pow_le_pow_right (by decide) large
      _ ≤ a.natAbs ^ k := Nat.pow_le_pow_left base k
  unfold Int64.Fits
  omega

theorem exactPower_bind (nonneg : 0 ≤ e) (range : ¬ (2 ^ 32 ≤ e ∧ a.natAbs ≤ 1)) :
    (exactPower a e).bind Int64.ofInt? = Int64.ofInt? (a ^ e.toNat) := by
  by_cases base : a.natAbs ≤ 1
  · rw [exactPower_of_natAbs_le_one base nonneg (by omega), Option.bind_some]
  · by_cases large : 64 ≤ e
    · rw [Int64.ofInt?_of_not_fits (not_fits_pow (by omega) (by omega))]
      unfold exactPower
      rw [if_neg base, if_pos large, ite_self, Option.bind_none]
    · have bits : ¬ (e < 0 ∨ (UInt32.size : Int) ≤ e) := by
        change ¬ (e < 0 ∨ (4294967296 : Int) ≤ e)
        omega
      unfold exactPower
      rw [if_neg bits, if_neg base, if_neg large, Option.bind_some]
      rfl

theorem pow_of_large {a b : Int64} (large : 2 ^ 32 ≤ b.toInt) :
    pow (.int a) (.int b) = .float (Float.pow (int a).toFloat (int b).toFloat) := by
  have bits : b.toInt < 0 ∨ (UInt32.size : Int) ≤ b.toInt := .inr large
  have none : exactPower a.toInt b.toInt = none := if_pos bits
  unfold pow combine
  dsimp only
  rw [none]
  rfl

end Powers

end Number

open Number in
/-- For all 64 bit integers. The one gap: of bases that are at most one in size, powers whose
exponent has more than 32 bits are doubles, though they would fit. -/
theorem arithmetic_exact (a b : Int64) :
    (add (.int a) (.int b)).Settles (a.toInt + b.toInt) ((int a).toFloat + (int b).toFloat) ∧
    (sub (.int a) (.int b)).Settles (a.toInt - b.toInt) ((int a).toFloat - (int b).toFloat) ∧
    (mul (.int a) (.int b)).Settles (a.toInt * b.toInt) ((int a).toFloat * (int b).toFloat) ∧
    (0 ≤ b.toInt → ¬ (2 ^ 32 ≤ b.toInt ∧ a.toInt.natAbs ≤ 1) →
      (pow (.int a) (.int b)).Settles (a.toInt ^ b.toInt.toNat)
        (Float.pow (int a).toFloat (int b).toFloat)) ∧
    (2 ^ 32 ≤ b.toInt → a.toInt.natAbs ≤ 1 →
      pow (.int a) (.int b) = .float (Float.pow (int a).toFloat (int b).toFloat)) ∧
    (∀ t, ∃ r, UnaryOp.minus.apply (.number (.int a) t) = .ok (.number r ⟨none, t.frame⟩) ∧
      r.Settles (-a.toInt) ((int 0).toFloat - (int a).toFloat)) ∧
    (Int64.Fits (-a.toInt) ↔ a ≠ Int64.minValue) := by
  refine ⟨settles_add a b, settles_sub a b, settles_combine rfl, ?_, ?_, ?_,
    Int64.fits_neg_iff a⟩
  · intro nonneg range
    exact settles_combine (exactPower_bind nonneg range)
  · intro large _
    exact pow_of_large large
  · intro t
    have negative := settles_sub 0 a
    rw [Int64.toInt_zero, Int.zero_sub] at negative
    exact ⟨neg (.int a), rfl, negative⟩

open Number in
/-- The 63rd power of minus two is the least integer of all. -/
theorem arithmetic_exact_least : 0 ≤ (63 : Int64).toInt ∧
    ¬ (2 ^ 32 ≤ (63 : Int64).toInt ∧ (-2 : Int64).toInt.natAbs ≤ 1) ∧
    ∃ m : Int64, pow (.int (-2)) (.int 63) = .int m ∧ m.toInt = -2 ^ 63 := by
  refine ⟨by decide, by decide, ?_⟩
  obtain ⟨-, -, -, power, -⟩ := arithmetic_exact (-2) 63
  exact (power (by decide) (by decide)).exact (by unfold Int64.Fits; decide)

open Number in
/-- One is its own power, and a double for an exponent of 33 bits. -/
theorem pow_rounded_at_one : 0 ≤ (4294967296 : Int64).toInt ∧
    Int64.Fits ((1 : Int64).toInt ^ (4294967296 : Int64).toInt.toNat) ∧
    ∀ m : Int64, pow (.int 1) (.int 4294967296) ≠ .int m := by
  have one : (1 : Int64).toInt = 1 := by decide
  refine ⟨by decide, ?_, ?_⟩
  · rw [one, one_pow]
    exact ⟨by decide, by decide⟩
  · intro m
    rw [pow_of_large (by decide)]
    exact nofun

end ScriptLang
