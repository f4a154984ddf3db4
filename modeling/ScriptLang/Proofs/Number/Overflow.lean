import Mathlib
import ScriptLang.Number
import ScriptLang.Proofs.Number.Nearest

/-! What doubles make of a sum of two integers that is too large for an integer: as a double it
comes before no integer, and one that is too small behind none. Both follow from how doubles are
rounded, packed, added and compared, with every number counted in units of `2 ^ -52`. -/
namespace ScriptLang

open Binary
open Float.Model (Format totalExponent UnpackedFloat)
open Float.Model.UnpackedFloat

namespace Binary

theorem shiftRight_succ (n k : Nat) :
    ExtendedMantissa.mk n false false >>> (k + 1) =
      ⟨n / 2 ^ (k + 1), n / 2 ^ k % 2 != 0, n % 2 ^ k != 0⟩ := by
  induction k with
  | zero =>
    change ExtendedMantissa.shiftRightOne (.mk n false false) = _
    simp [ExtendedMantissa.shiftRightOne, Nat.mod_one]
  | succ k ih =>
    change ExtendedMantissa.shiftRightOne (ExtendedMantissa.mk n false false >>> (k + 1)) = _
    rw [ih]
    have sticky : (n / 2 ^ k % 2 != 0 || n % 2 ^ k != 0) = (n % 2 ^ (k + 1) != 0) := by
      rw [Nat.mod_pow_succ]
      by_cases even : n / 2 ^ k % 2 = 0
      · simp [even]
      · have odd : n / 2 ^ k % 2 = 1 := by omega
        simp [odd]
    simp only [ExtendedMantissa.shiftRightOne, sticky, Nat.div_div_eq_div_mul, ← Nat.pow_succ]

theorem roundedMantissa_shiftRight (n k : Nat) :
    (ExtendedMantissa.mk n false false >>> k).roundedMantissa = rounded n k := by
  cases k with
  | zero => rfl
  | succ k =>
    rw [shiftRight_succ, rounded]
    have bit (i : Nat) : (i != 0) = if i = 0 then false else true := by
      by_cases h : i = 0 <;> simp [h]
    rw [bit, bit]
    split <;> split <;> rfl

/-- A double with all its 53 digits, which comes to `n` units on the side of the sign. -/
def Units (u : UnpackedFloat) (s : Sign) (n : Nat) : Prop :=
  ∃ (m k : Nat) (pos : 0 < m), u = .finite s m ((k : Int) - 52) pos ∧ n = m * 2 ^ k ∧
    2 ^ 52 ≤ m ∧ m < 2 ^ 53 ∧ k < 200

theorem targetExponent_eq {n k : Nat} {e : Int} (digits : n.log2 + e = k) :
    Format.binary64.targetExponent (totalExponent n e) = k - 52 := by
  simp only [Format.targetExponent, totalExponent, Format.mantissaBits, Format.minExponent]
  omega

theorem shiftToTargetExponent_eq {n k : Nat} {e : Int} (digits : n.log2 + e = k)
    (fine : e ≤ k - 52) :
    shiftToTargetExponent .binary64 n e .exact =
      (ExtendedMantissa.mk n false false >>> (n.log2 - 52), (k : Int) - 52) := by
  have amount : ((k : Int) - 52 - e).toNat = n.log2 - 52 := by omega
  simp only [shiftToTargetExponent, targetExponent_eq digits, shiftToExponent, amount,
    ExtendedMantissa.ofMantissaAndAccuracy, Prod.mk.injEq, true_and]
  omega

theorem units_roundWithAccuracy {n k : Nat} {e : Int} (s : Sign) (digits : n.log2 + e = k)
    (fine : e ≤ k - 52) (high : k < 199) :
    Units (roundWithAccuracy .binary64 s n e .exact) s (rounded n (n.log2 - 52) * 2 ^ k) := by
  obtain ⟨low, top⟩ := rounded_bounds (n := n) (by omega)
  unfold roundWithAccuracy
  rw [shiftToTargetExponent_eq digits fine]
  dsimp only
  rw [roundedMantissa_shiftRight]
  generalize rounded n (n.log2 - 52) = r at low top
  by_cases short : r < 2 ^ 53
  · have same : r.log2 = 52 := (Nat.log2_eq_iff (by omega)).2 (by omega)
    have still : (r.log2 : Int) + (k - 52) = k := by omega
    rw [shiftToTargetExponent_eq still (by omega), same]
    change Units (if h : r = 0 then .zero s else .finite s r _ _) s _
    rw [dif_neg (by omega)]
    exact ⟨r, k, by omega, rfl, rfl, low, short, by omega⟩
  · -- all digits carried: one more zero goes to the exponent
    obtain rfl : r = 2 ^ 53 := by omega
    have longer : ((2 ^ 53 : Nat).log2 : Int) + ((k : Int) - 52) = (k + 1 : Nat) := by
      rw [Nat.log2_two_pow]
      omega
    rw [shiftToTargetExponent_eq longer (by omega), Nat.log2_two_pow]
    change Units (.finite s (2 ^ 52) _ _) s _
    have carried : 2 ^ 53 * 2 ^ k = 2 ^ 52 * 2 ^ (k + 1) := by
      rw [Nat.pow_succ]
      omega
    exact ⟨2 ^ 52, k + 1, by omega, rfl, carried, by omega, by omega, by omega⟩

theorem units_round {n c : Nat} {e : Int} (s : Sign) (scale : e + 52 = c)
    (low : 2 ^ 52 ≤ n * 2 ^ c) (high : n * 2 ^ c < 2 ^ 199) :
    Units (UnpackedFloat.round .binary64 s n e) s (nearest (n * 2 ^ c)) := by
  have nonzero : n ≠ 0 := by rintro rfl; simp at low
  have log := log2_scaled nonzero c
  have least : 52 ≤ (n * 2 ^ c).log2 := (Nat.le_log2 (by omega)).2 low
  have most : (n * 2 ^ c).log2 < 199 := (Nat.log2_lt (by omega)).2 high
  obtain ⟨k, hk⟩ : ∃ k : Nat, n.log2 + e = k := ⟨(n.log2 + e).toNat, by omega⟩
  unfold UnpackedFloat.round
  rw [targetExponent_eq hk]
  -- first so many zeros are put behind the digits that 53 of them are there
  obtain ⟨a, ha⟩ : ∃ a : Nat, (e - ((k : Int) - 52)).toNat = a := ⟨_, rfl⟩
  dsimp only [decreaseExponent]
  rw [ha, Nat.shiftLeft_eq]
  have filled := log2_scaled nonzero a
  have digits : ((n * 2 ^ a).log2 : Int) + (e - a) = k := by omega
  have units := units_roundWithAccuracy s digits (by omega) (by omega)
  have whole : n * 2 ^ c = n * 2 ^ a * 2 ^ (c - a) := by
    rw [Nat.mul_assoc, ← Nat.pow_add, show a + (c - a) = c by omega]
  have places : k = (n * 2 ^ a).log2 - 52 + (c - a) := by omega
  have same : rounded (n * 2 ^ c) k = rounded (n * 2 ^ a) ((n * 2 ^ a).log2 - 52) := by
    rw [whole, places]
    exact rounded_scaled _ _ _
  rw [nearest, show (n * 2 ^ c).log2 - 52 = k by omega, same]
  exact units

theorem Units.unpack_pack {u : UnpackedFloat} {s : Sign} {n : Nat} (h : Units u s n) :
    (Float.Model.pack u).unpack = u := by
  obtain ⟨m, k, pos, rfl, -, low, top, high⟩ := h
  have digits : m.log2 + 1 = Format.binary64.mantissaBits := by
    rw [show m.log2 = 52 from (Nat.log2_eq_iff (by omega)).2 ⟨low, top⟩]
    rfl
  have biased : ((k : Int) - 52 + Format.binary64.exponentBias +
      Format.binary64.mantissaBitsWithoutImplicit).toNat = k + 1023 := by
    change ((k : Int) - 52 + 1023 + 52).toNat = k + 1023
    omega
  have packed : UnpackedFloat.pack .binary64 (.finite s m ((k : Int) - 52) pos) =
      packComponents .binary64 s (BitVec.ofNat 11 (k + 1023)) (BitVec.ofNat 52 m) := by
    simp only [UnpackedFloat.pack, biased, digits, if_true]
    rw [if_neg (by omega)]
  have exponent : (BitVec.ofNat 11 (k + 1023)).toNat = k + 1023 := by
    rw [BitVec.toNat_ofNat, Nat.mod_eq_of_lt (by omega)]
  -- the exponent is neither that of infinities nor that of the smallest doubles
  have inner {c : BitVec 11} (ends : c.toNat = 2047 ∨ c.toNat = 0) :
      BitVec.ofNat 11 (k + 1023) ≠ c := by
    rintro rfl
    omega
  have mantissa : (1#1 ++ BitVec.ofNat 52 m).toNat = m := by
    rw [BitVec.toNat_append, ← Nat.shiftLeft_add_eq_or_of_lt (BitVec.isLt _), BitVec.toNat_ofNat]
    change 1 <<< 52 + m % 2 ^ 52 = m
    rw [Nat.shiftLeft_eq]
    omega
  change UnpackedFloat.unpack .binary64 (UnpackedFloat.pack .binary64 _) = _
  rw [packed]
  unfold UnpackedFloat.unpack
  simp only [unpackMantissa_packComponents, unpackExponent_packComponents,
    unpackSign_packComponents, Sign.ofBitVec_toBitVec]
  rw [if_neg (inner (.inl rfl)), if_neg (inner (.inr rfl))]
  simp only [mantissa, exponent, UnpackedFloat.finite.injEq, true_and]
  change ((k + 1023 : Nat) : Int) - (1023 + 52) = k - 52
  omega

theorem normalize_apply {n : Nat} (s zero : Sign) (e : Int) (pos : 0 < n) :
    UnpackedFloat.normalize .binary64 (s.apply n) e zero = UnpackedFloat.round .binary64 s n e := by
  unfold UnpackedFloat.normalize
  cases s with
  | positive =>
    change (match compare (n : Int) 0 with | .lt => _ | .eq => _ | .gt => _) = _
    rw [Int.compare_eq_gt.2 (by omega)]
    rfl
  | negative =>
    change (match compare (-n : Int) 0 with | .lt => _ | .eq => _ | .gt => _) = _
    rw [Int.compare_eq_lt.2 (by omega)]
    change UnpackedFloat.round .binary64 .negative (-(-(n : Int))).toNat e = _
    rw [Int.neg_neg, Int.toNat_natCast]

theorem Units.add {u v : UnpackedFloat} {s : Sign} {a b : Nat} (hu : Units u s a)
    (hv : Units v s b) (high : a + b < 2 ^ 199) :
    Units (UnpackedFloat.add .binary64 u v) s (nearest (a + b)) := by
  obtain ⟨m, i, pos, rfl, rfl, low, -, -⟩ := hu
  obtain ⟨n, j, pos', rfl, rfl, -, -, -⟩ := hv
  obtain ⟨k, hk⟩ : ∃ k, k = min i j := ⟨_, rfl⟩
  have least : min ((i : Int) - 52) (j - 52) = k - 52 := by omega
  have left : ((i : Int) - 52 - (k - 52)).toNat = i - k := by omega
  have right : ((j : Int) - 52 - (k - 52)).toNat = j - k := by omega
  have sum : s.apply ↑(m * 2 ^ (i - k)) + s.apply ↑(n * 2 ^ (j - k)) =
      s.apply ↑(m * 2 ^ (i - k) + n * 2 ^ (j - k)) := by
    cases s <;> simp only [Sign.apply] <;> omega
  have scaled : m * 2 ^ i + n * 2 ^ j = (m * 2 ^ (i - k) + n * 2 ^ (j - k)) * 2 ^ k := by
    rw [Nat.add_mul, Nat.mul_assoc, Nat.mul_assoc, ← Nat.pow_add, ← Nat.pow_add,
      show i - k + k = i by omega, show j - k + k = j by omega]
  have some : 0 < m * 2 ^ (i - k) := Nat.mul_pos pos (Nat.two_pow_pos _)
  have most : m ≤ m * 2 ^ i := Nat.le_mul_of_pos_right m (Nat.two_pow_pos i)
  simp only [UnpackedFloat.add, decreaseExponent, least, left, right, Nat.shiftLeft_eq]
  rw [sum, normalize_apply s _ _ (by omega), scaled]
  rw [scaled] at high
  exact units_round s (by omega) (by omega) high

theorem exponent_lt_or_le {m n i j : Nat} (top : m < 2 ^ 53) (low : 2 ^ 52 ≤ n)
    (le : n * 2 ^ j ≤ m * 2 ^ i) : j < i ∨ (j = i ∧ n ≤ m) := by
  rcases Nat.lt_trichotomy i j with less | rfl | more
  · have double : 2 ^ (i + 1) ≤ 2 ^ j := Nat.pow_le_pow_right (by omega) less
    have upper : m * 2 ^ i < 2 ^ 53 * 2 ^ i := Nat.mul_lt_mul_of_pos_right top (Nat.two_pow_pos i)
    have lower : 2 ^ 52 * 2 ^ j ≤ n * 2 ^ j := Nat.mul_le_mul_right _ low
    omega
  · exact .inr ⟨rfl, Nat.le_of_mul_le_mul_right le (Nat.two_pow_pos i)⟩
  · exact .inl more

/-- On the side of the sign, `v` does not lie beyond `u`. -/
def Outside (s : Sign) (u v : UnpackedFloat) : Prop :=
  match s with
  | .positive => u.lt v = false
  | .negative => v.lt u = false

theorem Units.outside_same {u v : UnpackedFloat} {s : Sign} {a b : Nat} (hu : Units u s a)
    (hv : Units v s b) (le : b ≤ a) : Outside s u v := by
  obtain ⟨m, i, pos, rfl, rfl, -, top, -⟩ := hu
  obtain ⟨n, j, pos', rfl, rfl, low, -, -⟩ := hv
  have order : (compare ((i : Int) - 52) (j - 52)).then (compare m n) ≠ .lt := by
    rcases exponent_lt_or_le top low le with less | ⟨rfl, fewer⟩
    · rw [Int.compare_eq_gt.2 (by omega)]
      exact nofun
    · rw [Int.compare_eq_eq.2 rfl]
      exact Nat.compare_ne_lt.2 fewer
  cases s with
  | positive => simpa [Outside, UnpackedFloat.lt, UnpackedFloat.compare] using order
  | negative =>
    have turned : ((compare ((j : Int) - 52) (i - 52)).then (compare n m)).swap =
        (compare ((i : Int) - 52) (j - 52)).then (compare m n) := by
      rw [Ordering.swap_then, Int.compare_swap, Nat.compare_swap]
    simpa [Outside, UnpackedFloat.lt, UnpackedFloat.compare, turned] using order

theorem Units.outside_other {u v : UnpackedFloat} {s t : Sign} {a b : Nat} (hu : Units u s a)
    (hv : Units v t b) (other : s ≠ t) : Outside s u v := by
  obtain ⟨m, i, pos, rfl, -⟩ := hu
  obtain ⟨n, j, pos', rfl, -⟩ := hv
  cases s <;> cases t <;> first | exact absurd rfl other | rfl

theorem Units.outside_zero {u : UnpackedFloat} {s t : Sign} {a : Nat} (hu : Units u s a) :
    Outside s u (.zero t) := by
  obtain ⟨m, i, pos, rfl, -⟩ := hu
  cases s <;> rfl

def signOf (n : Int) : Sign := if n < 0 then .negative else .positive

theorem units_ofInt64 {n : Int64} (nonzero : n.toInt ≠ 0) :
    Units (Float.Model.ofInt64 n).unpack (signOf n.toInt)
      (nearest (n.toInt.natAbs * 2 ^ 52)) := by
  have low := n.le_toInt
  have high := n.toInt_lt
  have apart : (signOf n.toInt).apply n.toInt.natAbs = n.toInt := by
    unfold signOf
    split <;> simp only [Sign.apply] <;> omega
  have units : Units (UnpackedFloat.ofInt64 .binary64 n) (signOf n.toInt)
      (nearest (n.toInt.natAbs * 2 ^ 52)) := by
    unfold UnpackedFloat.ofInt64 UnpackedFloat.ofInt
    rw [← apart, normalize_apply _ _ _ (by omega), apart]
    exact units_round _ rfl (by omega) (by omega)
  rwa [← units.unpack_pack] at units

/-- Two integers on one side of zero that have no sum among the 64 bit integers: as doubles they
add up to one that lies no nearer to zero than any of these. -/
theorem outside_of_overflow {x y : Int64} {s : Sign} (hx : x.toInt ≠ 0) (hy : y.toInt ≠ 0)
    (left : signOf x.toInt = s) (right : signOf y.toInt = s)
    (far : 2 ^ 63 ≤ x.toInt.natAbs + y.toInt.natAbs) (z : Int64) :
    Outside s (Float.Model.ofInt64 x + Float.Model.ofInt64 y).unpack
      (Float.Model.ofInt64 z).unpack := by
  have bound (n : Int64) : n.toInt.natAbs ≤ 2 ^ 63 := by
    have := n.le_toInt
    have := n.toInt_lt
    omega
  have within (n : Int64) : nearest (n.toInt.natAbs * 2 ^ 52) ≤ 2 ^ 115 := by
    have := bound n
    exact (short_two_pow 115).nearest_le (by omega)
  have sum : 2 ^ 115 - 2 ^ 61 ≤
      nearest (x.toInt.natAbs * 2 ^ 52) + nearest (y.toInt.natAbs * 2 ^ 52) := by
    rcases Nat.le_total y.toInt.natAbs x.toInt.natAbs with le | le
    · exact two_pow_le_sum (bound x) le far
    · rw [Nat.add_comm] at far ⊢
      exact two_pow_le_sum (bound y) le far
  have first := left ▸ units_ofInt64 hx
  have second := right ▸ units_ofInt64 hy
  have top := within x
  have top' := within y
  have units := first.add second (by omega)
  have same : (Float.Model.ofInt64 x + Float.Model.ofInt64 y).unpack =
      UnpackedFloat.add .binary64 (Float.Model.ofInt64 x).unpack (Float.Model.ofInt64 y).unpack :=
    units.unpack_pack
  rw [same]
  by_cases zero : z.toInt = 0
  · obtain rfl : z = 0 := Int64.toInt_inj.1 zero
    have none : (Float.Model.ofInt64 0).unpack = .zero .positive := by rfl
    rw [none]
    exact units.outside_zero
  · by_cases side : signOf z.toInt = s
    · exact units.outside_same (side ▸ units_ofInt64 zero)
        (Nat.le_trans (within z) (two_pow_le_nearest sum))
    · exact units.outside_other (units_ofInt64 zero) (Ne.symm side)

end Binary

namespace Number

theorem float_lt_iff (x y : Float) : x < y ↔ x.toModel.unpack.lt y.toModel.unpack = true := by
  change decide (x.toModel < y.toModel) = true ↔ _
  rw [decide_eq_true_iff]
  rfl

theorem not_lt_of_overflow {x y : Int64} (above : 2 ^ 63 ≤ x.toInt + y.toInt) (z : Int64) :
    ¬ (int x).toFloat + (int y).toFloat < (int z).toFloat := by
  have hx := x.toInt_lt
  have hy := y.toInt_lt
  have outside := outside_of_overflow (x := x) (y := y) (s := .positive) (by omega) (by omega)
    (if_neg (by omega)) (if_neg (by omega)) (by omega) z
  rw [float_lt_iff, Bool.not_eq_true]
  exact outside

theorem not_gt_of_underflow {x y : Int64} (below : x.toInt + y.toInt < -2 ^ 63) (z : Int64) :
    ¬ (int z).toFloat < (int x).toFloat + (int y).toFloat := by
  have hx := x.le_toInt
  have hy := y.le_toInt
  have outside := outside_of_overflow (x := x) (y := y) (s := .negative) (by omega) (by omega)
    (if_pos (by omega)) (if_pos (by omega)) (by omega) z
  rw [float_lt_iff, Bool.not_eq_true]
  exact outside

end Number

end ScriptLang
