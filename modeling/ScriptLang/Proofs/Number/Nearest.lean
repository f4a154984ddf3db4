import Mathlib.Algebra.Group.Nat.Defs

/-! Rounding to 53 binary digits, on natural numbers. Rounding keeps the order towards numbers that
need no rounding; that and what is lost at most tell where a sum of two rounded numbers may lie
when it is rounded again. -/
namespace ScriptLang.Binary

/-- `n / 2 ^ k` to the nearest integer, to the even one of two that are. -/
def rounded (n : Nat) : Nat → Nat
  | 0 => n
  | k + 1 => n / 2 ^ (k + 1) +
    if n / 2 ^ k % 2 = 0 then 0 else if n % 2 ^ k = 0 then n / 2 ^ (k + 1) % 2 else 1

theorem rounded_scaled (n k c : Nat) : rounded (n * 2 ^ c) (k + c) = rounded n k := by
  have whole (i : Nat) : n * 2 ^ c / 2 ^ (i + c) = n / 2 ^ i := by
    rw [Nat.pow_add, Nat.mul_div_mul_right _ _ (Nat.two_pow_pos c)]
  cases k with
  | zero =>
    cases c with
    | zero => simp [rounded]
    | succ c =>
      have twice : n * 2 ^ (c + 1) / 2 ^ c = n * 2 := by
        rw [Nat.pow_succ', ← Nat.mul_assoc, Nat.mul_div_cancel _ (Nat.two_pow_pos c)]
      have exact := whole 0
      simp only [Nat.zero_add, Nat.pow_zero, Nat.div_one] at exact ⊢
      simp [rounded, twice, exact]
  | succ k =>
    have rest : n * 2 ^ c % 2 ^ (k + c) = n % 2 ^ k * 2 ^ c := by
      rw [Nat.pow_add, Nat.mul_mod_mul_right]
    have above := whole (k + 1)
    rw [show k + 1 + c = k + c + 1 by omega] at above ⊢
    simp only [rounded, whole k, above, rest, Nat.mul_eq_zero, Nat.ne_of_gt (Nat.two_pow_pos c),
      or_false]

theorem div_le_rounded (n k : Nat) : n / 2 ^ k ≤ rounded n k := by
  cases k with
  | zero => simp [rounded]
  | succ k => exact Nat.le_add_right _ _

theorem rounded_le (n k : Nat) : rounded n k ≤ n / 2 ^ k + 1 := by
  cases k with
  | zero => simp [rounded]
  | succ k =>
    rw [rounded]
    split
    · omega
    · split <;> omega

theorem rounded_of_mod_eq_zero {n k : Nat} (h : n % 2 ^ k = 0) : rounded n k = n / 2 ^ k := by
  obtain ⟨q, rfl⟩ := Nat.dvd_of_mod_eq_zero h
  rw [Nat.mul_div_cancel_left _ (Nat.two_pow_pos k), Nat.mul_comm]
  simpa [rounded] using rounded_scaled q 0 k

theorem le_rounded (n k : Nat) : n ≤ rounded n (k + 1) * 2 ^ (k + 1) + 2 ^ k := by
  have parts := Nat.div_add_mod n (2 ^ (k + 1))
  have bits : n % 2 ^ (k + 1) = n % 2 ^ k + 2 ^ k * (n / 2 ^ k % 2) := Nat.mod_pow_succ
  have least := Nat.mod_lt n (Nat.two_pow_pos k)
  have double : 2 ^ (k + 1) = 2 * 2 ^ k := Nat.pow_succ'
  rw [rounded]
  by_cases down : n / 2 ^ k % 2 = 0
  · rw [if_pos down, Nat.add_zero, Nat.mul_comm]
    rw [down] at bits
    omega
  · have odd : n / 2 ^ k % 2 = 1 := by omega
    rw [if_neg down]
    rw [odd] at bits
    by_cases tie : n % 2 ^ k = 0
    · have kept : n / 2 ^ (k + 1) * 2 ^ (k + 1) ≤
          (n / 2 ^ (k + 1) + n / 2 ^ (k + 1) % 2) * 2 ^ (k + 1) :=
        Nat.mul_le_mul_right _ (Nat.le_add_right _ _)
      rw [if_pos tie]
      rw [Nat.mul_comm] at kept
      omega
    · rw [if_neg tie, Nat.add_mul, Nat.mul_comm]
      omega

/-- The nearest number to `n` that has no more than 53 digits before its zeros. -/
def nearest (n : Nat) : Nat := rounded n (n.log2 - 52) * 2 ^ (n.log2 - 52)

def Short (w : Nat) : Prop := ∃ q j, w = q * 2 ^ j ∧ q ≤ 2 ^ 53

theorem two_pow_le_of_lost {n : Nat} (h : n.log2 - 52 ≠ 0) : 2 ^ 52 * 2 ^ (n.log2 - 52) ≤ n := by
  rw [← Nat.pow_add, show 52 + (n.log2 - 52) = n.log2 by omega]
  apply Nat.log2_self_le
  rintro rfl
  simp at h

theorem le_nearest_of_dvd {n w : Nat} (le : w ≤ n) (whole : 2 ^ (n.log2 - 52) ∣ w) :
    w ≤ nearest n := by
  obtain ⟨q, rfl⟩ := whole
  rw [Nat.mul_comm] at le ⊢
  apply Nat.mul_le_mul_right
  exact Nat.le_trans ((Nat.le_div_iff_mul_le (Nat.two_pow_pos _)).2 le) (div_le_rounded _ _)

theorem Short.le_nearest {n w : Nat} (short : Short w) (le : w ≤ n) : w ≤ nearest n := by
  obtain ⟨q, j, rfl, small⟩ := short
  by_cases fine : n.log2 - 52 ≤ j
  · exact le_nearest_of_dvd le (Nat.dvd_mul_left_of_dvd (Nat.pow_dvd_pow 2 fine) q)
  · -- then `w` is no larger than the power of two that `n` begins with
    have first := two_pow_le_of_lost (n := n) (by omega)
    have top := le_nearest_of_dvd first (Nat.dvd_mul_left _ _)
    have half : 2 ^ (j + 1) ≤ 2 ^ (n.log2 - 52) := Nat.pow_le_pow_right (by omega) (by omega)
    have scaled := Nat.mul_le_mul_right (2 ^ j) small
    omega

theorem Short.nearest_le {n w : Nat} (short : Short w) (le : n ≤ w) : nearest n ≤ w := by
  obtain ⟨q, j, rfl, small⟩ := short
  have whole : 2 ^ (n.log2 - 52) ∣ q * 2 ^ j := by
    by_cases fine : n.log2 - 52 ≤ j
    · exact Nat.dvd_mul_left_of_dvd (Nat.pow_dvd_pow 2 fine) q
    · have first := two_pow_le_of_lost (n := n) (by omega)
      have half : 2 ^ (j + 1) ≤ 2 ^ (n.log2 - 52) := Nat.pow_le_pow_right (by omega) (by omega)
      have scaled := Nat.mul_le_mul_right (2 ^ j) small
      rw [show q * 2 ^ j = 2 ^ 52 * 2 ^ (n.log2 - 52) by omega]
      exact Nat.dvd_mul_left _ _
  rw [nearest]
  generalize n.log2 - 52 = k at whole
  obtain ⟨r, eq⟩ := whole
  rw [eq] at le ⊢
  rw [Nat.mul_comm]
  apply Nat.mul_le_mul_left
  by_cases exact : n % 2 ^ k = 0
  · rw [rounded_of_mod_eq_zero exact]
    exact Nat.div_le_of_le_mul le
  · have less : n < r * 2 ^ k := by
      apply Nat.lt_of_le_of_ne (by rwa [Nat.mul_comm])
      rintro rfl
      simp at exact
    exact Nat.le_trans (rounded_le n k) ((Nat.div_lt_iff_lt_mul (Nat.two_pow_pos k)).2 less)

theorem short_two_pow (j : Nat) : Short (2 ^ j) := ⟨1, j, (Nat.one_mul _).symm, by decide⟩

/-- Two numbers that add up to at least `2 ^ 63`, in units of `2 ^ -52`. The larger one loses no
more than `2 ^ 61` units and keeps a multiple of twice as many, so what it lacks to that sum but
for `2 ^ 61` is short, and the smaller one does not fall below it. -/
theorem two_pow_le_sum {x y : Nat} (hx : x ≤ 2 ^ 63) (hy : y ≤ x) (sum : 2 ^ 63 ≤ x + y) :
    2 ^ 115 - 2 ^ 61 ≤ nearest (x * 2 ^ 52) + nearest (y * 2 ^ 52) := by
  have least := (short_two_pow 114).le_nearest (n := x * 2 ^ 52) (by omega)
  by_cases top : x = 2 ^ 63
  · have := (short_two_pow 115).le_nearest (n := x * 2 ^ 52) (by omega)
    omega
  · have digits : (x * 2 ^ 52).log2 = 114 := (Nat.log2_eq_iff (by omega)).2 (by omega)
    have lost : x * 2 ^ 52 ≤ rounded (x * 2 ^ 52) 62 * 2 ^ 62 + 2 ^ 61 := le_rounded _ 61
    have whole : nearest (x * 2 ^ 52) = rounded (x * 2 ^ 52) 62 * 2 ^ 62 := by
      rw [nearest, digits]
    rw [whole] at least ⊢
    have lacking : Short (2 ^ 115 - 2 ^ 61 - rounded (x * 2 ^ 52) 62 * 2 ^ 62) :=
      ⟨2 ^ 54 - 1 - 2 * rounded (x * 2 ^ 52) 62, 61, by omega, by omega⟩
    have := lacking.le_nearest (n := y * 2 ^ 52) (by omega)
    omega

/-- Half a unit below a power of two goes up to it, since the number below is odd. -/
theorem two_pow_le_nearest {n : Nat} (h : 2 ^ 115 - 2 ^ 61 ≤ n) : 2 ^ 115 ≤ nearest n := by
  by_cases top : 2 ^ 115 ≤ n
  · exact (short_two_pow 115).le_nearest top
  · have digits : n.log2 = 114 := (Nat.log2_eq_iff (by omega)).2 (by omega)
    have kept : n / 2 ^ 62 = 2 ^ 53 - 1 := by omega
    have next : n / 2 ^ 61 = 2 ^ 54 - 1 := by omega
    rw [nearest, digits]
    change 2 ^ 115 ≤ rounded n (61 + 1) * 2 ^ 62
    rw [rounded, kept, next]
    simp

theorem log2_scaled {n : Nat} (nonzero : n ≠ 0) (c : Nat) : (n * 2 ^ c).log2 = n.log2 + c := by
  have pos := Nat.two_pow_pos c
  rw [Nat.log2_eq_iff (Nat.mul_ne_zero nonzero (by omega)), Nat.pow_add,
    show n.log2 + c + 1 = n.log2 + 1 + c by omega, Nat.pow_add]
  exact ⟨Nat.mul_le_mul_right _ (Nat.log2_self_le nonzero),
    Nat.mul_lt_mul_of_pos_right Nat.lt_log2_self pos⟩

theorem rounded_bounds {n : Nat} (digits : 52 ≤ n.log2) :
    2 ^ 52 ≤ rounded n (n.log2 - 52) ∧ rounded n (n.log2 - 52) ≤ 2 ^ 53 := by
  have nonzero : n ≠ 0 := by rintro rfl; simp at digits
  have low := Nat.log2_self_le nonzero
  have high := Nat.lt_log2_self (n := n)
  obtain ⟨k, eq⟩ := Nat.exists_eq_add_of_le digits
  have pos := Nat.two_pow_pos k
  rw [eq, Nat.add_sub_cancel_left]
  rw [eq, Nat.pow_add] at low
  rw [eq, show 52 + k + 1 = 53 + k by omega, Nat.pow_add] at high
  constructor
  · exact Nat.le_trans ((Nat.le_div_iff_mul_le pos).2 low) (div_le_rounded n k)
  · exact Nat.le_trans (rounded_le n k) ((Nat.div_lt_iff_lt_mul pos).2 high)

end ScriptLang.Binary
