import ScriptLang.Eval.Loop
import ScriptLang.Proofs.Number.Exact
import ScriptLang.Proofs.Number.Overflow

/-! The range of a counting loop between integers, and the number that follows one in range. When
that is no 64 bit integer any more, it is a double, and in range of no bound. -/
namespace ScriptLang

variable {σ : Type}

def Ahead (a b s : Int) : Prop := (0 < s ∧ a < b) ∨ (s < 0 ∧ b < a)

instance (a b s : Int) : Decidable (Ahead a b s) := inferInstanceAs (Decidable (_ ∨ _))

theorem Number.isNegative_int (s : Int64) : isNegative (.int s) = decide (s.toInt < 0) := by
  simp [isNegative, Int64.lt_iff_toInt_lt]

theorem inRange_iff_ahead {a b s : Int64} (nonzero : s ≠ 0) :
    inRange (.int a) (.int b) (.int s) = true ↔ Ahead a.toInt b.toInt s.toInt := by
  have apart : s.toInt ≠ 0 := fun zero => nonzero (Int64.toInt_inj.1 zero)
  unfold inRange Number.compare
  rw [Number.isNegative_int, Option.any_some]
  by_cases down : s.toInt < 0
  · rw [if_pos (decide_eq_true down), Ordering.isGT_iff_eq_gt, Int.compare_eq_gt]
    unfold Ahead
    omega
  · rw [decide_eq_false down, if_neg Bool.false_ne_true, Ordering.isLT_iff_eq_lt,
      Int.compare_eq_lt]
    unfold Ahead
    omega

namespace Number

theorem add_of_fits {a s : Int64} (low : -2 ^ 63 ≤ a.toInt + s.toInt)
    (high : a.toInt + s.toInt < 2 ^ 63) :
    ∃ next : Int64, add (.int a) (.int s) = .int next ∧ next.toInt = a.toInt + s.toInt :=
  (settles_add a s).exact ⟨low, high⟩

theorem add_of_not_fits {a s : Int64}
    (out : a.toInt + s.toInt < -2 ^ 63 ∨ 2 ^ 63 ≤ a.toInt + s.toInt) :
    add (.int a) (.int s) = .float ((int a).toFloat + (int s).toFloat) := by
  refine (settles_add a s).rounded ?_
  unfold Int64.Fits
  omega

theorem compare_float_int (x : Float) (n : Int64) :
    compare (.float x) (.int n) =
      if x < (int n).toFloat then some .lt
      else if x == (int n).toFloat then some .eq
      else if x > (int n).toFloat then some .gt else none := rfl

theorem not_inRange_of_not_fits {a s : Int64}
    (out : a.toInt + s.toInt < -2 ^ 63 ∨ 2 ^ 63 ≤ a.toInt + s.toInt) (b : Int64) :
    inRange (add (.int a) (.int s)) (.int b) (.int s) = false := by
  have low := a.le_toInt
  have high := a.toInt_lt
  rw [add_of_not_fits out, inRange, isNegative_int, compare_float_int]
  rcases out with below | above
  · have down : s.toInt < 0 := by omega
    have none_above := not_gt_of_underflow below b
    rw [if_pos (decide_eq_true down), if_neg none_above]
    split
    · rfl
    · split <;> rfl
  · have up : ¬ s.toInt < 0 := by omega
    have none_below := not_lt_of_overflow above b
    rw [decide_eq_false up, if_neg Bool.false_ne_true, if_neg none_below]
    split
    · rfl
    · split <;> rfl

end Number

end ScriptLang
