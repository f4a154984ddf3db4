import ScriptLang.Token.Scan

/-! What ends a pending token. A blank, a line end and the beginning of a comment go on with none,
so that each of them closes whatever the scanner is in the middle of, string literals and comments
aside. -/
namespace ScriptLang.Scanner

variable {a : Source} {s t : Scanner} {c : Char}

def Mode.Outside : Mode → Prop
  | .comment | .string _ _ _ => False
  | _ => True

theorem not_continued (ends : c ∈ [' ', '\n', '#']) : c.isDigit = false ∧ c ≠ '.' ∧
    isWordChar c = false ∧ ∀ first : Lead, c ≠ first.second := by
  simp only [List.mem_cons, List.not_mem_nil, or_false] at ends
  rcases ends with rfl | rfl | rfl
  · exact ⟨by decide, by decide, by decide, fun first => by cases first <;> decide⟩
  · exact ⟨by decide, by decide, by decide, fun first => by cases first <;> decide⟩
  · exact ⟨by decide, by decide, by decide, fun first => by cases first <;> decide⟩

theorem step_eq_ok (outside : s.mode.Outside) (ends : c ∈ [' ', '\n', '#']) :
    s.step a c = .ok t ↔ ∃ k, s.close a = .ok k ∧ k.start a c = .ok t := by
  have restart (x : Except LexError Scanner) :
      (do (← x).start a c) = .ok t ↔ ∃ k, x = .ok k ∧ k.start a c = .ok t := by
    cases x <;> simp [bind, Except.bind]
  obtain ⟨digit, dot, letter, second⟩ := not_continued ends
  unfold step
  cases mode : s.mode with
  | comment => rw [mode] at outside; exact outside.elim
  | string => rw [mode] at outside; exact outside.elim
  | idle =>
    have same : s.close a = .ok s := by
      obtain ⟨_, position, tokens⟩ := s
      cases mode
      rfl
    rw [same, ← restart]
    rfl
  | number start read dotted =>
    simp only [digit, dot, false_and, if_false, Bool.false_eq_true]
    exact restart _
  | word start read =>
    simp only [letter, if_false, Bool.false_eq_true]
    exact restart _
  | lead start first =>
    dsimp only
    rw [if_neg (second first), ← restart]
    unfold close
    rw [mode]
    cases alone : first.alone? with
    | none => simp [alone, bind, Except.bind]
    | some symbol => simp

end ScriptLang.Scanner
