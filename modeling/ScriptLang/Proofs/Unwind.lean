import ScriptLang.Eval

/-! What becomes of a signal, told by the step that unwinding makes of it. A signal that does not
unwind says no more than its value does; so a loop, a call and a program may as well look at the
step. -/
namespace ScriptLang

variable {σ : Type}

def Step.turn : Step σ Value → Step σ Turn
  | .done v m => .done (.value v) m
  | .exit e m =>
    if e.signal.loopContinue then .done .skip m
    else if e.signal.loopBreak then .done .stop m
    else .exit e m
  | .spent => .spent

def Step.callResult (autoReturn : Bool) (site : Span) (frame : Frame) :
    Step σ Value → Step σ Value
  | .done v m => .done (if autoReturn then v else .null) m
  | .exit e m =>
    match e.signal.callResult autoReturn site frame with
    | .ok v => .done v m
    | .error e => .exit (.failed e) m
  | .spent => .spent

def Step.programEnd (program : Span) (frame : Frame) :
    Step σ Value → Option (Except Error Value × Machine σ)
  | .done v m => some (.ok v, m)
  | .exit e m => some (e.signal.programResult program frame, m)
  | .spent => none

namespace Signal

theorem shouldUnwind_eq_false {s : Signal} (h : s.shouldUnwind = false) :
    s.error = none ∧ s.functionReturn = none ∧ s.loopBreak = false ∧ s.loopContinue = false := by
  simpa [shouldUnwind, loopControl, and_assoc] using h

theorem callResult_of_value {s : Signal} (h : s.shouldUnwind = false) (autoReturn : Bool)
    (site : Span) (frame : Frame) : s.callResult autoReturn site frame =
      .ok (if autoReturn then s.value.getD .null else .null) := by
  obtain ⟨error, returned, broke, continued⟩ := shouldUnwind_eq_false h
  cases autoReturn <;> simp [callResult, loopControl, error, returned, broke, continued]

theorem programResult_of_value {s : Signal} (h : s.shouldUnwind = false) (program : Span)
    (frame : Frame) : s.programResult program frame = .ok (s.value.getD .null) := by
  obtain ⟨error, returned, broke, continued⟩ := shouldUnwind_eq_false h
  simp [programResult, loopControl, error, returned, broke, continued]

theorem error_of_callResult {s : Signal} {autoReturn : Bool} {site : Span} {frame : Frame}
    {e : Error} (h : s.callResult autoReturn site frame = .error e) :
    s.error = some e ∨ e = s.stray site frame := by
  unfold callResult at h
  split at h
  · next known => cases h; exact .inl known
  · split at h
    · cases h; exact .inr rfl
    · cases h

theorem error_of_programResult {s : Signal} {program : Span} {frame : Frame} {e : Error}
    (h : s.programResult program frame = .error e) :
    s.error = some e ∨ e = s.stray program frame := by
  unfold programResult at h
  split at h
  · next known => cases h; exact .inl known
  · split at h
    · cases h; exact .inr rfl
    · cases h

end Signal

theorem unwind_signal (p : Eval σ Value) : unwind p.signal = p := by
  funext m
  unfold unwind Eval.signal
  cases p m with
  | done v m' => rfl
  | exit e m' => exact dif_pos e.unwinds
  | spent => rfl

theorem unwind_nested (p : Evaluation σ) : unwind p.nested = Eval.nested (unwind p) := by
  funext m
  unfold unwind Evaluation.nested Eval.nested
  dsimp only
  cases p { m with depth := m.depth + 1 } with
  | none => rfl
  | some ended =>
    obtain ⟨s, m'⟩ := ended
    by_cases h : s.shouldUnwind = true <;> simp [h]

theorem turn_eq (p : Evaluation σ) (m : Machine σ) : turn p m = (unwind p m).turn := by
  unfold turn unwind
  cases p m with
  | none => rfl
  | some ended =>
    obtain ⟨s, m'⟩ := ended
    dsimp only
    by_cases h : s.shouldUnwind = true
    · simp only [h, dif_pos, Step.turn]
    · obtain ⟨-, -, broke, continued⟩ := Signal.shouldUnwind_eq_false (Bool.eq_false_iff.2 h)
      simp [h, broke, continued, Step.turn]

theorem callResult_eq (autoReturn : Bool) (site : Span) (frame : Frame) (p : Evaluation σ)
    (m : Machine σ) :
    callResult autoReturn site frame p m = (unwind p m).callResult autoReturn site frame := by
  unfold callResult unwind
  cases p m with
  | none => rfl
  | some ended =>
    obtain ⟨s, m'⟩ := ended
    dsimp only
    by_cases h : s.shouldUnwind = true
    · simp only [h, dif_pos, Step.callResult]
      rfl
    · simp only [h, Signal.callResult_of_value (Bool.eq_false_iff.2 h)]
      rfl

theorem runSource_eq (self : Evaluator σ) (source : Source) (m : Machine σ) :
    runSource self source m = match source.tree with
      | .error e => some (.error e, m)
      | .ok tree => (unwind (self tree (.root m.frames programName globalScope))
          { m with frames := m.frames + 1 }).programEnd tree.span
            (.root m.frames programName globalScope) := by
  unfold runSource unwind
  cases source.tree with
  | error e => rfl
  | ok tree =>
    dsimp only
    cases self tree _ _ with
    | none => rfl
    | some ended =>
      obtain ⟨s, m'⟩ := ended
      dsimp only
      by_cases h : s.shouldUnwind = true
      · simp only [h, dif_pos, Step.programEnd]
      · simp only [h, Signal.programResult_of_value (Bool.eq_false_iff.2 h)]
        rfl

theorem eval_succ (limit fuel : Nat) (node : Tree) (frame : Frame) :
    (eval limit (fuel + 1) node frame : Eval σ Value) =
      evalNode limit fuel (evaluate limit fuel) node frame :=
  unwind_signal _

end ScriptLang
