import ScriptLang.Proofs.Lockstep
import ScriptLang.Session

/-! Room for more calls and for more steps. No construct of the language goes on behind a failure,
and what a script fails with is a failure of the call that runs it. So a program that comes to a
value was never refused a call on the way, and comes to the same value on the same machine where
more calls may be active, or more steps be taken. -/
namespace ScriptLang

variable {σ : Type}

/-- The evaluation failed, or ran out of steps. -/
inductive Step.GaveUp {α : Type} : Step σ α → Prop where
  | failed (e : Error) (m : Machine σ) : GaveUp (.exit (.failed e) m)
  | spent : GaveUp .spent

/-- Wherever `p` does not give up, `q` does the same. -/
def Eval.Le {α : Type} (p q : Eval σ α) : Prop := ∀ m, (p m).GaveUp ∨ p m = q m

namespace Eval.Le

variable {α β : Type}

theorem refl (p : Eval σ α) : p.Le p := fun _ => .inr rfl

theorem spent (q : Eval σ α) : Eval.spent.Le q := fun _ => .inl .spent

theorem bind {p q : Eval σ α} {f g : α → Eval σ β} (hp : p.Le q) (hf : ∀ a, (f a).Le (g a)) :
    (p >>= f).Le (q >>= g) := by
  intro m
  change (Eval.bind p f m).GaveUp ∨ Eval.bind p f m = Eval.bind q g m
  unfold Eval.bind
  rcases hp m with gaveUp | same
  · left
    generalize p m = x at gaveUp
    cases gaveUp with
    | failed e m' => exact .failed e m'
    | spent => exact .spent
  · rw [← same]
    cases p m with
    | done a m' => exact hf a m'
    | exit e m' => exact .inr rfl
    | spent => exact .inl .spent

theorem rest (p : Eval σ α) {f g : α → Eval σ β} (hf : ∀ a, (f a).Le (g a)) :
    (p >>= f).Le (p >>= g) :=
  (refl p).bind hf

theorem turn {p q : Evaluation σ} (h : (unwind p).Le (unwind q)) :
    (ScriptLang.turn p).Le (ScriptLang.turn q) := by
  intro m
  rw [turn_eq, turn_eq]
  rcases h m with gaveUp | same
  · left
    generalize unwind p m = x at gaveUp
    cases gaveUp with
    | failed e m' => exact .failed e m'
    | spent => exact .spent
  · right
    rw [same]

theorem callResult {p q : Evaluation σ} (h : (unwind p).Le (unwind q)) (autoReturn : Bool)
    (site : Span) (frame : Frame) : (ScriptLang.callResult autoReturn site frame p).Le
      (ScriptLang.callResult autoReturn site frame q) := by
  intro m
  rw [callResult_eq, callResult_eq]
  rcases h m with gaveUp | same
  · left
    generalize unwind p m = x at gaveUp
    cases gaveUp with
    | failed e m' => exact .failed e m'
    | spent => exact .spent
  · right
    rw [same]

theorem nested {p q : Eval σ α} (h : p.Le q) : (Eval.nested p).Le (Eval.nested q) := by
  intro m
  unfold Eval.nested
  rcases h { m with depth := m.depth + 1 } with gaveUp | same
  · left
    generalize p _ = x at gaveUp
    cases gaveUp with
    | failed e m' => exact .failed e _
    | spent => exact .spent
  · right
    rw [same]

theorem checkCall {limit limit' : Nat} (le : limit ≤ limit') (callee : Value) (params args : Nat)
    (site : Span) (frame : Frame) :
    (ScriptLang.checkCall limit callee params args site frame : Eval σ Unit).Le
      (ScriptLang.checkCall limit' callee params args site frame) := by
  intro m
  unfold ScriptLang.checkCall
  by_cases full : limit ≤ m.depth
  · rw [if_pos full]
    exact .inl (.failed _ m)
  · have room : ¬ limit' ≤ m.depth := by omega
    rw [if_neg full, if_neg room]
    exact .inr rfl

theorem lawful : Lockstep.Lawful (fun _ => Eval.Le : Lockstep σ σ) (fun _ => Eval.Le) where
  spent := spent _
  pure _ := refl _
  leave _ := refl _
  bind := bind
  turn := turn
  callResult := callResult
  nested := nested
  lookup _ _ := refl _
  assign _ _ _ := refl _
  callFrame _ _ _ _ := refl _
  plainFrame _ _ _ := refl _

section Scripts

variable {self self' : Evaluator σ}

abbrev SelfLe (self self' : Evaluator σ) : Prop :=
  ∀ node frame, (unwind (self node frame)).Le (unwind (self' node frame))

theorem runSource (hself : SelfLe self self') (source : Source) (m : Machine σ) :
    (∀ v m', ScriptLang.runSource self source m ≠ some (.ok v, m')) ∨
      ScriptLang.runSource self source m = ScriptLang.runSource self' source m := by
  rw [runSource_eq, runSource_eq]
  cases source.tree with
  | error e => exact .inr rfl
  | ok tree =>
    let frame := Frame.root m.frames programName globalScope
    rcases hself tree frame { m with frames := m.frames + 1 } with gaveUp | same
    · left
      change ∀ v m', (unwind (self tree frame) { m with frames := m.frames + 1 }).programEnd _ _ ≠ _
      generalize unwind (self tree frame) _ = x at gaveUp
      cases gaveUp with
      | failed e m' => nofun
      | spent => nofun
    · right
      dsimp only
      rw [same]

theorem runScript (hself : SelfLe self self') (path : String) (site : Span) (frame : Frame) :
    (ScriptLang.runScript self path site frame).Le
      (ScriptLang.runScript self' path site frame) := by
  apply rest
  intro text m
  rcases runSource hself ⟨path, text⟩ m with error | same
  · left
    dsimp only
    split
    · next ran => exact absurd ran (error _ _)
    · exact .failed _ _
    · exact .spent
  · right
    dsimp only
    rw [same]

theorem askInteger {fuel fuel' : Nat} (more : fuel ≤ fuel') (site : Span) (frame : Frame) :
    (onHost (Host.askInteger fuel) site frame : Eval σ Int64).Le
      (onHost (Host.askInteger fuel') site frame) := by
  intro m
  unfold onHost
  rcases Host.askInteger_of_le more m.host with out | same
  · rw [out]
    exact .inl .spent
  · rw [same]
    exact .inr rfl

theorem execute (hself : SelfLe self self') {fuel fuel' : Nat} (more : fuel ≤ fuel') (b : Builtin)
    (args : List Value) (site : Span) (frame : Frame) :
    (ScriptLang.execute fuel self b args site frame).Le
      (ScriptLang.execute fuel' self' b args site frame) := by
  by_cases run : ∃ path t, b = .run ∧ args = [.string path t]
  · obtain ⟨path, t, rfl, rfl⟩ := run
    exact (runScript hself path site frame).bind fun _ => refl _
  · rw [execute_eq run fuel self self']
    by_cases asks : b = .inputInt
    · subst asks
      exact (askInteger more site frame).bind fun _ => refl _
    · rw [execute_turns asks fuel fuel']
      exact refl _

end Scripts

theorem evaluate {limit limit' fuel fuel' : Nat} (le : limit ≤ limit') (more : fuel ≤ fuel') :
    SelfLe (ScriptLang.evaluate limit fuel) (ScriptLang.evaluate limit' fuel' : Evaluator σ) := by
  have calls : Lockstep.Calls (fun _ => Eval.Le : Lockstep σ σ) limit limit' .usual .usual :=
    { checkCall := checkCall le
      execute := fun hself _ _ turns => execute hself (turns.elim Nat.le_of_eq And.left)
      back := fun _ _ _ _ => refl _ }
  exact calls.evaluate lawful (.inr ⟨more, fun _ q => spent q⟩)

end Eval.Le

def Session.withLimit (s : Session σ) (limit : Nat) : Session σ :=
  { s with config := { s.config with maxDepth := limit } }

/-- A text that a session runs to a value it runs to the same value under any higher limit: all
that the run leaves behind, the scopes with what they bind, what was read from the host and what
was written to it, is the same. More steps make no difference either. -/
theorem run_under_higher_limit (s : Session σ) {fuel fuel' limit : Nat} (more : fuel ≤ fuel')
    (higher : s.config.maxDepth ≤ limit) {text : String} {v : Value} {s' : Session σ}
    (ran : s.run fuel text = some (.ok v, s')) :
    (s.withLimit limit).run fuel' text = some (.ok v, s'.withLimit limit) := by
  obtain ⟨⟨result, m⟩, ended, eq⟩ := Option.map_eq_some_iff.1 ran
  cases eq
  have same := (Eval.Le.runSource (Eval.Le.evaluate higher more) _ s.machine).resolve_left
    fun error => error v m ended
  unfold Session.run Session.runSource
  rw [ended] at same
  change (ScriptLang.runSource (evaluate limit fuel') ⟨s.config.sourceName, text⟩
    s.machine).map _ = _
  rw [← same]
  rfl

/-- A function that calls itself as deep as three calls may go, and a script that reads a line. -/
theorem run_under_higher_limit_countdown : ∃ (s : Session Memory) (v : Value) (s' : Session Memory),
    s = .start { maxDepth := 3 } (.memory ["line"] [("ask", "VAR x = INPUT(); PRINT(x)")]) ∧
    s.run 40 "FUN f(n) -> IF n THEN f(n - 1) ELSE n\nf(2); RUN(\"ask\")" = some (.ok v, s') ∧
    (s.withLimit 1000).run 60 "FUN f(n) -> IF n THEN f(n - 1) ELSE n\nf(2); RUN(\"ask\")" =
      some (.ok v, s'.withLimit 1000) := by
  have succeeds : ((Session.start { maxDepth := 3 }
      (.memory ["line"] [("ask", "VAR x = INPUT(); PRINT(x)")])).run 40
        "FUN f(n) -> IF n THEN f(n - 1) ELSE n\nf(2); RUN(\"ask\")").any (·.1.isOk) = true := by
    decide +kernel
  obtain ⟨⟨result, s'⟩, ran, ok⟩ := (Option.any_eq_true _ _).1 succeeds
  cases result with
  | error e => cases ok
  | ok v =>
    exact ⟨_, v, s', rfl, ran, run_under_higher_limit _ (by decide) (by decide) ran⟩

end ScriptLang
