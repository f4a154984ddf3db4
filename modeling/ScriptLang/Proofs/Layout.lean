import ScriptLang.Proofs.Layout.Evaluation
import ScriptLang.Proofs.Layout.Grammar
import ScriptLang.Session

/-! Programs whose tokens say the same are the same program. Blanks, comments, the choice of
separators, the spelling of escapes and the name of the text reach error reports and nothing
else. -/
namespace ScriptLang

variable {σ : Type}

/-- Both were read, to the same tree without notes, or both were refused for want of the same. -/
inductive SameReading : Except SyntaxError Tree → Except SyntaxError Tree → Prop where
  | ok {t u : Tree} (trees : t.erase = u.erase) : SameReading (.ok t) (.ok u)
  | error {e f : SyntaxError} (expected : e.expected = f.expected) :
    SameReading (.error e) (.error f)

/-- The same value, or the same error up to where it was found; if `worded`, in the same words. -/
inductive SameOutcome (worded : Prop) : Except Error Value → Except Error Value → Prop where
  | ok {v w : Value} (values : SameValue v w) : SameOutcome worded (.ok v) (.ok w)
  | error {e f : Error} (errors : e.bare false = f.bare false)
    (message : worded → e.diagnostic.message = f.diagnostic.message) :
    SameOutcome worded (.error e) (.error f)

/-- Two runs that cannot be told apart but by places and frames. -/
inductive SameRun (worded : Prop) : Option (Except Error Value × Session σ) →
    Option (Except Error Value × Session σ) → Prop where
  | ended {r q : Except Error Value} {s t : Session σ} (outcome : SameOutcome worded r q)
    (host : s.machine.host = t.machine.host)
    (globals : ∀ name, (s.global? name).map Value.bare = (t.global? name).map Value.bare)
    (scopes : s.machine.store.bare = t.machine.store.bare) :
    SameRun worded (some (r, s)) (some (q, t))
  | spent : SameRun worded none none

/-- An error says nothing of places but in the report of a script. -/
theorem Error.message_eq_of_bare {e f : Error} (h : e.bare true = f.bare true) :
    e.diagnostic.message = f.diagnostic.message := by
  cases e <;> cases f <;> simp only [Error.bare, reduceCtorEq] at h
  case lexical.lexical e f =>
    have fault : e.fault = f.fault := by simpa using h
    simp only [Error.diagnostic, LexError.diagnostic, fault]
    split <;> rfl
  case grammatical.grammatical e f =>
    obtain ⟨expected, trailing⟩ : e.expected = f.expected ∧ e.trailing = f.trailing := by
      simpa using h
    simp only [Error.diagnostic, SyntaxError.diagnostic, expected, trailing]
    split <;> rfl
  case runtime.runtime fault _ _ fault' _ _ =>
    have kept (x : Fault) : x.bare true = x := by cases x <;> rfl
    have same : fault = fault' := by simpa [kept] using h
    rw [same]
    rfl
  case recursion.recursion limit _ _ limit' _ _ =>
    have same : limit = limit' := by simpa using h
    rw [same]
    rfl

theorem readings_same {ts us : List Token} (twin : Token.Twin ts us) :
    SameReading (parse ts) (parse us) := by
  have readings := parse_bare twin
  generalize parse ts = left at readings ⊢
  generalize parse us = right at readings ⊢
  cases left <;> cases right <;> simp only [readingBare, reduceCtorEq] at readings
  case error.error e f => exact .error (Prod.mk.inj (Except.error.inj readings)).1
  case ok.ok t u => exact .ok (Node.erase_eq_of_bare (Except.ok.inj readings))

theorem runSource_same_tokens {keep : Bool} {self : Evaluator σ}
    (hself : Eval.Alike.SelfAlike keep self) {a b : Source} {ts us : List Token}
    (left : scan a = .ok ts) (right : scan b = .ok us) (twin : Token.Twin ts us)
    {m : Machine σ} (offline : keep = true → m.host.Offline) :
    Eval.Alike.SameEnd keep (runSource self a m) (runSource self b m) := by
  have readings := parse_bare twin
  have machines : m.Alike keep m := ⟨rfl, offline⟩
  rw [runSource_eq, runSource_eq]
  simp only [Source.tree, left, right]
  generalize parse ts = read at readings ⊢
  generalize parse us = read' at readings ⊢
  cases read <;> cases read' <;> simp only [readingBare, reduceCtorEq] at readings
  case error.error e f =>
    obtain ⟨expected, trailing⟩ := Prod.mk.inj (Except.error.inj readings)
    exact .ended (.error (by simp only [Error.bare, expected, trailing])) machines
  case ok.ok t u => exact Eval.Alike.runTree hself (Except.ok.inj readings) machines

/-- Two texts whose tokens say the same, whatever their names and wherever the tokens stand, are
both read or both refused, and run alike in every session and on every host. -/
theorem runs_alike_of_same_tokens (fuel : Nat) (s : Session σ) {a b : Source} {ts us : List Token}
    (left : scan a = .ok ts) (right : scan b = .ok us)
    (same : ts.map Token.content = us.map Token.content) :
    SameReading (parse ts) (parse us) ∧
      SameRun s.machine.host.Offline (s.runSource fuel a) (s.runSource fuel b) := by
  have twin : Token.Twin ts us :=
    ⟨same, (ended_of_scan left).ascending, (ended_of_scan right).ascending⟩
  refine ⟨readings_same twin, ?_⟩
  have ends := runSource_same_tokens (Eval.Alike.evaluate false s.config.maxDepth fuel) left right
    twin (m := s.machine) nofun
  have worded (offline : s.machine.host.Offline) :=
    runSource_same_tokens (Eval.Alike.evaluate true s.config.maxDepth fuel) left right twin
      (m := s.machine) fun _ => offline
  unfold Session.runSource
  generalize runSource (evaluate s.config.maxDepth fuel) a s.machine = x at ends worded ⊢
  generalize runSource (evaluate s.config.maxDepth fuel) b s.machine = y at ends worded ⊢
  have globals {m n : Machine σ} (machine : m.Alike false n) (name : String) :
      (m.store.get? globalScope name).map Value.bare =
        (n.store.get? globalScope name).map Value.bare := by
    rw [← Store.get?_bare, ← Store.get?_bare, machine.store]
  cases ends with
  | spent => exact .spent
  | ended ending machine =>
    refine .ended ?_ machine.host (globals machine) machine.store
    cases ending with
    | ok value => exact .ok value
    | error errors =>
      refine .error errors fun offline => ?_
      cases worded offline with
      | ended ending _ => cases ending with | error errors => exact Error.message_eq_of_bare errors

theorem runs_alike_respaced : ∃ ts us,
    scan ⟨"one", "VAR x = 1; PRINT(\"\\q\" + x)  # fails"⟩ = .ok ts ∧
    scan ⟨"two", "VAR x=1\nPRINT( \"q\"+x )"⟩ = .ok us ∧
    ts.map Token.content = us.map Token.content ∧ SameReading (parse ts) (parse us) ∧
    SameRun (Session.start {} (.memory [] [])).machine.host.Offline
      ((Session.start {} (.memory [] [])).runSource 100
        ⟨"one", "VAR x = 1; PRINT(\"\\q\" + x)  # fails"⟩)
      ((Session.start {} (.memory [] [])).runSource 100
        ⟨"two", "VAR x=1\nPRINT( \"q\"+x )"⟩) := by
  obtain ⟨ts, left, contents⟩ : ∃ ts, scan ⟨"one", "VAR x = 1; PRINT(\"\\q\" + x)  # fails"⟩ =
      .ok ts ∧ ts.map Token.content = [.keyword .VAR, .identifier "x", .symbol .assign, .int 1,
        .newline, .identifier "PRINT", .symbol .leftParen, .string "q", .symbol .plus,
        .identifier "x", .symbol .rightParen, .eof] := ⟨_, rfl, rfl⟩
  obtain ⟨us, right, same⟩ : ∃ us, scan ⟨"two", "VAR x=1\nPRINT( \"q\"+x )"⟩ = .ok us ∧
      ts.map Token.content = us.map Token.content := ⟨_, rfl, contents⟩
  exact ⟨ts, us, left, right, same, runs_alike_of_same_tokens 100 _ left right same⟩

end ScriptLang
