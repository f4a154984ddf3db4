import ScriptLang.Proofs.Asking
import ScriptLang.Proofs.PutBack

/-! Two evaluators of the same trees in the same frames. What relates them on the parts of a tree
relates them on the tree, if it goes through the operations that the rules of evaluation are made
of. The rules are gone through once here; what is left to a relation is the beginning of calls,
what scripts and the host do, and writing back. -/
namespace ScriptLang

variable {σ τ : Type}

abbrev Lockstep (σ τ : Type) : Type 1 := (α : Type) → Eval σ α → Eval τ α → Prop

/-- Only `RUN` evaluates trees. -/
theorem execute_eq {b : Builtin} {args : List Value}
    (other : ¬ ∃ path t, b = .run ∧ args = [.string path t])
    (fuel : Nat) (self self' : Evaluator σ) (site : Span) (frame : Frame) :
    execute fuel self b args site frame = execute fuel self' b args site frame := by
  unfold execute
  split
  case h_15 => exact absurd ⟨_, _, rfl, rfl⟩ other
  all_goals rfl

/-- Only `INPUT_INT` takes turns. -/
theorem execute_turns {b : Builtin} (other : b ≠ .inputInt) (fuel fuel' : Nat)
    (self : Evaluator σ) (args : List Value) (site : Span) (frame : Frame) :
    execute fuel self b args site frame = execute fuel' self b args site frame := by
  unfold execute
  split
  case h_4 => exact absurd rfl other
  all_goals rfl

namespace Lockstep

abbrev Joins (R : Lockstep σ τ) (self : Evaluator σ) (self' : Evaluator τ) : Prop :=
  ∀ node frame, R Value (unwind (self node frame)) (unwind (self' node frame))

/-- So many turns on the left go with so many on the right: with as many, or with no fewer where
running out of them on the left goes with everything. -/
def Turns (R : Lockstep σ τ) (n n' : Nat) : Prop :=
  n = n' ∨ n ≤ n' ∧ ∀ (α : Type) (q : Eval τ α), R α Eval.spent q

/-- `R` goes through the operations that rules are made of. A body, one call deeper, may be
related in another way. -/
structure Lawful (inner R : Lockstep σ τ) : Prop where
  spent {α : Type} : R α Eval.spent Eval.spent
  pure {α : Type} (a : α) : R α (Pure.pure a) (Pure.pure a)
  leave {α : Type} (x : Exit) : R α (Eval.leave x) (Eval.leave x)
  bind {α β : Type} {p : Eval σ α} {q : Eval τ α} {f : α → Eval σ β} {g : α → Eval τ β}
    (first : R α p q) (rest : ∀ a, R β (f a) (g a)) : R β (p >>= f) (q >>= g)
  turn {p : Evaluation σ} {q : Evaluation τ} (h : R Value (unwind p) (unwind q)) :
    R Turn (ScriptLang.turn p) (ScriptLang.turn q)
  callResult {p : Evaluation σ} {q : Evaluation τ} (h : R Value (unwind p) (unwind q))
    (autoReturn : Bool) (site : Span) (frame : Frame) :
    R Value (ScriptLang.callResult autoReturn site frame p)
      (ScriptLang.callResult autoReturn site frame q)
  nested {α : Type} {p : Eval σ α} {q : Eval τ α} (h : inner α p q) :
    R α (Eval.nested p) (Eval.nested q)
  lookup (frame : Frame) (name : String) :
    R (Option Value) (Eval.lookup frame name) (Eval.lookup frame name)
  assign (frame : Frame) (name : String) (v : Value) :
    R Unit (Eval.assign frame name v) (Eval.assign frame name v)
  callFrame (name : String) (outer : Nat) (site : Span) (caller : Frame) :
    R Frame (Eval.callFrame name outer site caller) (Eval.callFrame name outer site caller)
  plainFrame (name : String) (site : Span) (caller : Frame) :
    R Frame (Eval.plainFrame name site caller) (Eval.plainFrame name site caller)

variable {inner R : Lockstep σ τ} {self : Evaluator σ} {self' : Evaluator τ}
variable {limit limit' fuel fuel' : Nat}

namespace Turns

theorem refl (n : Nat) : R.Turns n n := .inl rfl

theorem zero {α : Type} (h : R.Turns 0 fuel') (law : Lawful inner R) {p : Nat → Eval τ α}
    (out : p 0 = Eval.spent) : R α Eval.spent (p fuel') := by
  rcases h with rfl | ⟨-, below⟩
  · rw [out]
    exact law.spent
  · exact below α _

theorem succ (h : R.Turns (fuel + 1) fuel') : ∃ n, fuel' = n + 1 ∧ R.Turns fuel n := by
  rcases h with rfl | ⟨more, below⟩
  · exact ⟨fuel, rfl, refl fuel⟩
  · obtain ⟨n, rfl⟩ := Nat.exists_eq_add_one_of_ne_zero (Nat.ne_zero_of_lt more)
    exact ⟨n, rfl, .inr ⟨by omega, below⟩⟩

end Turns

namespace Lawful

theorem fail (law : Lawful inner R) {α : Type} (fault : Fault) (span : Span) (frame : Frame) :
    R α (Eval.fail fault span frame) (Eval.fail fault span frame) :=
  law.leave _

theorem lift (law : Lawful inner R) (result : Except OperationError Value) (span : Span)
    (frame : Frame) : R Value (Eval.lift result span frame) (Eval.lift result span frame) := by
  cases result with
  | ok v => exact law.pure _
  | error e => exact law.fail _ _ _

theorem orFail (law : Lawful inner R) {α : Type} (result : Except Fault α) (site : Span)
    (frame : Frame) :
    R α (ScriptLang.orFail result site frame) (ScriptLang.orFail result site frame) := by
  cases result with
  | ok a => exact law.pure a
  | error fault => exact law.fail _ _ _

/-- One case for every built-in function, where there is nothing to say of hosts but that one of
them answers as the other; what there is to say of scripts is given. -/
theorem execute (law : Lawful inner R) {ι : Type} {φ : ι → Host τ → Host σ}
    (carries : ∀ i, Host.Carries (φ i)) {site : Span} {frame : Frame}
    (asks : ∀ {α : Type} {ask : Host.Ask σ α} {ask' : Host.Ask τ α},
      (∀ i, Host.Ask.Same (φ i) ask' ask) → R α (onHost ask site frame) (onHost ask' site frame))
    (run : ∀ path, R Value (runScript self path site frame) (runScript self' path site frame))
    (fuel : Nat) (b : Builtin) (args : List Value) :
    R (Value × Option Value) (ScriptLang.execute fuel self b args site frame)
      (ScriptLang.execute fuel self' b args site frame) := by
  unfold ScriptLang.execute
  split
  case h_1 => exact law.bind (asks fun i => (carries i).print _) fun _ => law.pure _
  case h_3 => exact law.bind (asks fun i => (carries i).ask) fun _ => law.pure _
  case h_4 => exact law.bind (asks fun i => (carries i).askInteger fuel) fun _ => law.pure _
  case h_5 => exact law.bind (asks fun i => (carries i).wipe) fun _ => law.pure _
  case h_10 => exact law.bind (law.orFail _ _ _) fun _ => law.pure _
  case h_11 => exact law.bind (law.orFail _ _ _) fun _ => law.pure _
  case h_12 => exact law.bind (law.orFail _ _ _) fun _ => law.pure _
  case h_14 => exact law.fail _ _ _
  case h_15 path _ => exact law.bind (run path) fun _ => law.pure _
  case h_16 => exact law.fail _ _ _
  all_goals exact law.pure _

theorem bindParams (law : Lawful inner R) (frame : Frame) (names : List String)
    (values : List Value) : R Unit (ScriptLang.bindParams frame names values)
      (ScriptLang.bindParams frame names values) := by
  induction names generalizing values with
  | nil => exact law.pure ()
  | cons name names ih =>
    cases values with
    | nil => exact law.pure ()
    | cons v values => exact law.bind (law.assign frame name _) fun _ => ih values

theorem evalAll (law : Lawful inner R) (hself : R.Joins self self') (frame : Frame)
    (nodes : List Tree) : R (List Value) (ScriptLang.evalAll self frame nodes)
      (ScriptLang.evalAll self' frame nodes) := by
  induction nodes with
  | nil => exact law.pure []
  | cons node nodes ih =>
    apply law.bind (hself node frame)
    intro v
    exact law.bind ih fun _ => law.pure _

theorem evalArms (law : Lawful inner R) (hself : R.Joins self self')
    (last : Option (Otherwise Tree)) (span : Span) (frame : Frame) (arms : List (Arm Tree)) :
    R Value (ScriptLang.evalArms self last span frame arms)
      (ScriptLang.evalArms self' last span frame arms) := by
  induction arms with
  | nil =>
    cases last with
    | none => exact law.pure _
    | some last => exact law.bind (hself last.body frame) fun _ => law.pure _
  | cons arm arms ih =>
    apply law.bind (hself arm.condition frame)
    intro c
    split
    · exact law.bind (hself arm.body frame) fun _ => law.pure _
    · exact ih

theorem evalBound (law : Lawful inner R) (hself : R.Joins self self') (node : Tree)
    (frame : Frame) : R Number (ScriptLang.evalBound self node frame)
      (ScriptLang.evalBound self' node frame) := by
  apply law.bind (hself node frame)
  intro v
  split
  · exact law.pure _
  · exact law.fail _ _ _

theorem evalStep (law : Lawful inner R) (hself : R.Joins self self') (frame : Frame)
    (step : Option Tree) : R Number (ScriptLang.evalStep self frame step)
      (ScriptLang.evalStep self' frame step) := by
  cases step with
  | none => exact law.pure _
  | some node =>
    apply law.bind (law.evalBound hself node frame)
    intro n
    split
    · exact law.fail _ _ _
    · exact law.pure _

theorem forTurns (law : Lawful inner R) (hself : R.Joins self self') (turns : R.Turns fuel fuel')
    (name : String) (last step : Number) (body : Tree) (frame : Frame) (current : Number)
    (values : List Value) :
    R (List Value) (ScriptLang.forTurns self name last step body frame fuel current values)
      (ScriptLang.forTurns self' name last step body frame fuel' current values) := by
  induction fuel generalizing fuel' current values with
  | zero =>
    exact turns.zero law (p := (ScriptLang.forTurns self' name last step body frame · current
      values)) rfl
  | succ fuel ih =>
    obtain ⟨fuel', rfl, fewer⟩ := turns.succ
    unfold ScriptLang.forTurns
    split
    · apply law.bind (law.assign frame name _)
      intro _
      apply law.bind (law.turn (hself body frame))
      intro t
      cases t with
      | value v => exact ih fewer _ _
      | skip => exact ih fewer _ _
      | stop => exact law.pure _
    · exact law.pure _

theorem whileTurns (law : Lawful inner R) (hself : R.Joins self self')
    (turns : R.Turns fuel fuel') (condition body : Tree) (frame : Frame) (values : List Value) :
    R (List Value) (ScriptLang.whileTurns self condition body frame fuel values)
      (ScriptLang.whileTurns self' condition body frame fuel' values) := by
  induction fuel generalizing fuel' values with
  | zero =>
    exact turns.zero law (p := (ScriptLang.whileTurns self' condition body frame · values)) rfl
  | succ fuel ih =>
    obtain ⟨fuel', rfl, fewer⟩ := turns.succ
    apply law.bind (hself condition frame)
    intro c
    split
    · apply law.bind (law.turn (hself body frame))
      intro t
      cases t with
      | value v => exact ih fewer _
      | skip => exact ih fewer _
      | stop => exact law.pure _
    · exact law.pure _

theorem evalFor (law : Lawful inner R) (hself : R.Joins self self') (turns : R.Turns fuel fuel')
    (name : String) (first last : Tree) (step : Option Tree) (body : Tree) (suppress : Bool)
    (span : Span) (frame : Frame) :
    R Value (ScriptLang.evalFor fuel self name first last step body suppress span frame)
      (ScriptLang.evalFor fuel' self' name first last step body suppress span frame) := by
  apply law.bind (law.evalBound hself first frame)
  intro start
  apply law.bind (law.evalBound hself last frame)
  intro stop
  apply law.bind (law.evalStep hself frame step)
  intro increment
  exact law.bind (law.forTurns hself turns name stop increment body frame start [])
    fun _ => law.pure _

theorem evalFunction (law : Lawful inner R) (name : Option String) (params : List String)
    (body : Tree) (autoReturn : Bool) (mark : Mark) (frame : Frame) :
    R Value (ScriptLang.evalFunction name params body autoReturn mark frame)
      (ScriptLang.evalFunction name params body autoReturn mark frame) := by
  cases name with
  | none => exact law.bind (law.pure ()) fun _ => law.pure _
  | some name => exact law.bind (law.assign frame name _) fun _ => law.pure _

theorem evalNode (law : Lawful inner R) (hself : R.Joins self self') (turns : R.Turns fuel fuel')
    (node : Tree) (frame : Frame)
    (calls : ∀ callee args mark, node = .call callee args mark →
      R Value (ScriptLang.evalCall limit fuel self callee args mark.span frame)
        (ScriptLang.evalCall limit' fuel' self' callee args mark.span frame)) :
    R Value (ScriptLang.evalNode limit fuel self node frame)
      (ScriptLang.evalNode limit' fuel' self' node frame) := by
  cases node with
  | number n mark => exact law.pure _
  | string s mark => exact law.pure _
  | list elements mark => exact law.bind (law.evalAll hself frame elements) fun _ => law.pure _
  | access name mark =>
    apply law.bind (law.lookup frame name)
    intro found
    cases found with
    | none => exact law.fail _ _ _
    | some v => exact law.pure _
  | assign name value mark =>
    apply law.bind (hself value frame)
    intro v
    exact law.bind (law.assign frame name v) fun _ => law.pure v
  | unary op operand mark => exact law.bind (hself operand frame) fun _ => law.lift _ _ _
  | binary op left right mark =>
    apply law.bind (hself left frame)
    intro a
    exact law.bind (hself right frame) fun _ => law.lift _ _ _
  | cond arms last mark => exact law.evalArms hself last mark.span frame arms
  | forLoop name first last step body suppress mark =>
    exact law.evalFor hself turns name first last step body suppress mark.span frame
  | whileLoop condition body suppress mark =>
    exact law.bind (law.whileTurns hself turns condition body frame []) fun _ => law.pure _
  | breaks mark => exact law.leave _
  | continues mark => exact law.leave _
  | returns value mark =>
    cases value with
    | none => exact law.leave _
    | some value => exact law.bind (hself value frame) fun _ => law.leave _
  | function name params body autoReturn mark =>
    exact law.evalFunction name params body autoReturn mark frame
  | call callee args mark => exact calls callee args mark rfl
  | block statements mark => exact law.bind (law.evalAll hself frame statements) fun _ => law.pure _

theorem callBody (law : Lawful inner R) {p : Frame → Evaluation σ} {q : Frame → Evaluation τ}
    (h : ∀ frame, inner Value (unwind (p frame)) (unwind (q frame))) (f : Function)
    (args : List Value) (site : Span) (caller : Frame) :
    R Value
      (do
        let frame ← Eval.callFrame f.displayName f.closure.scope site caller
        ScriptLang.bindParams frame f.params args
        ScriptLang.callResult f.autoReturn site frame (p frame).nested)
      (do
        let frame ← Eval.callFrame f.displayName f.closure.scope site caller
        ScriptLang.bindParams frame f.params args
        ScriptLang.callResult f.autoReturn site frame (q frame).nested) := by
  apply law.bind (law.callFrame f.displayName f.closure.scope site caller)
  intro frame
  apply law.bind (law.bindParams frame f.params args)
  intro _
  apply law.callResult
  rw [unwind_nested, unwind_nested]
  exact law.nested (h frame)

theorem builtinBody (law : Lawful inner R) {p : Frame → Eval σ (Value × Option Value)}
    {q : Frame → Eval τ (Value × Option Value)} {back : String → Value → Eval σ Unit}
    {back' : String → Value → Eval τ Unit}
    (h : ∀ frame, inner (Value × Option Value) (p frame) (q frame))
    (backs : ∀ name v, R Unit (back name v) (back' name v)) (b : Builtin) (nodes : List Tree)
    (site : Span) (caller : Frame) :
    R Value
      (do
        let frame ← Eval.plainFrame b.name site caller
        let (result, changed) ← Eval.nested (p frame)
        match changed, target? nodes with
        | some v, some name => back name v
        | _, _ => Pure.pure ()
        return result)
      (do
        let frame ← Eval.plainFrame b.name site caller
        let (result, changed) ← Eval.nested (q frame)
        match changed, target? nodes with
        | some v, some name => back' name v
        | _, _ => Pure.pure ()
        return result) := by
  apply law.bind (law.plainFrame b.name site caller)
  intro frame
  apply law.bind (law.nested (h frame))
  rintro ⟨result, changed⟩
  cases changed with
  | none => exact law.bind (law.pure ()) fun _ => law.pure result
  | some v =>
    cases target? nodes with
    | none => exact law.bind (law.pure ()) fun _ => law.pure result
    | some name => exact law.bind (backs name v) fun _ => law.pure result

end Lawful

/-- What is left to a relation: how calls begin under two limits, what is done outside, and two
ways of writing back. -/
structure Calls (R : Lockstep σ τ) (limit limit' : Nat) (putBack : PutBack σ)
    (putBack' : PutBack τ) : Prop where
  checkCall (callee : Value) (params args : Nat) (site : Span) (frame : Frame) :
    R Unit (ScriptLang.checkCall limit callee params args site frame)
      (ScriptLang.checkCall limit' callee params args site frame)
  execute {self : Evaluator σ} {self' : Evaluator τ} (hself : R.Joins self self')
    {fuel fuel' : Nat} (turns : R.Turns fuel fuel') (b : Builtin) (args : List Value)
    (site : Span) (frame : Frame) :
    R (Value × Option Value) (ScriptLang.execute fuel self b args site frame)
      (ScriptLang.execute fuel' self' b args site frame)
  back (b : Builtin) (frame : Frame) (name : String) (v : Value) :
    R Unit (putBack b frame name v) (putBack' b frame name v)

namespace Calls

variable {putBack : PutBack σ} {putBack' : PutBack τ}

theorem callFunction (calls : R.Calls limit limit' putBack putBack') (law : Lawful R R)
    (hself : R.Joins self self') (f : Function) (callee : Value) (args : List Value)
    (site : Span) (caller : Frame) :
    R Value (ScriptLang.callFunction limit self f callee args site caller)
      (ScriptLang.callFunction limit' self' f callee args site caller) :=
  law.bind (calls.checkCall callee f.params.length args.length site caller) fun _ =>
    law.callBody (fun frame => hself f.body frame) f args site caller

theorem callBuiltinWith (calls : R.Calls limit limit' putBack putBack') (law : Lawful R R)
    (hself : R.Joins self self') (turns : R.Turns fuel fuel') (b : Builtin) (callee : Value)
    (args : List Value) (nodes : List Tree) (site : Span) (caller : Frame) :
    R Value (ScriptLang.callBuiltinWith putBack limit fuel self b callee args nodes site caller)
      (ScriptLang.callBuiltinWith putBack' limit' fuel' self' b callee args nodes site caller) :=
  law.bind (calls.checkCall callee b.params.length args.length site caller) fun _ =>
    law.builtinBody (calls.execute hself turns b args site) (calls.back b caller) b nodes site
      caller

theorem evalCallWith (calls : R.Calls limit limit' putBack putBack') (law : Lawful R R)
    (hself : R.Joins self self') (turns : R.Turns fuel fuel') (callee : Tree) (args : List Tree)
    (span : Span) (frame : Frame) :
    R Value (ScriptLang.evalCallWith putBack limit fuel self callee args span frame)
      (ScriptLang.evalCallWith putBack' limit' fuel' self' callee args span frame) := by
  apply law.bind (hself callee frame)
  intro c
  apply law.bind (law.evalAll hself frame args)
  intro values
  generalize c.place span frame = called
  cases called with
  | function g t =>
    exact law.bind (calls.callFunction law hself g _ values span frame) fun _ => law.pure _
  | builtin b t =>
    exact law.bind (calls.callBuiltinWith law hself turns b _ values args span frame)
      fun _ => law.pure _
  | number n t => exact law.fail _ _ _
  | string s t => exact law.fail _ _ _
  | list vs t => exact law.fail _ _ _

theorem evalNodeWith (calls : R.Calls limit limit' putBack putBack') (law : Lawful R R)
    (hself : R.Joins self self') (turns : R.Turns fuel fuel') (node : Tree) (frame : Frame) :
    R Value (ScriptLang.evalNodeWith putBack limit fuel self node frame)
      (ScriptLang.evalNodeWith putBack' limit' fuel' self' node frame) := by
  have same (other : ∀ callee args mark, node ≠ .call callee args mark) :
      R Value (ScriptLang.evalNode limit fuel self node frame)
        (ScriptLang.evalNode limit' fuel' self' node frame) :=
    law.evalNode hself turns node frame fun callee args mark eq =>
      absurd eq (other callee args mark)
  cases node with
  | call callee args mark => exact calls.evalCallWith law hself turns callee args mark.span frame
  | _ => exact same nofun

theorem evaluateWith (calls : R.Calls limit limit' putBack putBack') (law : Lawful R R)
    (turns : R.Turns fuel fuel') : R.Joins (ScriptLang.evaluateWith putBack limit fuel)
      (ScriptLang.evaluateWith putBack' limit' fuel') := by
  induction fuel generalizing fuel' with
  | zero =>
    intro node frame
    exact turns.zero law
      (p := fun fuel => unwind (ScriptLang.evaluateWith putBack' limit' fuel node frame)) rfl
  | succ fuel ih =>
    obtain ⟨fuel', rfl, fewer⟩ := turns.succ
    intro node frame
    unfold ScriptLang.evaluateWith
    rw [unwind_signal, unwind_signal]
    exact calls.evalNodeWith law (ih fewer) fewer node frame

theorem evaluate (calls : R.Calls limit limit' .usual .usual) (law : Lawful R R)
    (turns : R.Turns fuel fuel') :
    R.Joins (ScriptLang.evaluate limit fuel) (ScriptLang.evaluate limit' fuel') := by
  rw [← evaluateWith_usual, ← evaluateWith_usual]
  exact calls.evaluateWith law turns

end Calls

end Lockstep

end ScriptLang
