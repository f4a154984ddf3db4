import ScriptLang.Proofs.Asking
import ScriptLang.Proofs.PutBack

/-! What evaluation may do to a machine, said once for every construct of the language. An effect
is a relation between the machine before and after, which may depend on the scope of the frame
that is being run. `Effect.Local` lists the single changes that a run is made of, but for writing
back, which reaches beyond that scope; an effect that allows each of them, and what is done to
write back, holds between the two ends of every run. -/
namespace ScriptLang

variable {σ : Type}

/-- `P` holds of the machine that a step leaves behind, if there is one. -/
def Step.Leaves {α : Type} (P : Machine σ → Prop) : Step σ α → Prop
  | .done _ m => P m
  | .exit _ m => P m
  | .spent => True

theorem Step.Leaves.mono {α : Type} {P Q : Machine σ → Prop} {s : Step σ α} (h : s.Leaves P)
    (imp : ∀ m, P m → Q m) : s.Leaves Q := by
  cases s with
  | done a m => exact imp m h
  | exit e m => exact imp m h
  | spent => trivial

theorem Eval.bind_eq_done {α β : Type} {p : Eval σ α} {f : α → Eval σ β} {m m' : Machine σ}
    {b : β} :
    (p >>= f) m = .done b m' ↔ ∃ a m₁, p m = .done a m₁ ∧ f a m₁ = .done b m' := by
  change Eval.bind p f m = .done b m' ↔ _
  unfold Eval.bind
  cases p m with
  | done a m₁ => exact ⟨fun h => ⟨a, m₁, rfl, h⟩, by rintro ⟨_, _, ⟨⟩, h⟩; exact h⟩
  | exit e m₁ => simp
  | spent => simp

theorem Eval.pure_eq_done {α : Type} {a b : α} {m m' : Machine σ} :
    (pure a : Eval σ α) m = .done b m' ↔ a = b ∧ m = m' := by
  change Step.done a m = .done b m' ↔ _
  simp

theorem Eval.fail_ne_done {α : Type} {fault : Fault} {span : Span} {frame : Frame} {a : α}
    {m m' : Machine σ} : (fail fault span frame : Eval σ α) m ≠ .done a m' :=
  fun h => by cases h

namespace Value

theorem list_of_append {first element w : Value} (h : first.append element = .ok w) :
    ∃ vs t, w = .list vs t := by
  unfold Value.append at h
  split at h
  · cases h; exact ⟨_, _, rfl⟩
  · cases h

theorem list_of_extend {first second w : Value} (h : first.extend second = .ok w) :
    ∃ vs t, w = .list vs t := by
  unfold Value.extend at h
  split at h
  · cases h
  · cases h; exact ⟨_, _, rfl⟩
  · cases h

theorem list_of_pop {first second taken rest : Value}
    (h : first.pop second = .ok (taken, rest)) : ∃ vs t, rest = .list vs t := by
  unfold Value.pop at h
  split at h
  · cases h
  · split at h
    · cases h
    · split at h
      · cases h
      · cases h; exact ⟨_, _, rfl⟩
  · cases h

end Value

/-- What a run may do to a machine, by the scope of its frame. -/
abbrev Effect (σ : Type) := Nat → Machine σ → Machine σ → Prop

/-- An effect that allows the single changes a run is made of, and what a run is made of them. -/
structure Effect.Local (G : Effect σ) : Prop where
  refl : ∀ own m, G own m m
  trans : ∀ {own m₁ m₂ m₃}, G own m₁ m₂ → G own m₂ m₃ → G own m₁ m₃
  assign : ∀ (frame : Frame) name v m,
    G frame.scope m { m with store := m.store.set frame.scope name v }
  host : ∀ own m h, m.host.Asks h → G own m { m with host := h }
  frame : ∀ own m, G own m { m with frames := m.frames + 1 }
  /-- A function body has the next scope as its own. -/
  call : ∀ own outer m m', G m.store.size
    { m with store := m.store.push (some outer), frames := m.frames + 1 } m' → G own m m'
  nested : ∀ own m m', G own { m with depth := m.depth + 1 } m' →
    G own m { m' with depth := m'.depth - 1 }
  /-- A script has the global scope as its own. -/
  run : ∀ own path m m', G globalScope { m with host := (m.host.load path).2 } m' → G own m m'

def Eval.Within {α : Type} (R : Machine σ → Machine σ → Prop) (p : Eval σ α) : Prop :=
  ∀ m, (p m).Leaves (R m)

def Effect.Bounds (G : Effect σ) (self : Evaluator σ) : Prop :=
  ∀ node frame, (unwind (self node frame)).Within (G frame.scope)

/-- Only lists are written back, and only by functions that change one. -/
def Effect.AllowsBack (G : Effect σ) (putBack : PutBack σ) : Prop :=
  ∀ (b : Builtin) (frame : Frame) name vs t, b.mutates = true →
    (putBack b frame name (.list vs t)).Within (G frame.scope)

namespace Eval.Within

variable {R : Machine σ → Machine σ → Prop}

/-- Catching signals changes how a step ends and not what it leaves behind. -/
theorem turn {p : Evaluation σ} (hp : (unwind p).Within R) : (turn p).Within R := by
  intro m
  have first := hp m
  rw [turn_eq]
  cases eq : unwind p m with
  | done v m' => rwa [eq] at first
  | spent => trivial
  | exit e m' =>
    rw [eq] at first
    dsimp only [Step.turn]
    split
    · exact first
    · split <;> exact first

theorem callResult {p : Evaluation σ} (hp : (unwind p).Within R) (autoReturn : Bool)
    (site : Span) (frame : Frame) : (callResult autoReturn site frame p).Within R := by
  intro m
  have first := hp m
  rw [callResult_eq]
  cases eq : unwind p m with
  | done v m' => rwa [eq] at first
  | spent => trivial
  | exit e m' =>
    rw [eq] at first
    dsimp only [Step.callResult]
    split <;> exact first

end Eval.Within

namespace Effect.Local

open Eval

variable {G : Effect σ} {own : Nat} {α β : Type}

theorem pure (law : G.Local) (a : α) : (Pure.pure a : Eval σ α).Within (G own) :=
  fun m => law.refl own m

theorem leave (law : G.Local) (reason : Exit) : (leave reason : Eval σ α).Within (G own) :=
  fun m => law.refl own m

theorem fail (law : G.Local) (fault : Fault) (span : Span) (frame : Frame) :
    (fail fault span frame : Eval σ α).Within (G own) :=
  law.leave _

theorem spent (G : Effect σ) : (spent : Eval σ α).Within (G own) := fun _ => trivial

theorem bind_of (law : G.Local) {p : Eval σ α} {f : α → Eval σ β} (hp : p.Within (G own))
    (hf : ∀ m a m', p m = .done a m' → (f a m').Leaves (G own m')) :
    (p >>= f).Within (G own) := by
  intro m
  have first := hp m
  change Step.Leaves (G own m) (Eval.bind p f m)
  unfold Eval.bind
  split
  · next a m' eq =>
    rw [eq] at first
    exact (hf m a m' eq).mono fun m'' second => law.trans first second
  · next eq => rw [eq] at first; exact first
  · trivial

theorem bind (law : G.Local) {p : Eval σ α} {f : α → Eval σ β} (hp : p.Within (G own))
    (hf : ∀ a, (f a).Within (G own)) : (p >>= f).Within (G own) :=
  law.bind_of hp fun _ a m' _ => hf a m'

theorem assigns (law : G.Local) (frame : Frame) (name : String) (v : Value) :
    (Eval.assign frame name v).Within (G frame.scope) :=
  fun m => law.assign frame name v m

theorem lookup (law : G.Local) (frame : Frame) (name : String) :
    (lookup frame name).Within (G own) :=
  fun m => law.refl own m

theorem lift (law : G.Local) (result : Except OperationError Value) (span : Span)
    (frame : Frame) : (lift result span frame).Within (G own) := by
  unfold Eval.lift
  split
  · exact law.pure _
  · exact law.fail _ _ _

theorem deeper (law : G.Local) {p : Eval σ α} (hp : p.Within (G own)) :
    (Eval.nested p).Within (G own) := by
  intro m
  have first := hp { m with depth := m.depth + 1 }
  unfold Eval.nested
  split
  · next eq => rw [eq] at first; exact law.nested own m _ first
  · next eq => rw [eq] at first; exact law.nested own m _ first
  · trivial

theorem served (law : G.Local) {m : Machine σ} {h : Host σ} (served : m.host.Served h) :
    G own m { m with host := h } := by
  induction served with
  | refl => exact law.refl own m
  | tail _ asked ih => exact law.trans ih (law.host own _ _ asked)

theorem onHost (law : G.Local) {ask : Host.Ask σ α} (serves : ask.Serves) (site : Span)
    (frame : Frame) : (onHost ask site frame).Within (G own) := by
  intro m
  unfold ScriptLang.onHost
  split
  · next eq => exact law.served (serves _ _ _ eq)
  · next eq => exact law.served (serves _ _ _ eq)
  · trivial

theorem orFail (law : G.Local) (result : Except Fault α) (site : Span) (frame : Frame) :
    (orFail result site frame).Within (G own) := by
  unfold ScriptLang.orFail
  split
  · exact law.pure _
  · exact law.fail _ _ _

theorem bindParams (law : G.Local) (frame : Frame) (names : List String)
    (values : List Value) : (bindParams frame names values).Within (G frame.scope) := by
  induction names generalizing values with
  | nil => exact law.pure ()
  | cons name names ih =>
    cases values with
    | nil => exact law.pure ()
    | cons v values => exact law.bind (law.assigns frame name _) fun _ => ih values

section Rules

variable {self : Evaluator σ}

theorem evalAll (law : G.Local) (hself : G.Bounds self)
    (frame : Frame) (nodes : List Tree) : (evalAll self frame nodes).Within (G frame.scope) := by
  induction nodes with
  | nil => exact law.pure []
  | cons node rest ih =>
    exact law.bind (hself node frame) fun v => law.bind ih fun vs => law.pure _

theorem evalArms (law : G.Local) (hself : G.Bounds self)
    (last : Option (Otherwise Tree)) (span : Span) (frame : Frame) (arms : List (Arm Tree)) :
    (evalArms self last span frame arms).Within (G frame.scope) := by
  induction arms with
  | nil =>
    cases last with
    | none => exact law.pure _
    | some last => exact law.bind (hself last.body frame) fun v => law.pure _
  | cons arm rest ih =>
    refine law.bind (hself arm.condition frame) fun c => ?_
    split
    · exact law.bind (hself arm.body frame) fun v => law.pure _
    · exact ih

theorem evalBound (law : G.Local) (hself : G.Bounds self) (node : Tree) (frame : Frame) :
    (evalBound self node frame).Within (G frame.scope) := by
  refine law.bind (hself node frame) fun v => ?_
  split
  · exact law.pure _
  · exact law.fail _ _ _

theorem evalStep (law : G.Local) (hself : G.Bounds self)
    (frame : Frame) (step : Option Tree) : (evalStep self frame step).Within (G frame.scope) := by
  cases step with
  | none => exact law.pure _
  | some node =>
    refine law.bind (law.evalBound hself node frame) fun n => ?_
    split
    · exact law.fail _ _ _
    · exact law.pure _

theorem forTurns (law : G.Local) (hself : G.Bounds self)
    (name : String) (last step : Number) (body : Tree) (frame : Frame) (n : Nat)
    (current : Number) (values : List Value) :
    (forTurns self name last step body frame n current values).Within (G frame.scope) := by
  induction n generalizing current values with
  | zero => exact spent G
  | succ n ih =>
    unfold ScriptLang.forTurns
    split
    · refine law.bind (law.assigns frame name _) fun _ => ?_
      refine law.bind (hself body frame).turn fun t => ?_
      cases t with
      | value v => exact ih _ _
      | skip => exact ih _ _
      | stop => exact law.pure _
    · exact law.pure _

theorem whileTurns (law : G.Local) (hself : G.Bounds self) (condition body : Tree)
    (frame : Frame) (n : Nat) (values : List Value) :
    (whileTurns self condition body frame n values).Within (G frame.scope) := by
  induction n generalizing values with
  | zero => exact spent G
  | succ n ih =>
    refine law.bind (hself condition frame) fun c => ?_
    split
    · refine law.bind (hself body frame).turn fun t => ?_
      cases t with
      | value v => exact ih _
      | skip => exact ih _
      | stop => exact law.pure _
    · exact law.pure _

theorem evalFor (law : G.Local) (hself : G.Bounds self)
    (fuel : Nat) (name : String) (first last : Tree) (step : Option Tree) (body : Tree)
    (suppress : Bool) (span : Span) (frame : Frame) :
    (evalFor fuel self name first last step body suppress span frame).Within (G frame.scope) :=
  law.bind (law.evalBound hself first frame) fun _ =>
  law.bind (law.evalBound hself last frame) fun _ =>
  law.bind (law.evalStep hself frame step) fun _ =>
  law.bind (law.forTurns hself name _ _ body frame fuel _ _) fun _ => law.pure _

theorem evalFunction (law : G.Local) (name : Option String) (params : List String) (body : Tree)
    (autoReturn : Bool) (mark : Mark) (frame : Frame) :
    (evalFunction name params body autoReturn mark frame).Within (G frame.scope) := by
  cases name with
  | none => exact law.bind (law.pure _) fun _ => law.pure _
  | some name => exact law.bind (law.assigns frame name _) fun _ => law.pure _

theorem checkCall (law : G.Local) (limit : Nat) (callee : Value) (params args : Nat)
    (site : Span) (frame : Frame) :
    (checkCall limit callee params args site frame).Within (G own) := by
  intro m
  unfold ScriptLang.checkCall
  split
  · exact law.refl own m
  · split
    · exact law.refl own m
    · split
      · exact law.refl own m
      · exact law.refl own m

theorem callFunction (law : G.Local) (hself : G.Bounds self) (limit : Nat) (f : Function)
    (callee : Value) (args : List Value) (site : Span) (caller : Frame) :
    (callFunction limit self f callee args site caller).Within (G own) := by
  refine law.bind (law.checkCall limit callee _ _ site caller) fun _ m => ?_
  let frame := Frame.call m.frames f.displayName m.store.size site caller
  -- from here on the effect is that of the new scope
  have body : Eval.Within (G frame.scope) (do
      ScriptLang.bindParams frame f.params args
      ScriptLang.callResult f.autoReturn site frame (self f.body frame).nested) := by
    refine law.bind (law.bindParams frame _ _) fun _ => ?_
    have body := law.deeper (hself f.body frame)
    rw [← unwind_nested] at body
    exact body.callResult f.autoReturn site frame
  exact (body _).mono fun m' h => law.call own f.closure.scope m m' h

theorem runSource (law : G.Local) (hself : G.Bounds self) (source : Source)
    (m m' : Machine σ) (result : Except Error Value)
    (h : runSource self source m = some (result, m')) : G globalScope m m' := by
  rw [runSource_eq] at h
  split at h
  · cases h; exact law.refl _ _
  · next tree _ =>
    have ran := hself tree (.root m.frames programName globalScope)
      { m with frames := m.frames + 1 }
    refine law.trans (law.frame globalScope m) ?_
    unfold Step.programEnd at h
    split at h
    · next eq => rw [eq] at ran; cases h; exact ran
    · next eq => rw [eq] at ran; cases h; exact ran
    · cases h

theorem runScript (law : G.Local) (hself : G.Bounds self) (path : String) (site : Span)
    (frame : Frame) : (runScript self path site frame).Within (G own) := by
  intro m
  let asked : Machine σ := { m with host := (m.host.load path).2 }
  suffices h : (ScriptLang.runScript self path site frame m).Leaves (G globalScope asked) from
    h.mono fun m' => law.run own path m m'
  change Step.Leaves _ (Eval.bind (ScriptLang.onHost (Host.fetch path) site frame) _ m)
  unfold Eval.bind ScriptLang.onHost Host.fetch
  cases (m.host.load path).1 with
  | error reason => exact law.refl globalScope asked
  | ok text =>
    dsimp only [Except.mapError]
    split
    · next ran => exact law.runSource hself _ asked _ _ ran
    · next ran => exact law.runSource hself _ asked _ _ ran
    · trivial

theorem execute (law : G.Local) (hself : G.Bounds self) (fuel : Nat) (b : Builtin)
    (args : List Value)
    (site : Span) (frame : Frame) : (execute fuel self b args site frame).Within (G own) := by
  unfold ScriptLang.execute
  split
  · exact law.bind (law.onHost (Host.print_serves _) site frame) fun _ => law.pure _
  · exact law.pure _
  · exact law.bind (law.onHost Host.ask_serves site frame) fun _ => law.pure _
  · exact law.bind (law.onHost (Host.askInteger_serves fuel) site frame) fun _ => law.pure _
  · exact law.bind (law.onHost Host.wipe_serves site frame) fun _ => law.pure _
  · exact law.pure _
  · exact law.pure _
  · exact law.pure _
  · exact law.pure _
  · exact law.bind (law.orFail _ site frame) fun _ => law.pure _
  · exact law.bind (law.orFail _ site frame) fun _ => law.pure _
  · exact law.bind (law.orFail _ site frame) fun _ => law.pure _
  · exact law.pure _
  · exact law.fail _ _ _
  · exact law.bind (law.runScript hself _ site frame) fun _ => law.pure _
  · exact law.fail _ _ _
  · exact law.pure _

theorem orFail_eq_done {result : Except Fault α} {site : Span} {frame : Frame} {m m' : Machine σ}
    {a : α} (h : ScriptLang.orFail result site frame m = .done a m') : result = .ok a := by
  unfold ScriptLang.orFail at h
  split at h
  · cases h; rfl
  · cases h

theorem execute_changed {fuel : Nat} {b : Builtin} {args : List Value} {site : Span}
    {frame : Frame} {m m' : Machine σ} {result v : Value}
    (h : ScriptLang.execute fuel self b args site frame m = .done (result, some v) m') :
    b.mutates = true ∧ ∃ vs t, v = .list vs t := by
  unfold ScriptLang.execute at h
  split at h <;>
    simp only [Eval.bind_eq_done, Eval.pure_eq_done, Eval.fail_ne_done, Prod.mk.injEq,
      reduceCtorEq, and_false, false_and, exists_false, Option.some.injEq] at h
  · obtain ⟨w, m₁, ended, ⟨-, rfl⟩, -⟩ := h
    exact ⟨rfl, Value.list_of_append (orFail_eq_done ended)⟩
  · obtain ⟨⟨taken, rest⟩, m₁, ended, ⟨-, rfl⟩, -⟩ := h
    exact ⟨rfl, Value.list_of_pop (orFail_eq_done ended)⟩
  · obtain ⟨w, m₁, ended, ⟨-, rfl⟩, -⟩ := h
    exact ⟨rfl, Value.list_of_extend (orFail_eq_done ended)⟩

theorem changed_of_nested {fuel : Nat} {b : Builtin} {args : List Value} {site : Span}
    {frame : Frame} {m m' : Machine σ} {result v : Value}
    (h : Eval.nested (ScriptLang.execute fuel self b args site frame) m =
      .done (result, some v) m') : b.mutates = true ∧ ∃ vs t, v = .list vs t := by
  unfold Eval.nested at h
  split at h
  · next ended => cases h; exact execute_changed ended
  · cases h
  · cases h

theorem callBuiltinWith (law : G.Local) (hself : G.Bounds self) {putBack : PutBack σ}
    (backs : G.AllowsBack putBack) (limit fuel : Nat) (b : Builtin) (callee : Value)
    (args : List Value) (nodes : List Tree) (site : Span) (caller : Frame) :
    (callBuiltinWith putBack limit fuel self b callee args nodes site caller).Within
      (G caller.scope) := by
  refine law.bind (law.checkCall limit callee _ _ site caller) fun _ => ?_
  refine law.bind (fun m => law.frame caller.scope m) fun frame => ?_
  refine law.bind_of (law.deeper (law.execute hself fuel b args site frame)) ?_
  rintro m ⟨result, changed⟩ m' ended
  cases changed with
  | none => exact law.bind (law.pure ()) (fun _ => law.pure result) m'
  | some v =>
    obtain ⟨mutates, vs, t, rfl⟩ := changed_of_nested ended
    cases target? nodes with
    | none => exact law.bind (law.pure ()) (fun _ => law.pure result) m'
    | some name =>
      exact law.bind (backs b caller name vs t mutates) (fun _ => law.pure result) m'

theorem evalCallWith (law : G.Local) (hself : G.Bounds self) {putBack : PutBack σ}
    (backs : G.AllowsBack putBack) (limit fuel : Nat) (callee : Tree) (args : List Tree)
    (span : Span) (frame : Frame) :
    (evalCallWith putBack limit fuel self callee args span frame).Within (G frame.scope) := by
  refine law.bind (hself callee frame) fun c => ?_
  refine law.bind (law.evalAll hself frame args) fun values => ?_
  split
  · exact law.bind (law.callFunction hself limit _ _ values span frame) fun _ => law.pure _
  · exact law.bind (law.callBuiltinWith hself backs limit fuel _ _ values args span frame)
      fun _ => law.pure _
  · exact law.fail _ _ _

theorem evalNodeWith (law : G.Local) (hself : G.Bounds self) {putBack : PutBack σ}
    (backs : G.AllowsBack putBack) (limit fuel : Nat) (node : Tree) (frame : Frame) :
    (evalNodeWith putBack limit fuel self node frame).Within (G frame.scope) := by
  cases node with
  | number n mark => exact law.pure _
  | string s mark => exact law.pure _
  | list elements mark => exact law.bind (law.evalAll hself frame elements) fun _ => law.pure _
  | access name mark =>
    refine law.bind (law.lookup frame name) fun found => ?_
    cases found with
    | none => exact law.fail _ _ _
    | some v => exact law.pure _
  | assign name value mark =>
    exact law.bind (hself value frame) fun v =>
      law.bind (law.assigns frame name v) fun _ => law.pure v
  | unary op operand mark => exact law.bind (hself operand frame) fun v => law.lift _ _ _
  | binary op left right mark =>
    exact law.bind (hself left frame) fun a =>
      law.bind (hself right frame) fun b => law.lift _ _ _
  | cond arms last mark => exact law.evalArms hself last mark.span frame arms
  | forLoop name first last step body suppress mark =>
    exact law.evalFor hself fuel name first last step body suppress mark.span frame
  | whileLoop condition body suppress mark =>
    exact law.bind (law.whileTurns hself condition body frame fuel []) fun _ => law.pure _
  | breaks mark => exact law.leave _
  | continues mark => exact law.leave _
  | returns value mark =>
    cases value with
    | none => exact law.leave _
    | some value => exact law.bind (hself value frame) fun v => law.leave _
  | function name params body autoReturn mark =>
    exact law.evalFunction name params body autoReturn mark frame
  | call callee args mark =>
    exact law.evalCallWith hself backs limit fuel callee args mark.span frame
  | block statements mark =>
    exact law.bind (law.evalAll hself frame statements) fun _ => law.pure _

end Rules

theorem evaluateWith (law : G.Local) {putBack : PutBack σ} (backs : G.AllowsBack putBack)
    (limit fuel : Nat) : G.Bounds (evaluateWith putBack limit fuel) := by
  induction fuel with
  | zero => exact fun _ _ => spent G
  | succ fuel ih =>
    intro node frame
    unfold ScriptLang.evaluateWith
    rw [unwind_signal]
    exact law.evalNodeWith ih backs limit fuel node frame

end Effect.Local

structure Effect.Lawful (G : Effect σ) : Prop extends G.Local where
  reassign : ∀ (frame : Frame) name vs t m, G frame.scope m
    { m with store := (m.store.replace? frame.scope name (.list vs t)).getD m.store }

namespace Effect.Lawful

variable {G : Effect σ}

theorem allowsBack (law : G.Lawful) : G.AllowsBack .usual := by
  intro b frame name vs t _ m
  exact law.reassign frame name vs t m

theorem evaluate (law : G.Lawful) (limit fuel : Nat) : G.Bounds (evaluate limit fuel) := by
  rw [← evaluateWith_usual]
  exact law.toLocal.evaluateWith law.allowsBack limit fuel

theorem eval (law : G.Lawful) (limit fuel : Nat) (node : Tree) (frame : Frame) :
    (eval limit fuel node frame).Within (G frame.scope) :=
  law.evaluate limit fuel node frame

end Effect.Lawful

end ScriptLang
