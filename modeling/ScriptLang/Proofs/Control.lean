import ScriptLang.Proofs.Unwind
import ScriptLang.Session

/-! How far control leaves. A signal tells of one thing only. `BREAK` and `CONTINUE` leave the trees
around them up to the next loop body, `RETURN` up to the next function body; a call ends with a
value or fails. So what a tree can end with can be read off its text. Nothing of this is in the
shape of a signal: it holds because every rule keeps it. -/
namespace ScriptLang

variable {σ : Type}

namespace Node

variable {α : Type}

/-- What a tree is evaluated from, apart from the bodies of functions and loops. -/
def parts : Node α → List (Node α)
  | list ns _ | block ns _ => ns
  | assign _ v _ | unary _ v _ => [v]
  | binary _ l r _ => [l, r]
  | cond arms last _ =>
    arms.flatMap (fun arm => [arm.condition, arm.body]) ++ last.toList.map Otherwise.body
  | forLoop _ first last step _ _ _ => first :: last :: step.toList
  | whileLoop c _ _ _ => [c]
  | returns v _ => v.toList
  | call f args _ => f :: args
  | number .. | string .. | access .. | breaks _ | continues _ | function .. => []

def turned : Node α → Option (Node α)
  | forLoop _ _ _ _ body _ _ | whileLoop _ body _ _ => some body
  | _ => none

/-- `p` stands in the tree outside all function bodies, and unless `loops` outside all loop
bodies. -/
inductive Holds (loops : Bool) : Node α → Node α → Prop where
  | self (n : Node α) : Holds loops n n
  | part {n q p : Node α} (mem : q ∈ n.parts) (h : Holds loops q p) : Holds loops n p
  | body {n q p : Node α} (inside : loops = true) (turned : n.turned = some q)
    (h : Holds loops q p) : Holds loops n p

end Node

namespace Signal

def ways (s : Signal) : List Bool :=
  [s.value.isSome, s.error.isSome, s.functionReturn.isSome, s.loopBreak, s.loopContinue]

/-- No control is on its way to a loop or a call. -/
structure Settled (s : Signal) : Prop where
  functionReturn : s.functionReturn = none
  loopBreak : s.loopBreak = false
  loopContinue : s.loopContinue = false

/-- What a tree can end with: control leaves it only from where its text says so. -/
structure Bounded (n : Tree) (s : Signal) : Prop where
  once : s.ways.count true = 1
  origin : s.origin.isSome = (s.loopBreak || s.loopContinue)
  loopBreak : s.loopBreak = true →
    ∃ mark, n.Holds false (.breaks mark) ∧ s.origin = some mark.span
  loopContinue : s.loopContinue = true →
    ∃ mark, n.Holds false (.continues mark) ∧ s.origin = some mark.span
  functionReturn : s.functionReturn.isSome = true →
    ∃ value mark, n.Holds true (.returns value mark)

namespace Bounded

variable {n q : Tree} {s : Signal}

theorem success (v : Value) : Bounded n (.success v) := ⟨rfl, rfl, nofun, nofun, nofun⟩

theorem failure (e : Error) : Bounded n (.failure e) := ⟨rfl, rfl, nofun, nofun, nofun⟩

theorem breaks (mark : Mark) : Bounded (.breaks mark) (.breaks mark.span) :=
  ⟨rfl, rfl, fun _ => ⟨mark, .self _, rfl⟩, nofun, nofun⟩

theorem continues (mark : Mark) : Bounded (.continues mark) (.continues mark.span) :=
  ⟨rfl, rfl, nofun, fun _ => ⟨mark, .self _, rfl⟩, nofun⟩

theorem returns (value : Option Tree) (mark : Mark) (v : Value) :
    Bounded (.returns value mark) (.returns v) :=
  ⟨rfl, rfl, nofun, nofun, fun _ => ⟨value, mark, .self _⟩⟩

theorem part (mem : q ∈ n.parts) (h : s.Bounded q) : s.Bounded n where
  once := h.once
  origin := h.origin
  loopBreak broke :=
    have ⟨mark, holds, origin⟩ := h.loopBreak broke
    ⟨mark, .part mem holds, origin⟩
  loopContinue continued :=
    have ⟨mark, holds, origin⟩ := h.loopContinue continued
    ⟨mark, .part mem holds, origin⟩
  functionReturn returned :=
    have ⟨value, mark, holds⟩ := h.functionReturn returned
    ⟨value, mark, .part mem holds⟩

theorem body (turned : n.turned = some q) (h : s.Bounded q) (broke : s.loopBreak = false)
    (continued : s.loopContinue = false) : s.Bounded n where
  once := h.once
  origin := h.origin
  loopBreak set := by rw [broke] at set; cases set
  loopContinue set := by rw [continued] at set; cases set
  functionReturn returned :=
    have ⟨value, mark, holds⟩ := h.functionReturn returned
    ⟨value, mark, .body rfl turned holds⟩

end Bounded

end Signal

abbrev Node.Allows (n : Tree) (e : Exit) : Prop := e.signal.Bounded n

def Exit.Fails (e : Exit) : Prop := ∃ error, e = .failed error

theorem Exit.Fails.allowed {e : Exit} (h : e.Fails) (n : Tree) : n.Allows e := by
  obtain ⟨error, rfl⟩ := h
  exact .failure error

def Eval.Exits {α : Type} (P : Exit → Prop) (p : Eval σ α) : Prop :=
  ∀ m e m', p m = .exit e m' → P e

namespace Eval.Exits

variable {α β : Type} {P Q : Exit → Prop}

theorem mono {p : Eval σ α} (h : p.Exits P) (imp : ∀ e, P e → Q e) : p.Exits Q :=
  fun m e m' left => imp e (h m e m' left)

theorem pure (a : α) : (Pure.pure a : Eval σ α).Exits P := fun _ _ _ left => by cases left

theorem spent : (Eval.spent : Eval σ α).Exits P := fun _ _ _ left => by cases left

theorem leave {e : Exit} (h : P e) : (Eval.leave e : Eval σ α).Exits P := by
  intro m e' m' left
  cases left
  exact h

theorem fail (fault : Fault) (span : Span) (frame : Frame) :
    (Eval.fail fault span frame : Eval σ α).Exits Exit.Fails :=
  leave ⟨_, rfl⟩

theorem bind {p : Eval σ α} {f : α → Eval σ β} (hp : p.Exits P) (hf : ∀ a, (f a).Exits P) :
    (p >>= f).Exits P := by
  intro m e m' left
  change Eval.bind p f m = .exit e m' at left
  unfold Eval.bind at left
  split at left
  · next a m₁ _ => exact hf a m₁ e m' left
  · next first => cases left; exact hp m _ _ first
  · cases left

theorem nested {p : Eval σ α} (hp : p.Exits P) : (Eval.nested p).Exits P := by
  intro m e m' left
  unfold Eval.nested at left
  split at left
  · cases left
  · next first => cases left; exact hp _ _ _ first
  · cases left

/-- A loop catches what is meant for it; a `RETURN` of its body is one of its own. -/
theorem turn {loop body : Tree} (turned : loop.turned = some body) {p : Evaluation σ}
    (hp : (unwind p).Exits body.Allows) : (turn p).Exits loop.Allows := by
  intro m e m' left
  rw [turn_eq] at left
  unfold Step.turn at left
  split at left
  · cases left
  · next first =>
    split at left
    · cases left
    · next noContinue =>
      split at left
      · cases left
      · next noBreak =>
        cases left
        exact (hp m _ _ first).body turned (Bool.eq_false_iff.2 noBreak)
          (Bool.eq_false_iff.2 noContinue)
  · cases left

theorem callResult (autoReturn : Bool) (site : Span) (frame : Frame) (p : Evaluation σ) :
    (callResult autoReturn site frame p).Exits Exit.Fails := by
  intro m e m' left
  unfold ScriptLang.callResult at left
  split at left
  · split at left
    · cases left
    · cases left; exact ⟨_, rfl⟩
  · cases left

theorem lift (result : Except OperationError Value) (span : Span) (frame : Frame) :
    (Eval.lift result span frame : Eval σ Value).Exits Exit.Fails := by
  unfold Eval.lift
  split
  · exact pure _
  · exact fail _ _ _

theorem assign (frame : Frame) (name : String) (v : Value) :
    (Eval.assign frame name v : Eval σ Unit).Exits P := fun _ _ _ left => by cases left

theorem reassign (frame : Frame) (name : String) (v : Value) :
    (Eval.reassign frame name v : Eval σ Unit).Exits P := fun _ _ _ left => by cases left

theorem onHost (ask : Host.Ask σ α) (site : Span) (frame : Frame) :
    (onHost ask site frame).Exits Exit.Fails := by
  intro m e m' left
  unfold ScriptLang.onHost at left
  split at left
  · cases left
  · exact fail _ _ _ _ _ _ left
  · cases left

theorem orFail (result : Except Fault α) (site : Span) (frame : Frame) :
    (orFail result site frame : Eval σ α).Exits Exit.Fails := by
  unfold ScriptLang.orFail
  split
  · exact pure _
  · exact fail _ _ _

theorem bindParams (frame : Frame) (names : List String) (values : List Value) :
    (bindParams frame names values : Eval σ Unit).Exits P := by
  induction names generalizing values with
  | nil => exact pure ()
  | cons name names ih =>
    cases values with
    | nil => exact pure ()
    | cons v values => exact (assign frame name _).bind fun _ => ih values

theorem checkCall (limit : Nat) (callee : Value) (params args : Nat) (site : Span)
    (frame : Frame) :
    (checkCall limit callee params args site frame : Eval σ Unit).Exits Exit.Fails := by
  intro m e m' left
  unfold ScriptLang.checkCall at left
  split at left
  · cases left; exact ⟨_, rfl⟩
  · split at left
    · exact fail _ _ _ _ _ _ left
    · split at left
      · exact fail _ _ _ _ _ _ left
      · cases left

section Rules

variable {self : Evaluator σ}

abbrev SelfAllowed (self : Evaluator σ) : Prop :=
  ∀ node frame, (unwind (self node frame)).Exits node.Allows

theorem callFunction (limit : Nat) (f : Function) (callee : Value) (args : List Value)
    (site : Span) (caller : Frame) :
    (callFunction limit self f callee args site caller).Exits Exit.Fails :=
  (checkCall limit callee _ _ site caller).bind fun _ =>
    bind (p := Eval.callFrame f.displayName f.closure.scope site caller)
      (fun _ _ _ left => by cases left) fun frame =>
      (bindParams frame _ _).bind fun _ => callResult f.autoReturn site frame _

theorem runScript (path : String) (site : Span) (frame : Frame) :
    (runScript self path site frame).Exits Exit.Fails := by
  refine (onHost _ site frame).bind fun text m e m' left => ?_
  split at left
  · cases left
  · exact fail _ _ _ _ _ _ left
  · cases left

theorem execute (fuel : Nat) (b : Builtin) (args : List Value) (site : Span) (frame : Frame) :
    (execute fuel self b args site frame).Exits Exit.Fails := by
  unfold ScriptLang.execute
  split
  · exact (onHost _ site frame).bind fun _ => pure _
  · exact pure _
  · exact (onHost _ site frame).bind fun _ => pure _
  · exact (onHost _ site frame).bind fun _ => pure _
  · exact (onHost _ site frame).bind fun _ => pure _
  · exact pure _
  · exact pure _
  · exact pure _
  · exact pure _
  · exact (orFail _ site frame).bind fun _ => pure _
  · exact (orFail _ site frame).bind fun _ => pure _
  · exact (orFail _ site frame).bind fun _ => pure _
  · exact pure _
  · exact fail _ _ _
  · exact (runScript _ site frame).bind fun _ => pure _
  · exact fail _ _ _
  · exact pure _

theorem callBuiltin (limit fuel : Nat) (b : Builtin) (callee : Value) (args : List Value)
    (nodes : List Tree) (site : Span) (caller : Frame) :
    (callBuiltin limit fuel self b callee args nodes site caller).Exits Exit.Fails := by
  refine (checkCall limit callee _ _ site caller).bind fun _ => ?_
  refine bind (p := Eval.plainFrame b.name site caller) (fun _ _ _ left => by cases left)
    fun frame => ?_
  refine (execute fuel b args site frame).nested.bind fun (result, changed) => ?_
  cases changed with
  | none => exact (pure ()).bind fun _ => pure result
  | some v =>
    cases target? nodes with
    | none => exact (pure ()).bind fun _ => pure result
    | some name => exact (reassign caller name v).bind fun _ => pure result

theorem evalAll {frame : Frame} {nodes : List Tree}
    (h : ∀ node ∈ nodes, (unwind (self node frame)).Exits P) :
    (evalAll self frame nodes).Exits P := by
  induction nodes with
  | nil => exact pure []
  | cons node rest ih =>
    refine (h node List.mem_cons_self).bind fun v => ?_
    exact (ih fun other mem => h other (List.mem_cons_of_mem node mem)).bind fun vs => pure _

theorem ofPart (hself : SelfAllowed self) {n q : Tree} (mem : q ∈ n.parts) (frame : Frame) :
    (unwind (self q frame)).Exits n.Allows :=
  (hself q frame).mono fun _ => .part mem

theorem ofFails {p : Eval σ α} (h : p.Exits Exit.Fails) (n : Tree) : p.Exits n.Allows :=
  h.mono fun _ fails => fails.allowed n

theorem evalArms {last : Option (Otherwise Tree)} {span : Span} {frame : Frame}
    {arms : List (Arm Tree)}
    (conditions : ∀ arm ∈ arms, (unwind (self arm.condition frame)).Exits P)
    (bodies : ∀ arm ∈ arms, (unwind (self arm.body frame)).Exits P)
    (otherwise : ∀ o ∈ last, (unwind (self o.body frame)).Exits P) :
    (evalArms self last span frame arms).Exits P := by
  induction arms with
  | nil =>
    cases last with
    | none => exact pure _
    | some o => exact (otherwise o rfl).bind fun _ => pure _
  | cons arm rest ih =>
    refine (conditions arm List.mem_cons_self).bind fun c => ?_
    split
    · exact (bodies arm List.mem_cons_self).bind fun _ => pure _
    · exact ih (fun other mem => conditions other (List.mem_cons_of_mem arm mem))
        fun other mem => bodies other (List.mem_cons_of_mem arm mem)

theorem evalBound (hself : SelfAllowed self) {n node : Tree} (mem : node ∈ n.parts)
    (frame : Frame) : (evalBound self node frame).Exits n.Allows := by
  refine (ofPart hself mem frame).bind fun v => ?_
  split
  · exact pure _
  · exact ofFails (fail _ _ _) n

theorem evalStep (hself : SelfAllowed self) {n : Tree} {step : Option Tree}
    (mem : ∀ node ∈ step, node ∈ n.parts) (frame : Frame) :
    (evalStep self frame step).Exits n.Allows := by
  cases step with
  | none => exact pure _
  | some node =>
    refine (evalBound hself (mem node rfl) frame).bind fun v => ?_
    split
    · exact ofFails (fail _ _ _) n
    · exact pure _

theorem forTurns (hself : SelfAllowed self) {loop body : Tree} (turned : loop.turned = some body)
    (name : String) (last step : Number) (frame : Frame) (n : Nat) (current : Number)
    (values : List Value) :
    (forTurns self name last step body frame n current values).Exits loop.Allows := by
  induction n generalizing current values with
  | zero => exact spent
  | succ n ih =>
    unfold ScriptLang.forTurns
    split
    · refine (assign frame name _).bind fun _ => ?_
      refine (turn turned (hself body frame)).bind fun t => ?_
      cases t with
      | value v => exact ih _ _
      | skip => exact ih _ _
      | stop => exact pure _
    · exact pure _

theorem whileTurns (hself : SelfAllowed self) {loop condition body : Tree}
    (turned : loop.turned = some body) (mem : condition ∈ loop.parts) (frame : Frame) (n : Nat)
    (values : List Value) :
    (whileTurns self condition body frame n values).Exits loop.Allows := by
  induction n generalizing values with
  | zero => exact spent
  | succ n ih =>
    refine (ofPart hself mem frame).bind fun c => ?_
    split
    · refine (turn turned (hself body frame)).bind fun t => ?_
      cases t with
      | value v => exact ih _
      | skip => exact ih _
      | stop => exact pure _
    · exact pure _

theorem evalCall (hself : SelfAllowed self) (limit fuel : Nat) (callee : Tree) (args : List Tree)
    (mark : Mark) (frame : Frame) : (evalCall limit fuel self callee args mark.span frame).Exits
      (Node.Allows (.call callee args mark)) := by
  refine (ofPart hself List.mem_cons_self frame).bind fun c => ?_
  refine (evalAll fun node mem => ofPart hself (List.mem_cons_of_mem callee mem) frame).bind
    fun values => ?_
  split
  · exact (ofFails (callFunction limit _ _ values _ frame) _).bind fun _ => pure _
  · exact (ofFails (callBuiltin limit fuel _ _ values args _ frame) _).bind fun _ => pure _
  · exact ofFails (fail _ _ _) _

theorem evalNode (hself : SelfAllowed self) (limit fuel : Nat) (node : Tree) (frame : Frame) :
    (evalNode limit fuel self node frame).Exits node.Allows := by
  cases node with
  | number n mark => exact pure _
  | string s mark => exact pure _
  | list elements mark =>
    exact (evalAll fun node mem => ofPart hself mem frame).bind fun _ => pure _
  | access name mark =>
    refine bind (p := Eval.lookup frame name) (fun _ _ _ left => by cases left) fun found => ?_
    cases found with
    | none => exact ofFails (fail _ _ _) _
    | some v => exact pure _
  | assign name value mark =>
    exact (ofPart hself List.mem_cons_self frame).bind fun v =>
      (assign frame name v).bind fun _ => pure v
  | unary op operand mark =>
    exact (ofPart hself List.mem_cons_self frame).bind fun v => ofFails (lift _ _ _) _
  | binary op left right mark =>
    exact (ofPart hself List.mem_cons_self frame).bind fun a =>
      (ofPart hself (List.mem_cons_of_mem left List.mem_cons_self) frame).bind fun b =>
        ofFails (lift _ _ _) _
  | cond arms last mark =>
    have arm {a : Arm Tree} (mem : a ∈ arms) {q : Tree} (part : q ∈ [a.condition, a.body]) :
        q ∈ (Node.cond arms last mark).parts :=
      List.mem_append_left _ (List.mem_flatMap.2 ⟨a, mem, part⟩)
    refine evalArms (fun a mem => ofPart hself (arm mem (by simp)) frame)
      (fun a mem => ofPart hself (arm mem (by simp)) frame) fun o mem => ?_
    refine ofPart hself (List.mem_append_right _ ?_) frame
    exact List.mem_map.2 ⟨o, Option.mem_toList.2 mem, rfl⟩
  | forLoop name first last step body suppress mark =>
    refine (evalBound hself List.mem_cons_self frame).bind fun start => ?_
    refine (evalBound hself (List.mem_cons_of_mem _ List.mem_cons_self) frame).bind fun stop => ?_
    refine (evalStep hself (fun node mem => ?_) frame).bind fun increment => ?_
    · exact List.mem_cons_of_mem _ (List.mem_cons_of_mem _ (Option.mem_toList.2 mem))
    · exact (forTurns hself rfl name _ _ frame fuel _ _).bind fun _ => pure _
  | whileLoop condition body suppress mark =>
    exact (whileTurns hself rfl List.mem_cons_self frame fuel []).bind fun _ => pure _
  | breaks mark => exact leave (.breaks mark)
  | continues mark => exact leave (.continues mark)
  | returns value mark =>
    cases value with
    | none => exact leave (.returns none mark _)
    | some value =>
      exact (ofPart hself List.mem_cons_self frame).bind fun v => leave (.returns _ mark v)
  | function name params body autoReturn mark =>
    cases name with
    | none => exact (pure ()).bind fun _ => pure _
    | some name => exact (assign frame name _).bind fun _ => pure _
  | call callee args mark => exact evalCall hself limit fuel callee args mark frame
  | block statements mark =>
    exact (evalAll fun node mem => ofPart hself mem frame).bind fun _ => pure _

end Rules

theorem evaluate (limit fuel : Nat) : SelfAllowed (evaluate limit fuel : Evaluator σ) := by
  induction fuel with
  | zero => exact fun _ _ => spent
  | succ fuel ih =>
    intro node frame
    unfold ScriptLang.evaluate
    rw [unwind_signal]
    exact evalNode ih limit fuel node frame

end Eval.Exits

theorem Eval.signal_eq_some {p : Eval σ Value} {m m' : Machine σ} {s : Signal}
    (ended : p.signal m = some (s, m')) :
    (∃ v, s = .success v) ∨ ∃ e, p m = .exit e m' ∧ s = e.signal := by
  unfold Eval.signal at ended
  split at ended
  · cases ended; exact .inl ⟨_, rfl⟩
  · next left => cases ended; exact .inr ⟨_, left, rfl⟩
  · cases ended

theorem Signal.bounded_of_evaluate {limit fuel : Nat} {node : Tree} {frame : Frame}
    {m m' : Machine σ} {s : Signal} (ended : evaluate limit fuel node frame m = some (s, m')) :
    s.Bounded node := by
  cases fuel with
  | zero => cases ended
  | succ fuel =>
    obtain ⟨v, rfl⟩ | ⟨e, left, rfl⟩ := Eval.signal_eq_some ended
    · exact .success v
    · exact Eval.Exits.evalNode (Eval.Exits.evaluate limit fuel) limit fuel node frame m e m' left

theorem Signal.settled_of_fails {p : Eval σ Value} (fails : p.Exits Exit.Fails)
    {m m' : Machine σ} {s : Signal} (ended : p.signal m = some (s, m')) : s.Settled := by
  obtain ⟨v, rfl⟩ | ⟨e, left, rfl⟩ := Eval.signal_eq_some ended
  · exact ⟨rfl, rfl, rfl⟩
  · obtain ⟨error, rfl⟩ := fails m e m' left
    exact ⟨rfl, rfl, rfl⟩

/-- Whatever is evaluated, from any state: it ends in one of five ways, and control leaves it only
from a `BREAK`, `CONTINUE` or `RETURN` whose loop or function is not inside. Calls of functions
and built-in functions let no control out. -/
theorem signals_bounded (limit fuel : Nat) (m m' : Machine σ) (signal : Signal) :
    (∀ (node : Tree) (frame : Frame), evaluate limit fuel node frame m = some (signal, m') →
      signal.Bounded node) ∧
    (∀ (f : Function) (callee : Value) (args : List Value) (site : Span) (caller : Frame),
      (callFunction limit (evaluate limit fuel) f callee args site caller).signal m =
        some (signal, m') → signal.Settled) ∧
    ∀ (b : Builtin) (callee : Value) (args : List Value) (nodes : List Tree) (site : Span)
      (caller : Frame),
      (callBuiltin limit fuel (evaluate limit fuel) b callee args nodes site caller).signal m =
        some (signal, m') → signal.Settled :=
  ⟨fun _ _ => Signal.bounded_of_evaluate,
    fun f callee args site caller =>
      Signal.settled_of_fails (Eval.Exits.callFunction limit f callee args site caller),
    fun b callee args nodes site caller =>
      Signal.settled_of_fails (Eval.Exits.callBuiltin limit fuel b callee args nodes site caller)⟩

/-- A `BREAK` in the condition of a loop is not for that loop. -/
theorem signals_bounded_condition : ∃ tree signal m,
    Source.tree ⟨"<stdin>", "WHILE IF 1 THEN BREAK THEN 2"⟩ = .ok tree ∧
    (Session.start {} (.memory [] [])).evaluate 9 tree = some (signal, m) ∧
    signal.loopBreak = true ∧ signal.Bounded tree := by
  have broke : ((Source.tree ⟨"<stdin>", "WHILE IF 1 THEN BREAK THEN 2"⟩).toOption.bind
      fun tree => (Session.start {} (.memory [] [])).evaluate 9 tree).any
        (fun ended => ended.1.loopBreak) = true := by decide +kernel
  cases read : Source.tree ⟨"<stdin>", "WHILE IF 1 THEN BREAK THEN 2"⟩ with
  | error e => rw [read] at broke; cases broke
  | ok tree =>
    rw [read] at broke
    cases told : (Session.start {} (.memory [] [])).evaluate 9 tree with
    | none => simp [Except.toOption, told] at broke
    | some ended =>
      obtain ⟨signal, m⟩ := ended
      have loopBreak : signal.loopBreak = true := by simpa [Except.toOption, told] using broke
      exact ⟨tree, signal, m, rfl, told, loopBreak,
        (signals_bounded _ _ _ m signal).1 tree _ told⟩

end ScriptLang
