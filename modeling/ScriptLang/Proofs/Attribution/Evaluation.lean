import ScriptLang.Proofs.Attribution.Place

/-! What a value and an error tell of where they were made, said once for every construct of the
language. A value knows at most a tree that was evaluated and the frame it was evaluated in; an
error has a cause. -/
namespace ScriptLang

variable {σ : Type}

/-- The value was made in the frame by a tree in `node`, as far as it knows. -/
structure Value.MadeBy (node : Tree) (frame : Frame) (v : Value) : Prop where
  frame : v.stamp.frame = none ∨ v.stamp.frame = some frame
  span : ∀ s, v.stamp.span = some s → ∃ q, node.Contains q ∧ s = q.span

namespace Value

variable {node q : Tree} {frame : Frame} {v : Value}

theorem MadeBy.child (mem : q ∈ node.children) (h : v.MadeBy q frame) : v.MadeBy node frame := by
  refine ⟨h.frame, fun s known => ?_⟩
  obtain ⟨p, inside, eq⟩ := h.span s known
  exact ⟨p, .child mem inside, eq⟩

theorem MadeBy.place (node : Tree) (frame : Frame) (v : Value) :
    (v.place node.span frame).MadeBy node frame := by
  refine ⟨.inr (by simp [Value.place]), fun s known => ⟨node, .self node, ?_⟩⟩
  simpa [Value.place] using known.symm

theorem MadeBy.null (node : Tree) (frame : Frame) : Value.null.MadeBy node frame :=
  ⟨.inl rfl, nofun⟩

theorem MadeBy.own (h : v.MadeBy node frame) : v.stamp.frame.getD frame = frame := by
  rcases h.frame with unknown | known
  · rw [unknown]; rfl
  · rw [known]; rfl

theorem MadeBy.spans {n : Tree} (h : v.MadeBy q frame) (mem : q ∈ n.children) :
    n.Spans (v.stamp.span.getD n.span) := by
  cases known : v.stamp.span with
  | none => exact .one (.self n)
  | some s =>
    obtain ⟨p, inside, rfl⟩ := h.span s known
    exact .one (.child mem inside)

theorem MadeBy.spans_both {op : BinaryOp} {left right : Tree} {mark : Mark} {w : Value}
    (hv : v.MadeBy left frame) (hw : w.MadeBy right frame) :
    (Node.binary op left right mark).Spans
      ((joinSpans v.stamp.span w.stamp.span).getD mark.span) := by
  cases left' : v.stamp.span with
  | none => exact hw.spans (n := .binary op left right mark) (by simp [Node.children, Node.parts])
  | some s =>
    obtain ⟨p, first, rfl⟩ := hv.span s left'
    cases right' : w.stamp.span with
    | none => exact .one (.child (by simp [Node.children, Node.parts]) first)
    | some t =>
      obtain ⟨q, second, rfl⟩ := hw.span t right'
      exact .operands (.self _) first second

theorem MadeBy.bodyValue (node : Tree) (frame : Frame) (v : Value) (suppress : Bool) :
    (bodyValue v suppress node.span frame).MadeBy node frame := by
  unfold ScriptLang.bodyValue
  split
  · exact .null node frame
  · exact .place node frame v

theorem MadeBy.loopValue (node : Tree) (frame : Frame) (vs : List Value) (suppress : Bool) :
    (loopValue vs suppress node.span frame).MadeBy node frame := by
  unfold ScriptLang.loopValue
  split
  · exact .null node frame
  · exact .place node frame _

end Value

/-- How an operation on two values ends: if it fails, both operands are to blame or the right one
is. -/
inductive Value.Blames (a b : Value) : Except OperationError Value → Prop where
  | nobody (v : Value) : Blames a b (.ok v)
  | both : Blames a b (.error (a.illegal b))
  | right (fault : Fault) : Blames a b (.error (a.blame b fault))

namespace Value.Blames

variable (a b : Value)

theorem add : Blames a b (a.add b) := by
  unfold Value.add
  split
  · exact .nobody _
  · exact .nobody _
  · exact .nobody _
  · exact .both

theorem sub : Blames a b (a.sub b) := by
  unfold Value.sub
  split
  · exact .nobody _
  · split
    · exact .nobody _
    · exact .right _
  · exact .both

theorem mul : Blames a b (a.mul b) := by
  unfold Value.mul
  split
  · exact .nobody _
  · split
    · exact .nobody _
    · exact .right _
  · exact .nobody _
  · exact .both

theorem div : Blames a b (a.div b) := by
  unfold Value.div
  split
  · split
    · exact .right _
    · exact .nobody _
  · split
    · exact .nobody _
    · exact .right _
  · exact .both

theorem onNumbers (f : Number → Number → Number) : Blames a b (Value.onNumbers f a b) := by
  unfold Value.onNumbers
  split
  · exact .nobody _
  · exact .both

theorem apply (op : BinaryOp) : Blames a b (op.apply a b) := by
  cases op with
  | add => exact add a b
  | sub => exact sub a b
  | mul => exact mul a b
  | div => exact div a b
  | eq => exact .nobody _
  | ne => exact .nobody _
  | _ => exact onNumbers a b _

end Value.Blames

theorem UnaryOp.blames (op : UnaryOp) {a : Value} {e : OperationError}
    (h : op.apply a = .error e) : e = a.illegalAlone := by
  cases op with
  | plus => cases h
  | minus => cases a <;> cases h <;> rfl
  | not => cases a <;> cases h <;> rfl

/-- The step ends with a value in `V`, or leaves with no error but one in `C`, and `d` calls are
active behind it. -/
def Step.Tells {α : Type} (d : Nat) (V : α → Prop) (C : Error → Prop) : Step σ α → Prop
  | .done a m => V a ∧ m.depth = d
  | .exit reason m => (∀ e, reason.signal.error = some e → C e) ∧ m.depth = d
  | .spent => True

def Eval.Tells {α : Type} (d : Nat) (V : α → Prop) (C : Error → Prop) (p : Eval σ α) : Prop :=
  ∀ m, m.depth = d → (p m).Tells d V C

namespace Eval.Tells

variable {α β : Type} {d : Nat} {V W : α → Prop} {C D : Error → Prop}

theorem mono {p : Eval σ α} (h : p.Tells d V C) (values : ∀ a, V a → W a)
    (errors : ∀ e, C e → D e) : p.Tells d W D := by
  intro m counts
  have ended := h m counts
  cases step : p m with
  | done a m' => rw [step] at ended; exact ⟨values a ended.1, ended.2⟩
  | exit reason m' =>
    rw [step] at ended
    exact ⟨fun e known => errors e (ended.1 e known), ended.2⟩
  | spent => trivial

theorem failed {e : Error} {m : Machine σ} (h : C e) (counts : m.depth = d) :
    (Step.exit (.failed e) m : Step σ α).Tells d V C :=
  ⟨fun _ known => Option.some.inj known ▸ h, counts⟩

theorem pure {a : α} (h : V a) : (Pure.pure a : Eval σ α).Tells d V C := fun _ counts => ⟨h, counts⟩

theorem spent : (Eval.spent : Eval σ α).Tells d V C := fun _ _ => trivial

theorem fail {fault : Fault} {span : Span} {frame : Frame} (h : C (.runtime fault span frame)) :
    (Eval.fail fault span frame : Eval σ α).Tells d V C := fun _ counts => failed h counts

theorem leave {reason : Exit} (clean : reason.signal.error = none) :
    (Eval.leave reason : Eval σ α).Tells d V C := by
  refine fun m counts => ⟨fun e known => ?_, counts⟩
  rw [clean] at known
  cases known

theorem bind {W : β → Prop} {p : Eval σ α} {f : α → Eval σ β} (hp : p.Tells d V C)
    (hf : ∀ a, V a → (f a).Tells d W C) : (p >>= f).Tells d W C := by
  intro m counts
  have first := hp m counts
  change (Eval.bind p f m).Tells d W C
  unfold Eval.bind
  split
  · next a m' eq =>
    rw [eq] at first
    exact hf a first.1 m' first.2
  · next reason m' eq =>
    rw [eq] at first
    exact first
  · trivial

theorem nested {p : Eval σ α} (h : p.Tells (d + 1) V C) : (Eval.nested p).Tells d V C := by
  intro m counts
  have first := h { m with depth := m.depth + 1 } (by rw [counts])
  have back {m' : Machine σ} (deeper : m'.depth = d + 1) : m'.depth - 1 = d := by omega
  unfold Eval.nested
  split
  · next eq => rw [eq] at first; exact ⟨first.1, back first.2⟩
  · next reason m' eq =>
    rw [eq] at first
    exact ⟨first.1, back first.2⟩
  · trivial

theorem turn {V : Value → Prop} {p : Evaluation σ} (h : (unwind p).Tells d V C) :
    (turn p).Tells d (fun _ => True) C := by
  intro m counts
  have first := h m counts
  rw [turn_eq]
  unfold Step.turn
  split
  · next eq => rw [eq] at first; exact ⟨trivial, first.2⟩
  · next eq =>
    rw [eq] at first
    split
    · exact ⟨trivial, first.2⟩
    · split
      · exact ⟨trivial, first.2⟩
      · exact first
  · trivial

/-- A loop exit that leaves the body fails in the frame of the call. -/
theorem callResult {V : Value → Prop} {p : Evaluation σ} (h : (unwind p).Tells d V C)
    (autoReturn : Bool) (site : Span) {frame : Frame}
    (stray : ∀ keyword origin, C (.runtime (.outsideLoop keyword) origin frame)) :
    (callResult autoReturn site frame p).Tells d (fun _ => True) C := by
  intro m counts
  have first := h m counts
  rw [callResult_eq]
  unfold Step.callResult
  split
  · next eq => rw [eq] at first; exact ⟨trivial, first.2⟩
  · next reason m' eq =>
    rw [eq] at first
    split
    · exact ⟨trivial, first.2⟩
    · next e ended =>
      refine failed ?_ first.2
      rcases Signal.error_of_callResult ended with known | stray'
      · exact first.1 e known
      · exact stray' ▸ stray _ _
  · trivial

theorem assign (frame : Frame) (name : String) (v : Value) :
    (Eval.assign frame name v : Eval σ Unit).Tells d (fun _ => True) C :=
  fun _ counts => ⟨trivial, counts⟩

theorem reassign (frame : Frame) (name : String) (v : Value) :
    (Eval.reassign frame name v : Eval σ Unit).Tells d (fun _ => True) C :=
  fun _ counts => ⟨trivial, counts⟩

theorem bindParams (frame : Frame) (names : List String) (values : List Value) :
    (bindParams frame names values : Eval σ Unit).Tells d (fun _ => True) C := by
  induction names generalizing values with
  | nil => exact pure trivial
  | cons name names ih =>
    cases values with
    | nil => exact pure trivial
    | cons v values => exact (assign frame name _).bind fun _ _ => ih values

abbrev At (site : Span) (frame : Frame) (e : Error) : Prop := ∃ fault, e = .runtime fault site frame

theorem onHost (ask : Host.Ask σ α) (site : Span) (frame : Frame) :
    (onHost ask site frame).Tells d (fun _ => True) (At site frame) := by
  intro m counts
  unfold ScriptLang.onHost
  split
  · exact ⟨trivial, counts⟩
  · exact failed ⟨_, rfl⟩ counts
  · trivial

theorem orFail (result : Except Fault α) (site : Span) (frame : Frame) :
    (orFail result site frame : Eval σ α).Tells d (fun _ => True) (At site frame) := by
  unfold ScriptLang.orFail
  split
  · exact pure trivial
  · exact fail ⟨_, rfl⟩

section Rules

variable {R : FailingTrees} {self : Evaluator σ}

abbrev Caused (R : FailingTrees) (d : Nat) (node : Tree) (frame : Frame) (e : Error) : Prop :=
  ∃ calls, Cause R e d frame node calls

abbrev SelfTells (R : FailingTrees) (self : Evaluator σ) : Prop :=
  ∀ d node frame, (unwind (self node frame)).Tells d (·.MadeBy node frame)
    (fun e => ∃ calls, R e d node frame calls)

theorem ofPart (hself : SelfTells R self) {n q : Tree} (mem : q ∈ n.children) (frame : Frame) :
    (unwind (self q frame)).Tells d (·.MadeBy q frame) (Caused R d n frame) :=
  (hself d q frame).mono (fun _ made => made) fun _ ⟨calls, inner⟩ => ⟨calls, .part mem inner⟩

theorem failHere {n : Tree} {frame : Frame} {fault : Fault} {span : Span} (h : n.Spans span) :
    (Eval.fail fault span frame : Eval σ α).Tells d V (Caused R d n frame) :=
  fail ⟨[], .here rfl h⟩

theorem evalAll {frame : Frame} {nodes : List Tree}
    (h : ∀ node ∈ nodes, (unwind (self node frame)).Tells d (·.MadeBy node frame) C) :
    (evalAll self frame nodes).Tells d (fun _ => True) C := by
  induction nodes with
  | nil => exact pure trivial
  | cons node rest ih =>
    refine (h node List.mem_cons_self).bind fun v _ => ?_
    refine (ih fun other mem => h other (List.mem_cons_of_mem node mem)).bind fun vs _ => ?_
    exact pure trivial

theorem checkCall (limit : Nat) (callee : Value) (params args : Nat) (n : Tree) (frame : Frame) :
    (checkCall limit callee params args n.span frame : Eval σ Unit).Tells d (fun _ => True)
      (Caused R d n frame) := by
  have here : n.Spans n.span := .one (.self n)
  intro m counts
  unfold ScriptLang.checkCall
  split
  · exact failed ⟨[], .here rfl here⟩ counts
  · split
    · exact failHere here m counts
    · split
      · exact failHere here m counts
      · exact ⟨trivial, counts⟩

section Calls

variable {callee : Tree} {args : List Tree} {mark : Mark}

theorem callFunction (hself : SelfTells R self) (limit : Nat) (f : Function) (v : Value)
    (values : List Value) (caller : Frame) :
    (callFunction limit self f v values mark.span caller).Tells d (fun _ => True)
      (Caused R d (.call callee args mark) caller) := by
  refine (checkCall limit v _ _ (.call callee args mark) caller).bind fun _ _ => ?_
  intro m counts
  let frame := Frame.call m.frames f.displayName m.store.size mark.span caller
  have body : (unwind (self f.body frame).nested).Tells d (·.MadeBy f.body frame)
      (Caused R d (.call callee args mark) caller) := by
    rw [unwind_nested]
    exact nested ((hself (d + 1) f.body frame).mono (fun _ made => made)
      fun _ ⟨_, inner⟩ => ⟨_, .body inner⟩)
  refine ((bindParams frame f.params values).bind fun _ _ => ?_) _ counts
  exact body.callResult f.autoReturn mark.span fun _ _ => ⟨_, .stray rfl⟩

theorem runScript (hself : SelfTells R self) (path : String) (site : Span) (frame : Frame) :
    (runScript self path site frame).Tells d (fun _ => True) (At site frame) := by
  refine (onHost _ site frame).bind fun text _ m counts => ?_
  have kept {result : Except Error Value} {m' : Machine σ}
      (ran : runSource self ⟨path, text⟩ m = some (result, m')) : m'.depth = d := by
    rw [runSource_eq] at ran
    split at ran
    · cases ran; exact counts
    · next tree _ =>
      have ended := hself d tree (.root m.frames programName globalScope)
        { m with frames := m.frames + 1 } counts
      unfold Step.programEnd at ran
      split at ran
      · next eq => rw [eq] at ended; cases ran; exact ended.2
      · next eq => rw [eq] at ended; cases ran; exact ended.2
      · cases ran
  split
  · next ran => exact ⟨trivial, kept ran⟩
  · next ran => exact failed ⟨_, rfl⟩ (kept ran)
  · trivial

theorem execute (hself : SelfTells R self) (fuel : Nat) (b : Builtin) (values : List Value)
    (site : Span)
    (frame : Frame) :
    (execute fuel self b values site frame).Tells d (fun _ => True) (At site frame) := by
  unfold ScriptLang.execute
  split
  · exact (onHost _ site frame).bind fun _ _ => pure trivial
  · exact pure trivial
  · exact (onHost _ site frame).bind fun _ _ => pure trivial
  · exact (onHost _ site frame).bind fun _ _ => pure trivial
  · exact (onHost _ site frame).bind fun _ _ => pure trivial
  · exact pure trivial
  · exact pure trivial
  · exact pure trivial
  · exact pure trivial
  · exact (orFail _ site frame).bind fun _ _ => pure trivial
  · exact (orFail _ site frame).bind fun _ _ => pure trivial
  · exact (orFail _ site frame).bind fun _ _ => pure trivial
  · exact pure trivial
  · exact fail ⟨_, rfl⟩
  · exact (runScript hself _ site frame).bind fun _ _ => pure trivial
  · exact fail ⟨_, rfl⟩
  · exact pure trivial

theorem callBuiltin (hself : SelfTells R self) (limit fuel : Nat) (b : Builtin) (v : Value)
    (values : List Value) (nodes : List Tree) (caller : Frame) :
    (callBuiltin limit fuel self b v values nodes mark.span caller).Tells d (fun _ => True)
      (Caused R d (.call callee args mark) caller) := by
  refine (checkCall limit v _ _ (.call callee args mark) caller).bind fun _ _ => ?_
  intro m counts
  let frame := Frame.call m.frames b.name caller.scope mark.span caller
  have called : (Eval.nested (ScriptLang.execute fuel self b values mark.span frame)).Tells d
      (fun _ => True)
      (Caused R d (.call callee args mark) caller) :=
    nested ((execute hself fuel b values mark.span frame).mono (fun _ h => h)
      fun _ ⟨_, failed⟩ => ⟨_, .builtin failed⟩)
  refine (called.bind fun (result, changed) _ => ?_) { m with frames := m.frames + 1 } counts
  cases changed with
  | none => exact (pure (V := fun _ => True) trivial).bind fun _ _ => pure trivial
  | some w =>
    cases target? nodes with
    | none => exact (pure (V := fun _ => True) trivial).bind fun _ _ => pure trivial
    | some name => exact (reassign caller name w).bind fun _ _ => pure trivial

theorem evalCall (hself : SelfTells R self) (limit fuel : Nat) (frame : Frame) :
    (evalCall limit fuel self callee args mark.span frame).Tells d
      (·.MadeBy (.call callee args mark) frame) (Caused R d (.call callee args mark) frame) := by
  refine (ofPart hself (by simp [Node.children, Node.parts]) frame).bind fun c _ => ?_
  refine (evalAll fun node mem => ofPart hself ?_ frame).bind fun values _ => ?_
  · simp [Node.children, Node.parts, mem]
  · split
    · exact (callFunction hself limit _ _ values frame).bind fun v _ => pure (.place _ frame v)
    · exact (callBuiltin hself limit fuel _ _ values args frame).bind fun v _ =>
        pure (.place _ frame v)
    · exact failHere (.one (.self _))

end Calls

/-- An operator may leave open where it failed, but must not say what is wrong. -/
theorem lift {n : Tree} {frame : Frame} {result : Except OperationError Value}
    (known : ∀ e, result = .error e →
      e.stamp.frame.getD frame = frame ∧ n.Spans (e.stamp.span.getD n.span)) :
    (Eval.lift result n.span frame : Eval σ Value).Tells d (·.MadeBy n frame)
      (Caused R d n frame) := by
  unfold Eval.lift
  split
  · exact pure (.place n frame _)
  · next e =>
    obtain ⟨own, spans⟩ := known e rfl
    rw [own]
    exact failHere spans

theorem liftUnary {op : UnaryOp} {operand : Tree} {mark : Mark} {frame : Frame} {v : Value}
    (made : v.MadeBy operand frame) :
    (Eval.lift (op.apply v) mark.span frame : Eval σ Value).Tells d
      (·.MadeBy (.unary op operand mark) frame) (Caused R d (.unary op operand mark) frame) := by
  apply lift (n := .unary op operand mark)
  intro e failed
  obtain rfl := op.blames failed
  exact ⟨made.own, made.spans (by simp [Node.children, Node.parts])⟩

theorem liftBinary {op : BinaryOp} {left right : Tree} {mark : Mark} {frame : Frame}
    {a b : Value} (ha : a.MadeBy left frame) (hb : b.MadeBy right frame) :
    (Eval.lift (op.apply a b) mark.span frame : Eval σ Value).Tells d
      (·.MadeBy (.binary op left right mark) frame)
      (Caused R d (.binary op left right mark) frame) := by
  apply lift (n := .binary op left right mark)
  intro e failed
  have blames := Value.Blames.apply a b op
  rw [failed] at blames
  cases blames with
  | both => exact ⟨ha.own, ha.spans_both hb⟩
  | right fault => exact ⟨ha.own, hb.spans (by simp [Node.children, Node.parts])⟩

theorem evalArms {n : Tree} {last : Option (Otherwise Tree)} {frame : Frame}
    {arms : List (Arm Tree)} (hself : SelfTells R self)
    (conditions : ∀ arm ∈ arms, arm.condition ∈ n.children)
    (bodies : ∀ arm ∈ arms, arm.body ∈ n.children) (otherwise : ∀ o ∈ last, o.body ∈ n.children) :
    (evalArms self last n.span frame arms).Tells d (·.MadeBy n frame) (Caused R d n frame) := by
  induction arms with
  | nil =>
    cases last with
    | none => exact pure (.null n frame)
    | some o => exact (ofPart hself (otherwise o rfl) frame).bind fun v _ => pure (.bodyValue ..)
  | cons arm rest ih =>
    refine (ofPart hself (conditions arm List.mem_cons_self) frame).bind fun c _ => ?_
    split
    · exact (ofPart hself (bodies arm List.mem_cons_self) frame).bind fun v _ =>
        pure (.bodyValue ..)
    · exact ih (fun other mem => conditions other (List.mem_cons_of_mem arm mem))
        fun other mem => bodies other (List.mem_cons_of_mem arm mem)

theorem evalBound {n node : Tree} (hself : SelfTells R self) (mem : node ∈ n.children)
    (frame : Frame) :
    (evalBound self node frame).Tells d (fun _ => True) (Caused R d n frame) := by
  refine (ofPart hself mem frame).bind fun v _ => ?_
  split
  · exact pure trivial
  · exact failHere (.one (.child mem (.self node)))

theorem evalStep {n : Tree} (hself : SelfTells R self) {step : Option Tree}
    (mem : ∀ node ∈ step, node ∈ n.children) (frame : Frame) :
    (evalStep self frame step).Tells d (fun _ => True) (Caused R d n frame) := by
  cases step with
  | none => exact pure trivial
  | some node =>
    refine (evalBound hself (mem node rfl) frame).bind fun v _ => ?_
    split
    · exact failHere (.one (.child (mem node rfl) (.self node)))
    · exact pure trivial

theorem forTurns {n body : Tree} (hself : SelfTells R self) (mem : body ∈ n.children)
    (name : String) (last step : Number) (frame : Frame) (k : Nat) (current : Number)
    (values : List Value) : (forTurns self name last step body frame k current values).Tells d
      (fun _ => True) (Caused R d n frame) := by
  induction k generalizing current values with
  | zero => exact spent
  | succ k ih =>
    unfold ScriptLang.forTurns
    split
    · refine (assign frame name _).bind fun _ _ => ?_
      refine (ofPart hself mem frame).turn.bind fun t _ => ?_
      cases t with
      | value v => exact ih _ _
      | skip => exact ih _ _
      | stop => exact pure trivial
    · exact pure trivial

theorem whileTurns {n condition body : Tree} (hself : SelfTells R self)
    (first : condition ∈ n.children) (mem : body ∈ n.children) (frame : Frame) (k : Nat)
    (values : List Value) : (whileTurns self condition body frame k values).Tells d
      (fun _ => True) (Caused R d n frame) := by
  induction k generalizing values with
  | zero => exact spent
  | succ k ih =>
    refine (ofPart hself first frame).bind fun c _ => ?_
    split
    · refine (ofPart hself mem frame).turn.bind fun t _ => ?_
      cases t with
      | value v => exact ih _
      | skip => exact ih _
      | stop => exact pure trivial
    · exact pure trivial

theorem evalNode (hself : SelfTells R self) (limit fuel : Nat) (node : Tree) (frame : Frame) :
    (evalNode limit fuel self node frame).Tells d (·.MadeBy node frame)
      (Caused R d node frame) := by
  cases node with
  | number n mark => exact pure (.place (.number n mark) frame _)
  | string s mark => exact pure (.place (.string s mark) frame _)
  | list elements mark =>
    refine (evalAll fun node mem => ofPart hself ?_ frame).bind fun _ _ => ?_
    · exact Node.mem_children.2 (.inl mem)
    · exact pure (.place (.list elements mark) frame _)
  | access name mark =>
    refine bind (V := fun _ => True) (p := Eval.lookup frame name)
      (fun _ counts => ⟨trivial, counts⟩) fun found _ => ?_
    cases found with
    | none => exact failHere (.one (.self (.access name mark)))
    | some v => exact pure (.place (.access name mark) frame v)
  | assign name value mark =>
    have mem : value ∈ (Node.assign name value mark).children := by
      simp [Node.children, Node.parts]
    exact (ofPart hself mem frame).bind fun v made =>
      (assign frame name v).bind fun _ _ => pure (made.child mem)
  | unary op operand mark =>
    refine (ofPart hself ?_ frame).bind fun v made => liftUnary made
    simp [Node.children, Node.parts]
  | binary op left right mark =>
    refine (ofPart hself ?_ frame).bind fun a ha =>
      (ofPart hself ?_ frame).bind fun b hb => liftBinary ha hb
    · simp [Node.children, Node.parts]
    · simp [Node.children, Node.parts]
  | cond arms last mark =>
    have arm {a : Arm Tree} (mem : a ∈ arms) {q : Tree} (part : q ∈ [a.condition, a.body]) :
        q ∈ (Node.cond arms last mark).children :=
      Node.mem_children.2 (.inl (List.mem_append_left _ (List.mem_flatMap.2 ⟨a, mem, part⟩)))
    refine evalArms (n := .cond arms last mark) hself (fun a mem => arm mem (by simp))
      (fun a mem => arm mem (by simp)) fun o mem => ?_
    refine Node.mem_children.2 (.inl (List.mem_append_right _ ?_))
    exact List.mem_map.2 ⟨o, Option.mem_toList.2 mem, rfl⟩
  | forLoop name first last step body suppress mark =>
    have mem {q : Tree} (h : q = first ∨ q = last ∨ q ∈ step ∨ q = body) :
        q ∈ (Node.forLoop name first last step body suppress mark).children := by
      simpa [Node.children, Node.parts, Node.bodies, or_assoc] using h
    refine (evalBound hself (mem (.inl rfl)) frame).bind fun start _ => ?_
    refine (evalBound hself (mem (.inr (.inl rfl))) frame).bind fun stop _ => ?_
    refine (evalStep hself (fun q h => mem (.inr (.inr (.inl h)))) frame).bind fun change _ => ?_
    refine (forTurns hself (mem (.inr (.inr (.inr rfl)))) name _ _ frame fuel _ _).bind
      fun values _ => ?_
    exact pure (.loopValue (.forLoop name first last step body suppress mark) frame _ _)
  | whileLoop condition body suppress mark =>
    refine (whileTurns hself ?_ ?_ frame fuel []).bind fun values _ =>
      pure (.loopValue (.whileLoop condition body suppress mark) frame _ _)
    · simp [Node.children, Node.parts]
    · simp [Node.children, Node.parts, Node.bodies]
  | breaks mark => exact leave rfl
  | continues mark => exact leave rfl
  | returns value mark =>
    cases value with
    | none => exact leave rfl
    | some value =>
      refine (ofPart hself ?_ frame).bind fun v _ => leave rfl
      simp [Node.children, Node.parts]
  | function name params body autoReturn mark =>
    have made (v : Value) : (v.place mark.span frame).MadeBy
        (.function name params body autoReturn mark) frame := .place _ frame v
    cases name with
    | none =>
      exact bind (p := Pure.pure ()) (V := fun _ => True) (pure trivial) fun _ _ => pure (made _)
    | some name => exact (assign frame name _).bind fun _ _ => pure (made _)
  | call callee args mark => exact evalCall hself limit fuel frame
  | block statements mark =>
    refine (evalAll fun node mem => ofPart hself ?_ frame).bind fun _ _ => ?_
    · exact Node.mem_children.2 (.inl mem)
    · exact pure (.place (.block statements mark) frame _)

end Rules

theorem evaluate (limit fuel : Nat) :
    SelfTells (Raised σ limit fuel) (evaluate limit fuel : Evaluator σ) := by
  induction fuel with
  | zero => exact fun _ _ _ => spent
  | succ fuel ih =>
    intro d node frame m counts
    have ended := evalNode ih limit fuel node frame m counts
    have signal : ScriptLang.evaluate limit (fuel + 1) node frame m =
      (ScriptLang.evalNode limit fuel (ScriptLang.evaluate limit fuel) node frame).signal m := rfl
    unfold Eval.signal at signal
    unfold ScriptLang.evaluate
    rw [unwind_signal]
    cases step : ScriptLang.evalNode limit fuel (ScriptLang.evaluate limit fuel) node frame m with
    | done v m' => rw [step] at ended; exact ended
    | spent => trivial
    | exit reason m' =>
      rw [step] at ended signal
      refine ⟨fun e known => ?_, ended.2⟩
      obtain ⟨calls, cause⟩ := ended.1 e known
      exact ⟨calls, ⟨m, m', _, counts, signal, known⟩, cause⟩

end Eval.Tells

end ScriptLang
