import ScriptLang.Proofs.Effect
import ScriptLang.Proofs.Layout.Running

/-! Every rule of evaluation runs a tree and the same tree without places alike. -/
namespace ScriptLang

variable {σ : Type}

namespace Eval.Alike

section Rules

variable {keep : Bool} {self : Evaluator σ} {frame frame' : Frame}

abbrev SelfAlike (keep : Bool) (self : Evaluator σ) : Prop :=
  ∀ t u f g, t.bare = u.bare → f.bare = g.bare →
    Eval.Alike keep SameValue (unwind (self t f)) (unwind (self u g))

theorem evalAll (hself : SelfAlike keep self) (frames : frame.bare = frame'.bare)
    (nodes : List Tree) : Eval.Alike keep (fun vs ws => vs.map Value.bare = ws.map Value.bare)
      (evalAll self frame nodes) (evalAll self frame' (nodes.map Node.bare)) := by
  induction nodes with
  | nil => exact pure rfl
  | cons node rest ih =>
    refine (hself node node.bare _ _ (by simp) frames).bind fun v w head => ?_
    refine ih.bind fun vs ws tail => pure ?_
    have head : v.bare = w.bare := head
    simp [head, tail]

theorem bodyValue {v w : Value} (same : SameValue v w) (suppress : Bool) (span span' : Span)
    (frame frame' : Frame) : SameValue (ScriptLang.bodyValue v suppress span frame)
      (ScriptLang.bodyValue w suppress span' frame') := by
  unfold ScriptLang.bodyValue
  split
  · rfl
  · simpa [SameValue] using same

theorem isTrue {v w : Value} (same : SameValue v w) : v.isTrue = w.isTrue := by
  rw [← Value.isTrue_bare v, same, Value.isTrue_bare]

theorem evalArms (hself : SelfAlike keep self) (frames : frame.bare = frame'.bare)
    (last : Option (Otherwise Tree)) (span span' : Span) (arms : List (Arm Tree)) :
    Eval.Alike keep SameValue (evalArms self last span frame arms)
      (evalArms self (last.map Otherwise.bare) span' frame' (arms.map Arm.bare)) := by
  induction arms with
  | nil =>
    cases last with
    | none => exact pure rfl
    | some last =>
      refine (hself last.body last.body.bare _ _ (by simp) frames).bind fun v w same => ?_
      exact pure (bodyValue same last.suppress span span' frame frame')
  | cons arm rest ih =>
    refine (hself arm.condition arm.condition.bare _ _ (by simp) frames).bind fun v w same => ?_
    rw [isTrue same]
    split
    · refine (hself arm.body arm.body.bare _ _ (by simp) frames).bind fun v w same => ?_
      exact pure (bodyValue same arm.suppress span span' frame frame')
    · exact ih

theorem evalBound (hself : SelfAlike keep self) (frames : frame.bare = frame'.bare)
    (node : Tree) :
    Eval.Alike keep Eq (evalBound self node frame) (evalBound self node.bare frame') := by
  refine (hself node node.bare _ _ (by simp) frames).bind fun v w same => ?_
  have number : v.number? = w.number? := by
    rw [← Value.number?_bare v, same, Value.number?_bare]
  have typeName : v.typeName = w.typeName := by
    rw [← Value.typeName_bare v, same, Value.typeName_bare]
  rw [number, typeName]
  split
  · exact pure rfl
  · exact fail _ _ _ _ _

theorem evalStep (hself : SelfAlike keep self) (frames : frame.bare = frame'.bare)
    (step : Option Tree) : Eval.Alike keep Eq (evalStep self frame step)
      (evalStep self frame' (step.map Node.bare)) := by
  cases step with
  | none => exact pure rfl
  | some node =>
    refine (evalBound hself frames node).bind ?_
    rintro n _ rfl
    split
    · exact fail _ _ _ _ _
    · exact pure rfl

theorem forTurns (hself : SelfAlike keep self) (frames : frame.bare = frame'.bare)
    (name : String) (last step : Number) (body : Tree) (n : Nat) (current : Number)
    {values values' : List Value} (same : values.map Value.bare = values'.map Value.bare) :
    Eval.Alike keep (fun vs ws => vs.map Value.bare = ws.map Value.bare)
      (forTurns self name last step body frame n current values)
      (forTurns self name last step body.bare frame' n current values') := by
  induction n generalizing current values values' with
  | zero => exact spent
  | succ n ih =>
    unfold ScriptLang.forTurns
    split
    · refine (assign frames name rfl).bind fun _ _ _ => ?_
      refine (hself body body.bare _ _ (by simp) frames).turn.bind fun t u turns => ?_
      cases turns with
      | @value v w head =>
        have head : v.bare = w.bare := head
        exact ih _ (by simp [head, same])
      | skip => exact ih _ same
      | stop => exact pure same
    · exact pure same

theorem whileTurns (hself : SelfAlike keep self) (frames : frame.bare = frame'.bare)
    (condition body : Tree) (n : Nat) {values values' : List Value}
    (same : values.map Value.bare = values'.map Value.bare) :
    Eval.Alike keep (fun vs ws => vs.map Value.bare = ws.map Value.bare)
      (whileTurns self condition body frame n values)
      (whileTurns self condition.bare body.bare frame' n values') := by
  induction n generalizing values values' with
  | zero => exact spent
  | succ n ih =>
    refine (hself condition condition.bare _ _ (by simp) frames).bind fun c d cs => ?_
    rw [isTrue cs]
    split
    · refine (hself body body.bare _ _ (by simp) frames).turn.bind fun t u turns => ?_
      cases turns with
      | @value v w head =>
        have head : v.bare = w.bare := head
        exact ih (by simp [head, same])
      | skip => exact ih same
      | stop => exact pure same
    · exact pure same

theorem loopValue {values values' : List Value}
    (same : values.map Value.bare = values'.map Value.bare) (suppress : Bool)
    (span span' : Span) (frame frame' : Frame) :
    SameValue (ScriptLang.loopValue values suppress span frame)
      (ScriptLang.loopValue values' suppress span' frame') := by
  unfold ScriptLang.loopValue
  split
  · rfl
  · simp [SameValue, List.map_reverse, same]

theorem evalFor (hself : SelfAlike keep self) (frames : frame.bare = frame'.bare) (fuel : Nat)
    (name : String) (first last : Tree) (step : Option Tree) (body : Tree) (suppress : Bool)
    (span span' : Span) : Eval.Alike keep SameValue
      (evalFor fuel self name first last step body suppress span frame)
      (evalFor fuel self name first.bare last.bare (step.map Node.bare) body.bare suppress span'
        frame') := by
  refine (evalBound hself frames first).bind ?_
  rintro start _ rfl
  refine (evalBound hself frames last).bind ?_
  rintro stop _ rfl
  refine (evalStep hself frames step).bind ?_
  rintro increment _ rfl
  refine (forTurns hself frames name stop increment body fuel start rfl).bind fun vs ws same => ?_
  exact pure (loopValue same suppress span span' frame frame')

theorem evalFunction (frames : frame.bare = frame'.bare) (name : Option String)
    (params : List String) (body : Tree) (autoReturn : Bool) (mark : Mark) :
    Eval.Alike keep SameValue
      (evalFunction name params body autoReturn mark frame : Eval σ Value)
      (evalFunction name params body.bare autoReturn mark.bare frame') := by
  have made : SameValue
      ((Value.function ⟨mark.index, name, params, body, autoReturn, frame⟩ .none).place
        mark.span frame)
      ((Value.function ⟨mark.bare.index, name, params, body.bare, autoReturn, frame'⟩
        .none).place mark.bare.span frame') := by
    simp [SameValue, Function.bare, frames, Mark.bare]
  cases name with
  | none => exact fun _ _ machines => .done made machines
  | some name => exact (assign frames name made).bind fun _ _ _ => pure made

theorem callFunction (hself : SelfAlike keep self) (limit : Nat) {f g : Function}
    (functions : f.bare = g.bare) {callee callee' : Value} (callees : SameValue callee callee')
    {args args' : List Value} (same : args.map Value.bare = args'.map Value.bare)
    (site site' : Span) (caller caller' : Frame) : Eval.Alike keep SameValue
      (callFunction limit self f callee args site caller)
      (callFunction limit self g callee' args' site' caller') := by
  obtain ⟨-, name, params, body, autoReturn, closure⟩ := Function.bare_eq.1 functions
  have length : args.length = args'.length := by simpa using congrArg List.length same
  have shown : f.displayName = g.displayName := by unfold Function.displayName; rw [name]
  unfold ScriptLang.callFunction
  rw [params, length, shown, (Frame.bare_eq.1 closure).2, autoReturn]
  refine (checkCall limit callees _ _ site site' caller caller').bind fun _ _ _ => ?_
  refine (callFrame _ _ site site' caller caller').bind fun frame frame' frames => ?_
  refine (bindParams frames g.params same).bind fun _ _ _ => ?_
  refine callResult _ _ _ _ _ ?_
  rw [unwind_nested, unwind_nested]
  exact (hself f.body g.body _ _ body frames).nested

inductive SameEnd (keep : Bool) : Option (Except Error Value × Machine σ) →
    Option (Except Error Value × Machine σ) → Prop where
  | ended {r q : Except Error Value} {m n : Machine σ} (ending : SameEnding keep r q)
    (machine : m.Alike keep n) : SameEnd keep (some (r, m)) (some (q, n))
  | spent : SameEnd keep none none

theorem programEnd {x y : Step σ Value} (h : x.Alike keep SameValue y) (span span' : Span)
    (frame frame' : Frame) :
    SameEnd keep (x.programEnd span frame) (y.programEnd span' frame') := by
  cases h with
  | done value machine => exact .ended (.ok value) machine
  | spent => exact .spent
  | exit reason machine =>
    exact .ended (Signal.programResult_alike reason span span' frame frame') machine

theorem runTree (hself : SelfAlike keep self) {t u : Tree} (trees : t.bare = u.bare)
    {m n : Machine σ} (machines : m.Alike keep n) : SameEnd keep
      ((unwind (self t (.root m.frames programName globalScope))
        { m with frames := m.frames + 1 }).programEnd t.span
          (.root m.frames programName globalScope))
      ((unwind (self u (.root n.frames programName globalScope))
        { n with frames := n.frames + 1 }).programEnd u.span
          (.root n.frames programName globalScope)) := by
  refine programEnd (hself t u _ _ trees ?_ _ _ ?_) _ _ _ _
  · exact Frame.bare_eq.2 ⟨machines.frames, rfl⟩
  · exact ⟨Machine.bare_eq.2 ⟨machines.store, machines.host, machines.depth,
      by rw [machines.frames]⟩, machines.offline⟩

theorem runSource (hself : SelfAlike keep self) (source : Source) {m n : Machine σ}
    (machines : m.Alike keep n) :
    SameEnd keep (runSource self source m) (runSource self source n) := by
  rw [runSource_eq, runSource_eq]
  split
  · exact .ended (.error rfl) machines
  · exact runTree hself rfl machines

theorem runScript_missing {path reason : String} {m : Machine σ}
    (missing : (m.host.load path).1 = .error reason) (site : Span) (frame : Frame) :
    ScriptLang.runScript self path site frame m =
      Eval.fail (.scriptUnreadable path reason) site frame
        { m with host := (m.host.load path).2 } := by
  change Eval.bind (ScriptLang.onHost (Host.fetch path) site frame) _ m = _
  unfold Eval.bind ScriptLang.onHost Host.fetch
  rw [missing]
  rfl

theorem runScript_offline (path : String) (site site' : Span) (frame frame' : Frame) :
    Eval.Alike true SameValue (runScript self path site frame)
      (runScript self path site' frame') := by
  intro m n machines
  have offline := machines.offline rfl
  obtain ⟨reason, missing⟩ := offline _ .refl path
  rw [runScript_missing missing, runScript_missing (machines.host ▸ missing)]
  refine .exit rfl ⟨Machine.bare_eq.2 ⟨machines.store, ?_, machines.depth, machines.frames⟩, ?_⟩
  · rw [machines.host]
  · exact fun _ => offline.leads (Host.leads_load _ path)

/-- The report of a script that fails shows places, so it is not compared. -/
theorem runScript_reportless (hself : SelfAlike false self) (path : String) (site site' : Span)
    (frame frame' : Frame) : Eval.Alike false SameValue (runScript self path site frame)
      (runScript self path site' frame') := by
  refine (onHost Host.fetch_leads site site' frame frame').bind ?_
  rintro text _ rfl m n machines
  have ends := runSource hself ⟨path, text⟩ machines
  dsimp only
  generalize ScriptLang.runSource self ⟨path, text⟩ m = left at ends ⊢
  generalize ScriptLang.runSource self ⟨path, text⟩ n = right at ends ⊢
  cases ends with
  | ended ending machine =>
    cases ending with
    | ok value => exact .done rfl machine
    | error errors => exact .exit rfl machine
  | spent => exact .spent

theorem runScript (hself : SelfAlike keep self) (path : String) (site site' : Span)
    (frame frame' : Frame) : Eval.Alike keep SameValue (runScript self path site frame)
      (runScript self path site' frame') := by
  cases keep with
  | true => exact runScript_offline path site site' frame frame'
  | false => exact runScript_reportless hself path site site' frame frame'

abbrev SameResult (a b : Value × Option Value) : Prop :=
  SameValue a.1 b.1 ∧ a.2.map Value.bare = b.2.map Value.bare

theorem nothing : SameResult (.null, none) (.null, none) := ⟨rfl, rfl⟩

theorem execute_asking (b : Builtin) (asks : b = .input ∨ b = .inputInt ∨ b = .clear)
    (args args' : List Value) (site site' : Span) (frame frame' : Frame) :
    Eval.Alike keep SameResult (ScriptLang.execute fuel self b args site frame)
      (ScriptLang.execute fuel self b args' site' frame') := by
  obtain rfl | rfl | rfl := asks
  · refine (onHost Host.ask_serves.leads site site' frame frame').bind ?_
    rintro line _ rfl
    exact pure ⟨rfl, rfl⟩
  · refine (onHost (Host.askInteger_serves fuel).leads site site' frame frame').bind ?_
    rintro n _ rfl
    exact pure ⟨rfl, rfl⟩
  · exact (onHost Host.wipe_serves.leads site site' frame frame').bind
      fun _ _ _ => pure nothing

theorem execute_one (hself : SelfAlike keep self) (b : Builtin) {v w : Value}
    (same : SameValue v w) (site site' : Span) (frame frame' : Frame) :
    Eval.Alike keep SameResult (ScriptLang.execute fuel self b [v] site frame)
      (ScriptLang.execute fuel self b [w] site' frame') := by
  have shown : v.display = w.display := by rw [← Value.display_bare v, same, Value.display_bare]
  cases b with
  | print =>
    change Eval.Alike keep SameResult (ScriptLang.onHost (Host.print v.display) site frame >>= _)
      (ScriptLang.onHost (Host.print w.display) site' frame' >>= _)
    rw [shown]
    exact (onHost (Host.print_serves _).leads site site' frame frame').bind
      fun _ _ _ => pure nothing
  | printRet => exact pure ⟨by simp [SameValue, shown], rfl⟩
  | input | inputInt | clear => exact execute_asking _ (by simp) _ _ site site' frame frame'
  | isNumber | isString | isList | isFunction => cases same.form <;> exact pure ⟨rfl, rfl⟩
  | append | pop | extend => exact pure nothing
  | len =>
    cases same.form with
    | @list vs ws elements t u =>
      have length : vs.length = ws.length := by simpa using congrArg List.length elements
      exact pure ⟨by simp [SameValue, Value.int, length], rfl⟩
    | _ => exact fail _ _ _ _ _
  | run =>
    cases same.form with
    | string path t u =>
      exact (runScript hself path site site' frame frame').bind fun _ _ h => pure ⟨h, rfl⟩
    | _ => exact fail _ _ _ _ _

theorem execute_surplus (b : Builtin) (single : b = .len ∨ b = .run) (v w : Value)
    (rest : List Value) (site : Span) (frame : Frame) :
    ScriptLang.execute fuel self b (v :: w :: rest) site frame = Pure.pure (.null, none) := by
  obtain rfl | rfl := single <;> cases v <;> rfl

theorem execute_two (b : Builtin) {v w x y : Value} (first : SameValue v w)
    (second : SameValue x y) (site site' : Span) (frame frame' : Frame) :
    Eval.Alike keep SameResult (ScriptLang.execute fuel self b [v, x] site frame)
      (ScriptLang.execute fuel self b [w, y] site' frame') := by
  have first : v.bare = w.bare := first
  have second : x.bare = y.bare := second
  cases b with
  | input | inputInt | clear => exact execute_asking _ (by simp) _ _ site site' frame frame'
  | append =>
    refine (orFail Value.bare ?_ site site' frame frame').bind fun a b same => ?_
    · rw [← Value.append_bare, first, second, Value.append_bare]
    · exact pure ⟨rfl, congrArg some same⟩
  | extend =>
    refine (orFail Value.bare ?_ site site' frame frame').bind fun a b same => ?_
    · rw [← Value.extend_bare, first, second, Value.extend_bare]
    · exact pure ⟨rfl, congrArg some same⟩
  | pop =>
    refine (orFail (fun p : Value × Value => (p.1.bare, p.2.bare)) ?_ site site' frame
      frame').bind ?_
    · rw [← Value.pop_bare, first, second, Value.pop_bare]
    · rintro ⟨taken, rest⟩ ⟨taken', rest'⟩ same
      obtain ⟨takes, rests⟩ := Prod.mk.inj same
      exact pure ⟨takes, congrArg some rests⟩
  | len | run =>
    rw [execute_surplus _ (by simp), execute_surplus _ (by simp)]
    exact pure nothing
  | _ => exact pure nothing

theorem execute (hself : SelfAlike keep self) (b : Builtin) {args args' : List Value}
    (same : args.map Value.bare = args'.map Value.bare) (site site' : Span)
    (frame frame' : Frame) : Eval.Alike keep SameResult
      (execute fuel self b args site frame) (execute fuel self b args' site' frame') := by
  have length : args.length = args'.length := by simpa using congrArg List.length same
  match args, args', same, length with
  | [], [], _, _ =>
    cases b with
    | input | inputInt | clear => exact execute_asking _ (by simp) _ _ site site' frame frame'
    | _ => exact pure nothing
  | [v], [w], same, _ =>
    exact execute_one hself b (List.cons.inj same).1 site site' frame frame'
  | [v, x], [w, y], same, _ =>
    obtain ⟨first, rest⟩ := List.cons.inj same
    exact execute_two b first (List.cons.inj rest).1 site site' frame frame'
  | _ :: _ :: _ :: _, _ :: _ :: _ :: _, _, _ =>
    cases b with
    | input | inputInt | clear => exact execute_asking _ (by simp) _ _ site site' frame frame'
    | len | run =>
      rw [execute_surplus _ (by simp), execute_surplus _ (by simp)]
      exact pure nothing
    | _ => exact pure nothing

theorem target?_bare (nodes : List Tree) : target? (nodes.map Node.bare) = target? nodes := by
  cases nodes with
  | nil => rfl
  | cons node rest => cases node <;> simp [target?]

theorem callBuiltin (hself : SelfAlike keep self) (limit fuel : Nat) (b : Builtin)
    {callee callee' : Value} (callees : SameValue callee callee') {args args' : List Value}
    (same : args.map Value.bare = args'.map Value.bare) (nodes : List Tree) (site site' : Span)
    {caller caller' : Frame} (callers : caller.bare = caller'.bare) :
    Eval.Alike keep SameValue (callBuiltin limit fuel self b callee args nodes site caller)
      (callBuiltin limit fuel self b callee' args' (nodes.map Node.bare) site' caller') := by
  have length : args.length = args'.length := by simpa using congrArg List.length same
  unfold ScriptLang.callBuiltin
  rw [length, target?_bare]
  refine (checkCall limit callees _ _ site site' caller caller').bind fun _ _ _ => ?_
  refine (plainFrame b.name site site' callers).bind fun frame frame' _ => ?_
  refine (execute hself b same site site' frame frame').nested.bind ?_
  rintro ⟨result, changed⟩ ⟨result', changed'⟩ ⟨results, changes⟩
  cases changed <;> cases changed' <;> cases target? nodes <;> first
    | exact pure results
    | exact (reassign callers _ (Option.some.inj changes)).bind fun _ _ _ => pure results
    | cases changes

theorem evalCall (hself : SelfAlike keep self) (frames : frame.bare = frame'.bare)
    (limit fuel : Nat) (callee : Tree) (args : List Tree) (span span' : Span) :
    Eval.Alike keep SameValue (evalCall limit fuel self callee args span frame)
      (evalCall limit fuel self callee.bare (args.map Node.bare) span' frame') := by
  refine (hself callee callee.bare _ _ (by simp) frames).bind fun f g callees => ?_
  refine (evalAll hself frames args).bind fun vs ws same => ?_
  have callees : SameValue (f.place span frame) (g.place span' frame') := by
    simpa [SameValue] using callees
  generalize f.place span frame = f at callees ⊢
  generalize g.place span' frame' = g at callees ⊢
  cases callees.form with
  | function functions t u =>
    refine (callFunction hself limit functions callees same span span' frame frame').bind ?_
    exact fun v w results => pure (by simpa [SameValue] using results)
  | builtin b t u =>
    refine (callBuiltin hself limit fuel b callees same args span span' frames).bind ?_
    exact fun v w results => pure (by simpa [SameValue] using results)
  | _ => exact fail _ _ _ _ _

theorem evalNode (hself : SelfAlike keep self) (frames : frame.bare = frame'.bare)
    (limit fuel : Nat) (t : Tree) : Eval.Alike keep SameValue (evalNode limit fuel self t frame)
      (evalNode limit fuel self t.bare frame') := by
  have part (u : Tree) :
      Eval.Alike keep SameValue (unwind (self u frame)) (unwind (self u.bare frame')) :=
    hself u u.bare _ _ (by simp) frames
  cases t with
  | number n mark =>
    rw [Node.bare_number]
    exact pure (by simp [SameValue])
  | string s mark =>
    rw [Node.bare_string]
    exact pure (by simp [SameValue])
  | list elements mark =>
    rw [Node.bare_list]
    exact (evalAll hself frames elements).bind fun vs ws same => pure (by simp [SameValue, same])
  | block statements mark =>
    rw [Node.bare_block]
    exact (evalAll hself frames statements).bind fun vs ws same => pure (by simp [SameValue, same])
  | access name mark =>
    rw [Node.bare_access]
    refine (lookup frames name).bind fun found found' same => ?_
    cases found <;> cases found' <;> first
      | exact fail _ _ _ _ _
      | exact pure (by simpa [SameValue] using same)
      | cases same
  | assign name value mark =>
    rw [Node.bare_assign]
    refine (part value).bind fun v w same => ?_
    exact (assign frames name same).bind fun _ _ _ => pure same
  | unary op operand mark =>
    rw [Node.bare_unary]
    refine (part operand).bind fun v w same => lift ?_ _ _ _ _
    rw [← Value.apply_bare_unary, same, Value.apply_bare_unary]
  | binary op left right mark =>
    rw [Node.bare_binary]
    refine (part left).bind fun a a' lefts => ?_
    refine (part right).bind fun b b' rights => lift ?_ _ _ _ _
    rw [← Value.apply_bare, lefts, rights, Value.apply_bare]
  | cond arms last mark =>
    rw [Node.bare_cond]
    exact evalArms hself frames last _ _ arms
  | forLoop name first last step body suppress mark =>
    rw [Node.bare_forLoop]
    exact evalFor hself frames fuel name first last step body suppress _ _
  | whileLoop condition body suppress mark =>
    rw [Node.bare_whileLoop]
    refine (whileTurns hself frames condition body fuel rfl).bind fun vs ws same => ?_
    exact pure (loopValue same suppress _ _ frame frame')
  | breaks mark =>
    rw [Node.bare_breaks]
    exact leave rfl
  | continues mark =>
    rw [Node.bare_continues]
    exact leave rfl
  | returns value mark =>
    rw [Node.bare_returns]
    cases value with
    | none => exact leave rfl
    | some value =>
      refine (part value).bind fun v w same => leave ?_
      have same : v.bare = w.bare := same
      simp only [Signal.bare, Option.map_some, same]
  | function name params body autoReturn mark =>
    rw [Node.bare_function]
    exact evalFunction frames name params body autoReturn mark
  | call callee args mark =>
    rw [Node.bare_call]
    exact evalCall hself frames limit fuel callee args _ _

end Rules

theorem evaluate (keep : Bool) (limit fuel : Nat) :
    SelfAlike keep (evaluate limit fuel : Evaluator σ) := by
  induction fuel with
  | zero => exact fun _ _ _ _ _ _ => spent
  | succ fuel ih =>
    intro t u f g trees frames
    unfold ScriptLang.evaluate
    rw [unwind_signal, unwind_signal]
    refine common (evalNode ih frames limit fuel t) ?_
    rw [trees]
    exact evalNode ih rfl limit fuel u

end Eval.Alike

end ScriptLang
