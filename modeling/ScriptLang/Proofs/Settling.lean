import ScriptLang.Proofs.Number.Range
import ScriptLang.Proofs.Settling.Basic

/-! Programs that come to an end. A program without unbounded loops can go on for long only by
calls, and calls may go no deeper than the limit. Inside one call a tree is evaluated by way of
smaller trees; the body of a function, wherever it is kept, and a script, whatever its text, are
evaluated one call deeper. -/
namespace ScriptLang

variable {σ : Type}

open Eval

theorem inRange_int (first last : Int64) :
    inRange (.int first) (.int last) (.int 1) = decide (first.toInt < last.toInt) := by
  rw [Bool.eq_iff_iff, inRange_iff_ahead (by decide), decide_eq_true_iff]
  simp [Ahead]

theorem Number.add_one {first last : Int64} (below : first.toInt < last.toInt) :
    ∃ next : Int64, Number.add (.int first) (.int 1) = .int next ∧
      next.toInt = first.toInt + 1 := by
  have low := first.le_toInt
  have high := last.toInt_lt
  have one := Int64.toInt_one
  obtain ⟨next, eq, up⟩ := Number.add_of_fits (a := first) (s := 1) (by omega) (by omega)
  exact ⟨next, eq, by omega⟩

namespace Eval.Settles

variable {d : Nat}

section Rules

variable {self : Nat → Evaluator σ} {limit : Nat} {frame : Frame}

abbrev Settled (self : Nat → Evaluator σ) (d : Nat) (node : Tree) : Prop :=
  ∀ frame, Settles d Value.Paced fun fuel => unwind (self fuel node frame)

theorem evalAll {nodes : List Tree} (h : ∀ node ∈ nodes, Settled self d node) :
    Settles d (∀ v ∈ ·, Value.Paced v) fun fuel => ScriptLang.evalAll (self fuel) frame nodes := by
  induction nodes with
  | nil => exact pure nofun
  | cons node nodes ih =>
    have ⟨first, rest⟩ := List.forall_mem_cons.1 h
    apply (first frame).bind
    intro v hv
    apply (ih rest).bind
    intro vs hvs
    exact pure (hv.cons hvs)

theorem bodyValue {v : Value} (hv : v.Paced) (suppress : Bool) (span : Span) :
    (bodyValue v suppress span frame).Paced := by
  cases suppress with
  | true => exact .null
  | false => exact hv.place span frame

theorem evalArms {arms : List (Arm Tree)} {last : Option (Otherwise Tree)} (span : Span)
    (harms : ∀ arm ∈ arms, Settled self d arm.condition ∧ Settled self d arm.body)
    (hlast : ∀ o ∈ last, Settled self d o.body) :
    Settles d Value.Paced fun fuel => ScriptLang.evalArms (self fuel) last span frame arms := by
  induction arms with
  | nil =>
    cases last with
    | none => exact pure .null
    | some o =>
      apply (hlast o rfl frame).bind
      intro v hv
      exact pure (bodyValue hv o.suppress span)
  | cons arm arms ih =>
    have ⟨⟨condition, body⟩, rest⟩ := List.forall_mem_cons.1 harms
    apply (condition frame).bind
    intro c _
    split
    · apply (body frame).bind
      intro v hv
      exact pure (bodyValue hv arm.suppress span)
    · exact ih rest

theorem evalBound {n : Int64} {mark : Mark}
    (literal : Settles d (·.number? = some (.int n)) fun fuel =>
      unwind (self fuel (.number (.int n) mark) frame)) :
    Settles d (· = .int n) fun fuel =>
      ScriptLang.evalBound (self fuel) (.number (.int n) mark) frame := by
  apply literal.bind
  intro v eq
  rw [eq]
  exact pure rfl

/-- A loop that counts up ends after as many turns as there are numbers between its bounds. -/
theorem forTurns {body : Tree} (h : Settled self d body) (name : String) (first last : Int64)
    (used : Nat) {values : List Value} (hvs : ∀ v ∈ values, v.Paced) :
    Settles d (∀ v ∈ ·, Value.Paced v) fun fuel =>
      ScriptLang.forTurns (self (fuel + used)) name (.int last) (.int 1) body frame fuel
        (.int first) values := by
  obtain ⟨left, count⟩ : ∃ left : Nat, last.toInt - first.toInt ≤ left := ⟨_, Int.self_le_toNat _⟩
  induction left generalizing first used values with
  | zero =>
    apply later rfl
    unfold ScriptLang.forTurns
    rw [inRange_int, decide_eq_false (by omega)]
    exact pure hvs
  | succ left ih =>
    apply later rfl
    unfold ScriptLang.forTurns
    by_cases within : first.toInt < last.toInt
    · obtain ⟨next, eq, up⟩ := Number.add_one within
      have less : last.toInt - next.toInt ≤ left := by omega
      simp only [inRange_int, decide_eq_true within, if_true, eq, Nat.add_assoc]
      apply (assign frame name (.number _ _)).bind
      intro _ _
      apply ((h frame).shift (1 + used)).turn.bind
      intro t ht
      cases t with
      | value v => exact ih next (1 + used) (Value.Holds.cons ht hvs) less
      | skip => exact ih next (1 + used) hvs less
      | stop => exact pure hvs
    · simp only [inRange_int, decide_eq_false within]
      exact pure hvs

theorem evalFor {first last : Int64} {mark mark' : Mark}
    (literal : ∀ n mark, Settles d (·.number? = some (.int n)) fun fuel =>
      unwind (self fuel (.number (.int n) mark) frame))
    {body : Tree} (h : Settled self d body) (name : String) (suppress : Bool) (span : Span) :
    Settles d Value.Paced fun fuel =>
      ScriptLang.evalFor fuel (self fuel) name (.number (.int first) mark)
        (.number (.int last) mark') none body suppress span frame := by
  apply (evalBound (literal first mark)).bind
  intro start eq
  apply (evalBound (literal last mark')).bind
  intro stop eq'
  subst eq eq'
  apply (pure (A := (· = .int 1)) rfl).bind
  intro step eq
  subst eq
  have empty : ∀ v ∈ ([] : List Value), v.Paced := nofun
  apply (forTurns h name first last 0 empty).bind
  intro values hvs
  apply pure
  cases suppress with
  | true => exact .null
  | false => exact .list (fun v mem => hvs v (List.mem_reverse.1 mem)) _

abbrev Deeper (self : Nat → Evaluator σ) (limit d : Nat) : Prop :=
  d < limit → ∀ body : Tree, body.Paced → Settled self (d + 1) body

theorem callFunction (deeper : Deeper self limit d) {f : Function} (hf : f.Paced)
    (callee : Value) {args : List Value} (hargs : ∀ v ∈ args, v.Paced) (site : Span)
    (caller : Frame) : Settles d Value.Paced fun fuel =>
      ScriptLang.callFunction limit (self fuel) f callee args site caller := by
  apply (checkCall limit callee _ _ site caller).bind
  intro _ room
  have frames : Settles d (fun _ => True) fun _ =>
      (callFrame f.displayName f.closure.scope site caller : Eval σ Frame) :=
    atOnce fun m paced => ⟨trivial, paced.depth, paced.store.push _, paced.host, paced.input⟩
  apply frames.bind
  intro frame _
  apply (bindParams frame f.params hargs).bind
  intro _ _
  apply callResult
  simp only [unwind_nested]
  exact (deeper room f.body hf frame).nested

theorem runSource {source : Source} (paced : source.Paced)
    (h : ∀ tree : Tree, tree.Paced → Settled self d tree) {m : Machine σ} (hm : m.Paced d) :
    ∃ n result m', m'.Paced d ∧ ∀ fuel, ScriptLang.runSource (self fuel) source m =
      if n ≤ fuel then some (result, m') else none := by
  simp only [runSource_eq]
  cases read : source.tree with
  | error e => exact ⟨0, .error e, m, hm, fun _ => rfl⟩
  | ok tree =>
    let frame := Frame.root m.frames programName globalScope
    have hm' : Machine.Paced d { m with frames := m.frames + 1 } :=
      ⟨hm.depth, hm.store, hm.host, hm.input⟩
    obtain ⟨n, x, ends, steps⟩ := h tree (paced tree read) frame _ hm'
    obtain ⟨result, m', eq, hm''⟩ : ∃ result m',
        x.programEnd tree.span frame = some (result, m') ∧ m'.Paced d := by
      cases x with
      | done v m' => exact ⟨_, m', rfl, ends.2⟩
      | exit e m' => exact ⟨_, m', rfl, ends.2⟩
      | spent => exact ends.elim
    refine ⟨n, result, m', hm'', fun fuel => ?_⟩
    have stepped : unwind (self fuel tree frame) { m with frames := m.frames + 1 } =
        if n ≤ fuel then x else .spent := steps fuel
    change (unwind (self fuel tree frame) { m with frames := m.frames + 1 }).programEnd _ frame = _
    rw [stepped]
    split
    · exact eq
    · rfl

theorem runScript (h : ∀ tree : Tree, tree.Paced → Settled self d tree) (path : String)
    (site : Span) :
    Settles d Value.Paced fun fuel => ScriptLang.runScript (self fuel) path site frame := by
  apply (fetch path site frame).bind
  intro text paced m hm
  obtain ⟨n, result, m', hm', steps⟩ := runSource paced h hm
  cases result with
  | ok v =>
    refine ⟨n, .done .null m', ⟨.null, hm'⟩, fun fuel => ?_⟩
    dsimp only
    rw [steps]
    by_cases enough : n ≤ fuel
    · rw [if_pos enough, if_pos enough]
    · rw [if_neg enough, if_neg enough]
  | error e =>
    refine ⟨n, Eval.fail (.scriptFailed path e.render) site frame m', ⟨⟨nofun, nofun⟩, hm'⟩,
      fun fuel => ?_⟩
    dsimp only
    rw [steps]
    by_cases enough : n ≤ fuel
    · rw [if_pos enough, if_pos enough]
    · rw [if_neg enough, if_neg enough]

abbrev PacedPair (r : Value × Option Value) : Prop := r.1.Paced ∧ ∀ v ∈ r.2, Value.Paced v

theorem execute_atOnce {b : Builtin} {args : List Value} (hargs : ∀ v ∈ args, v.Paced)
    (other : ¬ ∃ path t, b = .run ∧ args = [.string path t]) (asks : b ≠ .inputInt) (site : Span) :
    Settles d PacedPair fun _ =>
      (ScriptLang.execute 0 (fun _ _ _ => none) b args site frame : Eval σ _) := by
  have plain {v : Value} (hv : v.Paced) : PacedPair (v, none) := ⟨hv, nofun⟩
  unfold ScriptLang.execute
  split
  case h_1 v =>
    have serves (_ : Nat) : Host.Ask.Serves (Host.print v.display : Host.Ask σ Unit) :=
      Host.print_serves v.display
    exact (onHost serves (fun _ _ => .atOnce _) site frame).bind fun _ _ => pure (plain .null)
  case h_2 => exact pure (plain (.string _ _))
  case h_3 =>
    have answers (h : Host σ) (_ : h.FiniteInput) : Host.Answers fun _ : Nat => Host.ask h := by
      unfold Host.ask
      split <;> exact .atOnce _
    exact (onHost (fun _ => Host.ask_serves) answers site frame).bind fun _ _ =>
      pure (plain (.string _ _))
  case h_4 => exact absurd rfl asks
  case h_5 =>
    exact (onHost (fun _ => Host.wipe_serves) (fun _ _ => .atOnce _) site frame).bind fun _ _ =>
      pure (plain .null)
  case h_6 | h_7 | h_8 | h_9 | h_13 => exact pure (plain (.number _ _))
  case h_10 first v =>
    have ⟨hfirst, rest⟩ := List.forall_mem_cons.1 hargs
    have hv := List.forall_mem_singleton.1 rest
    apply (orFail (A := Value.Paced) (fun w => hfirst.of_append hv) site frame).bind
    intro w hw
    exact pure ⟨.null, by rintro _ ⟨⟩; exact hw⟩
  case h_11 first v =>
    have ⟨hfirst, _⟩ := List.forall_mem_cons.1 hargs
    apply (orFail (A := fun r : Value × Value => r.1.Paced ∧ r.2.Paced)
      (fun r => hfirst.of_pop) site frame).bind
    intro r hr
    exact pure ⟨hr.1, by rintro _ ⟨⟩; exact hr.2⟩
  case h_12 first v =>
    have ⟨hfirst, rest⟩ := List.forall_mem_cons.1 hargs
    have hv := List.forall_mem_singleton.1 rest
    apply (orFail (A := Value.Paced) (fun w => hfirst.of_extend hv) site frame).bind
    intro w hw
    exact pure ⟨.null, by rintro _ ⟨⟩; exact hw⟩
  case h_14 | h_16 => exact fail _ _ _
  case h_15 => exact absurd ⟨_, _, rfl, rfl⟩ other
  case h_17 => exact pure (plain .null)

theorem execute (h : ∀ tree : Tree, tree.Paced → Settled self d tree) (b : Builtin)
    {args : List Value} (hargs : ∀ v ∈ args, v.Paced) (site : Span) :
    Settles d PacedPair fun fuel => ScriptLang.execute fuel (self fuel) b args site frame := by
  by_cases run : ∃ path t, b = .run ∧ args = [.string path t]
  · obtain ⟨path, t, rfl, rfl⟩ := run
    apply (runScript h path site).bind
    intro v hv
    exact pure ⟨hv, nofun⟩
  · by_cases asks : b = .inputInt
    · subst asks
      exact (onHost Host.askInteger_serves (fun _ finite => finite.answers) site frame).bind
        fun _ _ => pure ⟨.number _ _, nofun⟩
    · have same (fuel : Nat) : ScriptLang.execute fuel (self fuel) b args site frame =
          ScriptLang.execute 0 (fun _ _ _ => none) b args site frame :=
        (execute_eq run fuel _ _ site frame).trans (execute_turns asks fuel 0 _ args site frame)
      simp only [same]
      exact execute_atOnce hargs run asks site

theorem callBuiltin (deeper : Deeper self limit d) (b : Builtin) (callee : Value)
    {args : List Value} (hargs : ∀ v ∈ args, v.Paced) (nodes : List Tree) (site : Span)
    (caller : Frame) : Settles d Value.Paced fun fuel =>
      ScriptLang.callBuiltin limit fuel (self fuel) b callee args nodes site caller := by
  apply (checkCall limit callee _ _ site caller).bind
  intro _ room
  have frames : Settles d (fun _ => True) fun _ =>
      (plainFrame b.name site caller : Eval σ Frame) :=
    atOnce fun m paced => ⟨trivial, paced.depth, paced.store, paced.host, paced.input⟩
  apply frames.bind
  intro frame _
  apply (execute (deeper room) b hargs site).nested.bind
  intro r hr
  obtain ⟨result, changed⟩ := r
  cases changed with
  | none => exact pure hr.1
  | some v =>
    cases target? nodes with
    | none => exact pure hr.1
    | some name => exact (reassign caller name (hr.2 v rfl)).bind fun _ _ => pure hr.1

theorem evalCall (deeper : Deeper self limit d) {callee : Tree} (hcallee : Settled self d callee)
    {args : List Tree} (hargs : ∀ node ∈ args, Settled self d node) (span : Span) :
    Settles d Value.Paced fun fuel =>
      ScriptLang.evalCall limit fuel (self fuel) callee args span frame := by
  apply (hcallee frame).bind
  intro c hc
  apply (evalAll hargs).bind
  intro values hvalues
  have called := hc.place span frame
  generalize c.place span frame = v at called
  cases called with
  | function hf t =>
    apply (callFunction deeper hf _ hvalues span frame).bind
    intro v hv
    exact pure (hv.place span frame)
  | builtin b t =>
    apply (callBuiltin deeper b _ hvalues args span frame).bind
    intro v hv
    exact pure (hv.place span frame)
  | number n t => exact fail _ _ _
  | string s t => exact fail _ _ _
  | list elements t => exact fail _ _ _

theorem evalNode {node : Tree} (paced : node.Paced)
    (literal : ∀ n mark, Settles d (·.number? = some (.int n)) fun fuel =>
      unwind (self fuel (.number (.int n) mark) frame))
    (parts : ∀ q ∈ node.children, Settled self d q) (deeper : Deeper self limit d) :
    Settles d Value.Paced fun fuel => ScriptLang.evalNode limit fuel (self fuel) node frame := by
  cases node with
  | number n mark => exact pure (.number _ _)
  | string s mark => exact pure (.string _ _)
  | list elements mark | block elements mark =>
    apply (evalAll fun node mem => parts node (List.mem_append_left _ mem)).bind
    intro vs hvs
    exact pure (.list hvs _)
  | access name mark =>
    apply (lookup frame name).bind
    intro found held
    cases found with
    | none => exact fail _ _ _
    | some v => exact pure ((held v rfl).place mark.span frame)
  | assign name value mark =>
    apply (parts value (.head _) frame).bind
    intro v hv
    exact (assign frame name hv).bind fun _ _ => pure hv
  | unary op operand mark =>
    apply (parts operand (.head _) frame).bind
    intro v hv
    exact lift (fun w eq => hv.apply_unary eq) mark.span frame
  | binary op left right mark =>
    apply (parts left (.head _) frame).bind
    intro a ha
    apply (parts right (.tail _ (.head _)) frame).bind
    intro b hb
    exact lift (fun w eq => ha.apply hb eq) mark.span frame
  | cond arms last mark =>
    have mem_parts {q : Tree} (mem : q ∈ Node.parts (.cond arms last mark)) : Settled self d q :=
      parts q (List.mem_append_left _ mem)
    apply evalArms
    · intro arm mem
      have both (q : Tree) (mem' : q ∈ [arm.condition, arm.body]) : Settled self d q :=
        mem_parts (List.mem_append_left _ (List.mem_flatMap.2 ⟨arm, mem, mem'⟩))
      exact ⟨both _ (.head _), both _ (.tail _ (.head _))⟩
    · intro o eq
      cases eq
      exact mem_parts (List.mem_append_right _ (.head _))
  | forLoop name first last step body suppress mark =>
    have hbody : Settled self d body := parts body (List.mem_append_right _ (.head _))
    have counts := paced.own
    unfold Node.counts at counts
    split at counts
    · cases counts
    · next eq =>
      cases eq
      exact evalFor literal hbody name suppress mark.span
    · cases counts
    · next other => exact absurd rfl (other _ _ _ _ _ _ _)
  | whileLoop condition body suppress mark => cases paced.own
  | breaks mark | continues mark => exact leave ⟨nofun, nofun⟩
  | returns value mark =>
    cases value with
    | none => exact leave ⟨nofun, by rintro _ ⟨⟩; exact .null⟩
    | some value =>
      apply (parts value (.head _) frame).bind
      intro v hv
      exact leave ⟨nofun, by rintro _ ⟨⟩; exact hv⟩
  | function name params body autoReturn mark =>
    have made : (Value.function ⟨mark.index, name, params, body, autoReturn, frame⟩ .none).Paced :=
      .function (paced.child (.head _)) _
    have value := made.place mark.span frame
    cases name with
    | none => exact pure value
    | some name => exact (assign frame name value).bind fun _ _ => pure value
  | call callee args mark =>
    apply evalCall deeper (parts callee (.head _))
    exact fun node mem => parts node (List.mem_append_left _ (.tail _ mem))

end Rules

/-- Inside one call, by induction on the tree. -/
theorem evaluate_of_deeper {limit d : Nat}
    (deeper : Deeper (evaluate limit : Nat → Evaluator σ) limit d) {node : Tree}
    (paced : node.Paced) : Settled (evaluate limit : Nat → Evaluator σ) d node := by
  have step (node : Tree) (frame : Frame) (fuel : Nat) :
      unwind (ScriptLang.evaluate limit (fuel + 1) node frame) =
        (ScriptLang.evalNode limit fuel (ScriptLang.evaluate limit fuel) node frame :
          Eval σ Value) :=
    unwind_signal _
  induction paced with
  | @mk node own children ih =>
    intro frame
    apply later rfl
    simp only [step]
    apply evalNode (.mk own children) _ ih deeper
    intro n mark
    apply later rfl
    simp only [step]
    exact pure rfl

/-- From call to call, by induction on how many more there may be. -/
theorem evaluate (limit d : Nat) {node : Tree} (paced : node.Paced) :
    Settled (evaluate limit : Nat → Evaluator σ) d node := by
  obtain ⟨more, room⟩ : ∃ more, limit ≤ d + more := ⟨limit, Nat.le_add_left _ _⟩
  induction more generalizing d node with
  | zero =>
    have full : Deeper (ScriptLang.evaluate limit : Nat → Evaluator σ) limit d :=
      fun below => by omega
    exact evaluate_of_deeper full paced
  | succ more ih =>
    have deeper : Deeper (ScriptLang.evaluate limit : Nat → Evaluator σ) limit d :=
      fun _ body hbody => ih (d + 1) hbody (by omega)
    exact evaluate_of_deeper deeper paced

end Eval.Settles

/-- Sessions that came about by running such texts, on a host that hands out no other scripts and
only finitely many lines. -/
inductive Session.Paced : Session σ → Prop where
  | start (config : Config) {host : Host σ} (h : host.Paced) (input : host.FiniteInput) :
    Paced (.start config host)
  | ran {s s' : Session σ} (earlier : s.Paced) {source : Source} (h : source.Paced) {fuel : Nat}
    {result : Except Error Value} (run : s.runSource fuel source = some (result, s')) : Paced s'

theorem Session.runSource_settles {s : Session σ} (paced : s.machine.Paced 0) {source : Source}
    (h : source.Paced) : ∃ n result s', s'.machine.Paced 0 ∧
      ∀ fuel, s.runSource fuel source = if n ≤ fuel then some (result, s') else none := by
  obtain ⟨n, result, m, hm, steps⟩ :=
    Eval.Settles.runSource h (fun _ => Eval.Settles.evaluate s.config.maxDepth 0) paced
  refine ⟨n, result, { s with machine := m }, hm, fun fuel => ?_⟩
  unfold Session.runSource
  rw [steps]
  split
  · rfl
  · rfl

theorem Session.Paced.machine {s : Session σ} (paced : s.Paced) : s.machine.Paced 0 := by
  induction paced with
  | start config h input => exact ⟨rfl, .globals, h, input⟩
  | @ran s s' _ source h fuel result run ih =>
    obtain ⟨n, result', s'', hm, steps⟩ := Session.runSource_settles ih h
    rw [steps] at run
    split at run
    · cases run
      exact hm
    · cases run

/-- Whatever was run before, however the program calls itself, its functions, those it keeps in
variables and its own text by `RUN`, however the host changes, and whatever the limit on active
calls: it takes a certain number of steps, no more lead anywhere else, and no fewer lead to an
end. -/
theorem run_ends {s : Session σ} (paced : s.Paced) {text : String}
    (h : Source.Paced ⟨s.config.sourceName, text⟩) : ∃ n result s',
      ∀ fuel, s.run fuel text = if n ≤ fuel then some (result, s') else none := by
  obtain ⟨n, result, s', _, steps⟩ := Session.runSource_settles paced.machine h
  exact ⟨n, result, s', steps⟩

/-- Functions and a script that call themselves and each other until they may not. -/
theorem run_ends_runaway : ∃ n result s', ∀ fuel,
    (Session.start { maxDepth := 9 } (.memory ["line"] [("again", "g(1); RUN(\"again\")")])).run
      fuel "VAR g = FUN (n) -> [FOR i = 0 TO 3 THEN RUN(\"again\"), g(n)]\ng(INPUT())" =
        if n ≤ fuel then some (result, s') else none := by
  have script : Source.Paced ⟨"again", "g(1); RUN(\"again\")"⟩ := by
    apply Source.Paced.of_within 9
    decide +kernel
  have host : Host.Paced (.memory ["line"] [("again", "g(1); RUN(\"again\")")]) := by
    refine .ofMemory fun path text found => ?_
    by_cases here : path = "again"
    · subst here
      cases found
      exact script
    · simp [Memory.ofFiles, List.lookup_cons, beq_false_of_ne here] at found
  apply run_ends (.start _ host (Host.finiteInput_ofMemory _))
  apply Source.Paced.of_within 9
  decide +kernel

end ScriptLang
