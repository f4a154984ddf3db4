import ScriptLang.Proofs.Effect
import ScriptLang.Proofs.Lockstep
import ScriptLang.Session

/-! The number of active calls. A machine counts them by hand, one up before a body and one down
behind it. Here evaluation is told once more, with the list of active calls at hand instead of the
count; both do the same, so the count is the length of that list wherever anything is evaluated. -/
namespace ScriptLang

variable {σ : Type}

open Eval

section Active

variable (astray : (α : Type) → Eval σ α) (limit fuel : Nat)
variable (self : List Frame → Evaluator σ) (active : List Frame)

/-- `p`, as long as the machine counts just the active calls and they keep to the limit. What
`astray` does otherwise is never seen. -/
def accounted {α : Type} (p : Eval σ α) : Eval σ α := fun m =>
  if m.depth = active.length ∧ active.length ≤ limit then p m else astray α m

def beginCall (callee : Value) (params args : Nat) (site : Span) (caller : Frame) : Eval σ Unit :=
  if active.length = limit then leave (.failed (.recursion limit site caller))
  else if params < args then fail (.tooManyArguments (args - params) callee.display) site caller
  else if args < params then fail (.tooFewArguments (params - args) callee.display) site caller
  else pure ()

def callFunctionActive (f : Function) (callee : Value) (args : List Value) (site : Span)
    (caller : Frame) : Eval σ Value := do
  beginCall limit active callee f.params.length args.length site caller
  let frame ← callFrame f.displayName f.closure.scope site caller
  bindParams frame f.params args
  callResult f.autoReturn site frame (self (frame :: active) f.body frame).nested

/-- Built-in functions count like others, and so do the calls of a script that `RUN` runs. -/
def callBuiltinActive (b : Builtin) (callee : Value) (args : List Value) (nodes : List Tree)
    (site : Span) (caller : Frame) : Eval σ Value := do
  beginCall limit active callee b.params.length args.length site caller
  let frame ← plainFrame b.name site caller
  let (result, changed) ← nested (accounted astray limit (frame :: active)
    (execute fuel (self (frame :: active)) b args site frame))
  match changed, target? nodes with
  | some v, some name => reassign caller name v
  | _, _ => pure ()
  return result

def evalCallActive (callee : Tree) (args : List Tree) (span : Span) (frame : Frame) :
    Eval σ Value := do
  let f := (← unwind (self active callee frame)).place span frame
  let values ← evalAll (self active) frame args
  match f with
  | .function g _ =>
    return (← callFunctionActive limit self active g f values span frame).place span frame
  | .builtin b _ =>
    return (← callBuiltinActive astray limit fuel self active b f values args span frame).place
      span frame
  | _ => fail .illegalOperation span frame

def evalNodeActive : Tree → Frame → Eval σ Value
  | .call callee args mark, frame =>
    evalCallActive astray limit fuel self active callee args mark.span frame
  | node, frame => evalNode limit fuel (self active) node frame

/-- Evaluates a tree while the given calls are active, the latest first. -/
def evaluateActive (astray : (α : Type) → Eval σ α) (limit : Nat) :
    Nat → List Frame → Evaluator σ
  | 0, _ => fun _ _ _ => none
  | fuel + 1, active => fun node frame => (accounted astray limit active (evalNodeActive astray
      limit fuel (evaluateActive astray limit fuel) active node frame)).signal

end Active

def DepthKept : Effect σ := fun _ m m' => m'.depth = m.depth

theorem DepthKept.lawful : (DepthKept : Effect σ).Lawful where
  refl _ _ := rfl
  trans first second := second.trans first
  assign _ _ _ _ := rfl
  reassign _ _ _ _ _ := rfl
  host _ _ _ _ := rfl
  frame _ _ := rfl
  call _ _ _ _ h := h
  nested _ m m' h := by
    have up : m'.depth = m.depth + 1 := h
    simp only [DepthKept, up, Nat.add_sub_cancel]
  run _ _ _ _ h := h

/-- From machines that count `d` calls, `p` and `q` do the same, and count `d` calls again. -/
def Eval.Agree {α : Type} (d : Nat) (p q : Eval σ α) : Prop :=
  ∀ m, m.depth = d → p m = q m ∧ (q m).Leaves (·.depth = d)

namespace Eval.Agree

variable {d : Nat} {α β : Type}

theorem refl {p : Eval σ α} (h : p.Within (DepthKept globalScope)) : p.Agree d p :=
  fun m counts => ⟨rfl, (h m).mono fun _ kept => Eq.trans kept counts⟩

theorem pure (a : α) : Eval.Agree d (Pure.pure a : Eval σ α) (Pure.pure a) :=
  refl (DepthKept.lawful.toLocal.pure a)

theorem fail (fault : Fault) (span : Span) (frame : Frame) :
    Eval.Agree d (Eval.fail fault span frame : Eval σ α) (Eval.fail fault span frame) :=
  refl (DepthKept.lawful.toLocal.fail fault span frame)

theorem spent : Eval.Agree d (Eval.spent : Eval σ α) Eval.spent := fun _ _ => ⟨rfl, trivial⟩

theorem bind_of {p q : Eval σ α} {f g : α → Eval σ β} (hp : p.Agree d q)
    (hf : ∀ m a m', m.depth = d → q m = .done a m' → (f a).Agree d (g a)) :
    (p >>= f).Agree d (q >>= g) := by
  intro m counts
  obtain ⟨same, kept⟩ := hp m counts
  change Eval.bind p f m = Eval.bind q g m ∧ (Eval.bind q g m).Leaves _
  unfold Eval.bind
  rw [same]
  cases ended : q m with
  | done a m' => rw [ended] at kept; exact hf m a m' counts ended m' kept
  | exit e m' => rw [ended] at kept; exact ⟨rfl, kept⟩
  | spent => exact ⟨rfl, trivial⟩

theorem bind {p q : Eval σ α} {f g : α → Eval σ β} (hp : p.Agree d q)
    (hf : ∀ a, (f a).Agree d (g a)) : (p >>= f).Agree d (q >>= g) :=
  hp.bind_of fun _ a _ _ _ => hf a

theorem nested {p q : Eval σ α} (h : p.Agree (d + 1) q) : (nested p).Agree d (nested q) := by
  intro m counts
  obtain ⟨same, kept⟩ := h { m with depth := m.depth + 1 } (by rw [counts])
  unfold Eval.nested
  rw [same]
  generalize q { m with depth := m.depth + 1 } = ended at kept ⊢
  cases ended with
  | done a m' =>
    have kept : m'.depth = d + 1 := kept
    exact ⟨rfl, by simp only [Step.Leaves, kept, Nat.add_sub_cancel]⟩
  | exit e m' =>
    have kept : m'.depth = d + 1 := kept
    exact ⟨rfl, by simp only [Step.Leaves, kept, Nat.add_sub_cancel]⟩
  | spent => exact ⟨rfl, trivial⟩

theorem turn {p q : Evaluation σ} (h : (unwind p).Agree d (unwind q)) :
    (turn p).Agree d (turn q) := by
  intro m counts
  obtain ⟨same, kept⟩ := h m counts
  rw [turn_eq, turn_eq, same]
  refine ⟨rfl, ?_⟩
  unfold Step.turn
  split
  · next eq => rwa [eq] at kept
  · next eq =>
    rw [eq] at kept
    split
    · exact kept
    · split <;> exact kept
  · trivial

theorem callResult {p q : Evaluation σ} (h : (unwind p).Agree d (unwind q)) (autoReturn : Bool)
    (site : Span) (frame : Frame) :
    (callResult autoReturn site frame p).Agree d (callResult autoReturn site frame q) := by
  intro m counts
  obtain ⟨same, kept⟩ := h m counts
  rw [callResult_eq, callResult_eq, same]
  refine ⟨rfl, ?_⟩
  unfold Step.callResult
  split
  · next eq => rwa [eq] at kept
  · next eq => rw [eq] at kept; split <;> exact kept
  · trivial

theorem lawful (d : Nat) :
    Lockstep.Lawful (fun _ => Eval.Agree (d + 1) : Lockstep σ σ) (fun _ => Eval.Agree d) where
  spent := spent
  pure := pure
  leave _ := refl (DepthKept.lawful.toLocal.leave _)
  bind := bind
  turn := turn
  callResult := callResult
  nested := nested
  lookup frame name := refl (DepthKept.lawful.toLocal.lookup frame name)
  assign frame name v := refl (DepthKept.lawful.toLocal.assigns frame name v)
  callFrame _ _ _ _ := refl fun _ => rfl
  plainFrame _ _ _ := refl fun _ => rfl

section Scripts

variable {self self' : Evaluator σ} {frame : Frame}

abbrev SelfAgree (d : Nat) (self self' : Evaluator σ) : Prop :=
  ∀ node frame, (unwind (self node frame)).Agree d (unwind (self' node frame))

theorem runSource (hself : SelfAgree d self self') (source : Source) {m : Machine σ}
    (counts : m.depth = d) : runSource self source m = runSource self' source m ∧
      ∀ result m', runSource self' source m = some (result, m') → m'.depth = d := by
  rw [runSource_eq, runSource_eq]
  cases source.tree with
  | error e => exact ⟨rfl, by rintro _ _ ⟨⟩; exact counts⟩
  | ok tree =>
    obtain ⟨same, kept⟩ := hself tree (.root m.frames programName globalScope)
      { m with frames := m.frames + 1 } counts
    dsimp only
    rw [same]
    refine ⟨rfl, fun result m' ended => ?_⟩
    unfold Step.programEnd at ended
    split at ended
    · next eq => rw [eq] at kept; cases ended; exact kept
    · next eq => rw [eq] at kept; cases ended; exact kept
    · cases ended

theorem runScript (hself : SelfAgree d self self') (path : String) (site : Span) :
    (runScript self path site frame).Agree d (runScript self' path site frame) := by
  have fetch : (onHost (Host.fetch path) site frame : Eval σ String).Within
      (DepthKept globalScope) := by
    intro m
    unfold onHost
    split <;> first | exact rfl | trivial
  refine (refl fetch).bind fun text m counts => ?_
  obtain ⟨same, kept⟩ := runSource hself ⟨path, text⟩ counts
  rw [same]
  refine ⟨rfl, ?_⟩
  split
  · next ran => exact kept _ _ ran
  · next ran => exact kept _ _ ran
  · trivial

theorem execute (hself : SelfAgree d self self') (fuel : Nat) (b : Builtin) (args : List Value)
    (site : Span) :
    (execute fuel self b args site frame).Agree d (execute fuel self' b args site frame) := by
  by_cases run : ∃ path t, b = .run ∧ args = [.string path t]
  · obtain ⟨path, t, rfl, rfl⟩ := run
    exact (runScript hself path site).bind fun _ => pure _
  · rw [execute_eq run fuel self fun _ _ _ => none, execute_eq run fuel self' fun _ _ _ => none]
    have quiet : DepthKept.Bounds (fun _ _ _ => none : Evaluator σ) :=
      fun _ _ => Effect.Local.spent _
    exact refl (DepthKept.lawful.toLocal.execute quiet fuel b args site frame)

end Scripts

section Active

variable {astray : (α : Type) → Eval σ α} {limit fuel : Nat} {active : List Frame}
variable {self : List Frame → Evaluator σ} {self' : Evaluator σ}

theorem beginCall (room : active.length ≤ limit) (callee : Value) (params args : Nat)
    (site : Span) (caller : Frame) :
    (beginCall limit active callee params args site caller : Eval σ Unit).Agree active.length
      (checkCall limit callee params args site caller) := by
  intro m counts
  have kept : (checkCall limit callee params args site caller : Eval σ Unit).Within
      (DepthKept globalScope) :=
    DepthKept.lawful.toLocal.checkCall limit callee params args site caller
  refine ⟨?_, (kept m).mono fun _ same => Eq.trans same counts⟩
  unfold ScriptLang.beginCall checkCall
  rw [counts]
  by_cases full : active.length = limit
  · rw [if_pos full, if_pos (Nat.le_of_eq full.symm)]
  · rw [if_neg full, if_neg (show ¬ limit ≤ active.length by omega)]
    split
    · rfl
    · split <;> rfl

theorem room_of_checkCall {callee : Value} {params args : Nat} {site : Span} {caller : Frame}
    {m m' : Machine σ} {a : Unit} (counts : m.depth = active.length)
    (ended : checkCall limit callee params args site caller m = .done a m') :
    (active.length + 1) ≤ limit := by
  unfold checkCall at ended
  split at ended
  · cases ended
  · omega

abbrev ActiveAgree (limit : Nat) (self : List Frame → Evaluator σ)
    (self' : Evaluator σ) : Prop :=
  ∀ active : List Frame, active.length ≤ limit → SelfAgree active.length (self active) self'

theorem callFunction (hself : ActiveAgree limit self self') (room : active.length ≤ limit)
    (f : Function) (callee : Value) (args : List Value) (site : Span) (caller : Frame) :
    (callFunctionActive limit self active f callee args site caller).Agree active.length
      (callFunction limit self' f callee args site caller) := by
  refine (beginCall room callee _ _ site caller).bind_of fun m _ m' counts ended => ?_
  have more := room_of_checkCall counts ended
  exact (lawful active.length).callBody (fun frame => hself (frame :: active) more f.body frame)
    f args site caller

theorem accounted (room : active.length ≤ limit) {p q : Eval σ α} (h : p.Agree active.length q) :
    (accounted astray limit active p).Agree active.length q := by
  intro m counts
  unfold ScriptLang.accounted
  rw [if_pos ⟨counts, room⟩]
  exact h m counts

theorem callBuiltin (hself : ActiveAgree limit self self') (room : active.length ≤ limit)
    (b : Builtin) (callee : Value) (args : List Value) (nodes : List Tree) (site : Span)
    (caller : Frame) :
    (callBuiltinActive astray limit fuel self active b callee args nodes site caller).Agree
      active.length (callBuiltin limit fuel self' b callee args nodes site caller) := by
  refine (beginCall room callee _ _ site caller).bind_of fun m _ m' counts ended => ?_
  have more := room_of_checkCall counts ended
  have body (frame : Frame) : (ScriptLang.execute fuel (self (frame :: active)) b args site
      frame).Agree (frame :: active).length (ScriptLang.execute fuel self' b args site frame) :=
    execute (hself (frame :: active) more) fuel b args site
  have back (name : String) (v : Value) : (reassign caller name v : Eval σ Unit).Agree
      active.length (reassign caller name v) := refl fun _ => rfl
  exact (lawful active.length).builtinBody (fun frame => accounted more (body frame)) back b nodes
    site caller

theorem evalCall (hself : ActiveAgree limit self self') (room : active.length ≤ limit)
    (callee : Tree) (args : List Tree) (span : Span) (frame : Frame) :
    (evalCallActive astray limit fuel self active callee args span frame).Agree active.length
      (evalCall limit fuel self' callee args span frame) := by
  refine (hself active room callee frame).bind fun c => ?_
  refine ((lawful _).evalAll (hself active room) frame args).bind fun values => ?_
  generalize c.place span frame = called
  cases called with
  | function g t => exact (callFunction hself room g _ values span frame).bind fun _ => pure _
  | builtin b t => exact (callBuiltin hself room b _ values args span frame).bind fun _ => pure _
  | number n t => exact fail _ _ _
  | string s t => exact fail _ _ _
  | list vs t => exact fail _ _ _

theorem evalNode (hself : ActiveAgree limit self self') (room : active.length ≤ limit)
    (node : Tree) (frame : Frame) :
    (evalNodeActive astray limit fuel self active node frame).Agree active.length
      (evalNode limit fuel self' node frame) := by
  have same (other : ∀ callee args mark, node ≠ .call callee args mark) :
      (ScriptLang.evalNode limit fuel (self active) node frame).Agree active.length
        (ScriptLang.evalNode limit fuel self' node frame) :=
    (lawful active.length).evalNode (hself active room) (.refl fuel) node frame
      fun callee args mark eq => absurd eq (other callee args mark)
  cases node with
  | call callee args mark => exact evalCall hself room callee args mark.span frame
  | _ => exact same nofun

end Active

theorem evaluate (astray : (α : Type) → Eval σ α) (limit fuel : Nat) :
    ActiveAgree limit (evaluateActive astray limit fuel) (ScriptLang.evaluate limit fuel) := by
  induction fuel with
  | zero => exact fun _ _ _ _ => spent
  | succ fuel ih =>
    intro active room node frame
    unfold evaluateActive ScriptLang.evaluate
    rw [unwind_signal, unwind_signal]
    exact accounted room (evalNode ih room node frame)

end Eval.Agree

/-- Sessions that come about by running texts one after the other, however each run ended. -/
inductive Session.Reached (config : Config) (host : Host σ) : Session σ → Prop where
  | start : Reached config host (.start config host)
  | ran {s s' : Session σ} (earlier : Reached config host s) {fuel : Nat} {source : Source}
    {result : Except Error Value} (run : s.runSource fuel source = some (result, s')) :
    Reached config host s'

namespace Session.Reached

variable {config : Config} {host : Host σ} {s : Session σ}

theorem config_eq (h : Reached config host s) : s.config = config := by
  induction h with
  | start => rfl
  | ran _ run ih =>
    obtain ⟨⟨_, _⟩, -, eq⟩ := Option.map_eq_some_iff.1 run
    cases eq
    exact ih

theorem depth_eq (h : Reached config host s) : s.machine.depth = 0 := by
  induction h with
  | start => rfl
  | @ran s _ _ fuel source result run ih =>
    obtain ⟨⟨_, m⟩, ran, eq⟩ := Option.map_eq_some_iff.1 run
    cases eq
    have agree : Eval.Agree.SelfAgree 0 (ScriptLang.evaluate s.config.maxDepth fuel : Evaluator σ)
        (ScriptLang.evaluate s.config.maxDepth fuel) := fun node frame =>
      .refl (DepthKept.lawful.eval s.config.maxDepth fuel node frame)
    exact (Eval.Agree.runSource agree source ih).2 result m ran

end Session.Reached

/-- In any session, after whatever runs: no call is active when a run begins, every evaluation
leaves as many active as it found, and what a run does is the same as with the active calls in a
list that never outgrows the limit, whose length the machine counts wherever a tree or a built-in
function is evaluated. A call is refused for its depth just when as many are active as may be. -/
theorem calls_counted {config : Config} {host : Host σ} {s : Session σ}
    (h : s.Reached config host) : s.machine.depth = 0 ∧
      (∀ limit fuel node frame (m : Machine σ),
        (eval limit fuel node frame m).Leaves (·.depth = m.depth)) ∧
      (∀ astray fuel source,
        runSource (evaluateActive astray config.maxDepth fuel []) source s.machine =
          runSource (evaluate s.config.maxDepth fuel) source s.machine) ∧
      ∀ limit callee params args site frame (m : Machine σ), m.depth ≤ limit →
        ((∃ l span f m', checkCall limit callee params args site frame m =
          .exit (.failed (.recursion l span f)) m') ↔ m.depth = limit) := by
  refine ⟨h.depth_eq, DepthKept.lawful.eval, fun astray fuel source => ?_, ?_⟩
  · rw [h.config_eq]
    have agree := Eval.Agree.evaluate astray config.maxDepth fuel [] (Nat.zero_le _)
    exact (Eval.Agree.runSource agree source h.depth_eq).1
  · intro limit callee params args site frame m within
    unfold checkCall
    constructor
    · rintro ⟨l, span, f, m', left⟩
      split at left
      · omega
      · split at left
        · cases left
        · split at left <;> cases left
    · intro full
      rw [if_pos (Nat.le_of_eq full.symm)]
      exact ⟨_, _, _, _, rfl⟩

/-- A script that runs itself until there is no room for another call. -/
theorem calls_counted_runaway : ∃ result s,
    (Session.start { maxDepth := 3 } (.memory [] [("again", "RUN(\"again\")")])).runSource 60
      ⟨"<stdin>", "RUN(\"again\")"⟩ = some (.error result, s) ∧ s.machine.depth = 0 ∧
    ∀ astray fuel source, runSource (evaluateActive astray 3 fuel []) source s.machine =
      runSource (evaluate s.config.maxDepth fuel) source s.machine := by
  have failed : ((Session.start { maxDepth := 3 }
      (.memory [] [("again", "RUN(\"again\")")])).runSource 60 ⟨"<stdin>", "RUN(\"again\")"⟩).any
        (fun ended => !ended.1.isOk) = true := by decide +kernel
  cases ran : (Session.start { maxDepth := 3 }
      (.memory [] [("again", "RUN(\"again\")")])).runSource 60 ⟨"<stdin>", "RUN(\"again\")"⟩ with
  | none => rw [ran] at failed; cases failed
  | some ended =>
    obtain ⟨result, s⟩ := ended
    rw [ran] at failed
    cases result with
    | ok v => cases failed
    | error e =>
      have counted := calls_counted (.ran .start ran)
      exact ⟨e, s, rfl, counted.1, counted.2.2.1⟩

end ScriptLang
