import ScriptLang.Proofs.Sequence

/-! Scripts. `RUN` runs a text in the middle of a program, some calls deep. The calls outside count
against the limit and do nothing else, and no host looks at what was asked of it before, so the
text does what it does on its own under the limit that is left. -/
namespace ScriptLang

variable {σ : Type}

/-- The host if `log` had been asked of it before all the rest. -/
def Host.logged (h : Host σ) (log : List Event) : Host σ := { h with events := h.events ++ log }

theorem Host.after_logged {α : Type} (h : Host σ) (log : List Event) (e : Event)
    (r : Except String α × σ) :
    (h.logged log).after e r = ((h.after e r).1, (h.after e r).2.logged log) := by
  unfold after logged
  cases r.1.isOk <;> rfl

/-- What is asked does not depend on what was asked before. -/
theorem Host.logged_carries (log : List Event) : Carries (Host.logged · log : Host σ → Host σ) :=
  ⟨fun h _ => h.after_logged log _ _, fun _ => rfl, fun h => h.after_logged log _ _, fun _ _ => rfl⟩

def Machine.inside (m : Machine σ) (k : Nat) (log : List Event) : Machine σ :=
  { m with host := m.host.logged log, depth := m.depth + k }

def Machine.back (m : Machine σ) : Machine σ := { m with depth := m.depth - 1 }

theorem Machine.back_inside {m : Machine σ} {d : Nat} (counts : m.depth = d + 1) (k : Nat)
    (log : List Event) : (m.inside k log).back = m.back.inside k log := by
  simp only [back, inside, mk.injEq, true_and, and_true]
  omega

theorem Machine.depth_back {m : Machine σ} {d : Nat} (counts : m.depth = d + 1) :
    m.back.depth = d := by
  simp only [back, counts, Nat.add_sub_cancel]

/-- The error without the limit that it names, itself or in the report of a script. -/
def Error.unlimited : Error → Error
  | runtime fault span frame => runtime (fault.bare false) span frame
  | recursion _ span frame => recursion 0 span frame
  | e => e

/-- Steps that end in the same way, the first inside of `k` more calls and after `log` was asked;
the second counts `d` calls. -/
inductive Step.Shifted {α : Type} (k : Nat) (log : List Event) (d : Nat) :
    Step σ α → Step σ α → Prop where
  | done (a : α) {m : Machine σ} (counts : m.depth = d) :
    Shifted k log d (.done a (m.inside k log)) (.done a m)
  | exit (x : Exit) {m : Machine σ} (counts : m.depth = d) :
    Shifted k log d (.exit x (m.inside k log)) (.exit x m)
  | failed {e e' : Error} {m : Machine σ} (errors : e.unlimited = e'.unlimited)
    (counts : m.depth = d) :
    Shifted k log d (.exit (.failed e) (m.inside k log)) (.exit (.failed e') m)
  | spent : Shifted k log d .spent .spent

def Eval.Shifted {α : Type} (k : Nat) (log : List Event) (p q : Eval σ α) : Prop :=
  ∀ m, (p (m.inside k log)).Shifted k log m.depth (q m)

namespace Eval.Shifted

variable {k : Nat} {log : List Event} {α β : Type}

theorem pure (a : α) : Eval.Shifted k log (Pure.pure a : Eval σ α) (Pure.pure a) :=
  fun _ => .done a rfl

theorem spent : Eval.Shifted k log (Eval.spent : Eval σ α) Eval.spent := fun _ => .spent

theorem leave (x : Exit) : Eval.Shifted k log (Eval.leave x : Eval σ α) (Eval.leave x) :=
  fun _ => .exit x rfl

theorem bind {p q : Eval σ α} {f g : α → Eval σ β} (hp : Eval.Shifted k log p q)
    (hf : ∀ a, Eval.Shifted k log (f a) (g a)) : Eval.Shifted k log (p >>= f) (q >>= g) := by
  intro m
  change Step.Shifted k log m.depth (Eval.bind p f (m.inside k log)) (Eval.bind q g m)
  unfold Eval.bind
  have ends := hp m
  generalize p (m.inside k log) = left at ends ⊢
  generalize q m = right at ends ⊢
  cases ends with
  | done a counts => exact counts ▸ hf a _
  | exit x counts => exact .exit x counts
  | failed errors counts => exact .failed errors counts
  | spent => exact .spent

theorem lookup (frame : Frame) (name : String) :
    Eval.Shifted k log (Eval.lookup frame name : Eval σ _) (Eval.lookup frame name) :=
  fun m => .done (m.store.get? frame.scope name) (rfl : m.depth = m.depth)

theorem assign (frame : Frame) (name : String) (v : Value) :
    Eval.Shifted k log (Eval.assign frame name v : Eval σ Unit) (Eval.assign frame name v) :=
  fun m => .done () (m := { m with store := m.store.set frame.scope name v }) rfl

theorem reassign (frame : Frame) (name : String) (v : Value) :
    Eval.Shifted k log (Eval.reassign frame name v : Eval σ Unit) (Eval.reassign frame name v) :=
  fun m => .done ()
    (m := { m with store := (m.store.replace? frame.scope name v).getD m.store }) rfl

theorem callFrame (name : String) (outer : Nat) (site : Span) (caller : Frame) :
    Eval.Shifted k log (Eval.callFrame name outer site caller : Eval σ Frame)
      (Eval.callFrame name outer site caller) :=
  fun m => .done (Frame.call m.frames name m.store.size site caller)
    (m := { m with store := m.store.push (some outer), frames := m.frames + 1 }) rfl

theorem plainFrame (name : String) (site : Span) (caller : Frame) :
    Eval.Shifted k log (Eval.plainFrame name site caller : Eval σ Frame)
      (Eval.plainFrame name site caller) :=
  fun m => .done (Frame.call m.frames name caller.scope site caller)
    (m := { m with frames := m.frames + 1 }) rfl

theorem onHost {ask ask' : Host.Ask σ α} (same : Host.Ask.Same (Host.logged · log) ask' ask)
    (site : Span) (frame : Frame) :
    Eval.Shifted k log (ScriptLang.onHost ask site frame) (ScriptLang.onHost ask' site frame) := by
  intro m
  unfold ScriptLang.onHost
  rw [show ask (m.inside k log).host = _ from same m.host]
  rcases ask' m.host with _ | ⟨fault | a, h⟩
  · exact .spent
  · exact .exit _ (m := { m with host := h }) rfl
  · exact .done a (m := { m with host := h }) rfl

theorem turn {p q : Evaluation σ} (h : Eval.Shifted k log (unwind p) (unwind q)) :
    Eval.Shifted k log (ScriptLang.turn p) (ScriptLang.turn q) := by
  intro m
  rw [turn_eq, turn_eq]
  have ends := h m
  generalize unwind p (m.inside k log) = left at ends ⊢
  generalize unwind q m = right at ends ⊢
  cases ends with
  | done a counts => exact .done _ counts
  | exit x counts =>
    dsimp only [Step.turn]
    split
    · exact .done _ counts
    · split
      · exact .done _ counts
      · exact .exit x counts
  | failed errors counts => exact .failed errors counts
  | spent => exact .spent

theorem callResult {p q : Evaluation σ} (h : Eval.Shifted k log (unwind p) (unwind q))
    (autoReturn : Bool) (site : Span) (frame : Frame) :
    Eval.Shifted k log (ScriptLang.callResult autoReturn site frame p)
      (ScriptLang.callResult autoReturn site frame q) := by
  intro m
  rw [callResult_eq, callResult_eq]
  have ends := h m
  generalize unwind p (m.inside k log) = left at ends ⊢
  generalize unwind q m = right at ends ⊢
  cases ends with
  | done a counts => exact .done _ counts
  | exit x counts =>
    dsimp only [Step.callResult]
    split
    · exact .done _ counts
    · exact .exit _ counts
  | failed errors counts => exact .failed errors counts
  | spent => exact .spent

theorem nested {p q : Eval σ α} (h : Eval.Shifted k log p q) :
    Eval.Shifted k log (Eval.nested p) (Eval.nested q) := by
  intro m
  have up : { m.inside k log with depth := (m.inside k log).depth + 1 } =
      Machine.inside { m with depth := m.depth + 1 } k log := by
    simp only [Machine.inside, Nat.add_right_comm]
  unfold Eval.nested
  rw [up]
  have ends := h { m with depth := m.depth + 1 }
  generalize p _ = left at ends ⊢
  generalize q _ = right at ends ⊢
  -- counting down is exact because the body leaves as many calls as it found
  cases ends with
  | @done a n counts =>
    change Step.Shifted k log m.depth (.done a (n.inside k log).back) (.done a n.back)
    rw [Machine.back_inside counts]
    exact .done a (Machine.depth_back counts)
  | @exit x n counts =>
    change Step.Shifted k log m.depth (.exit x (n.inside k log).back) (.exit x n.back)
    rw [Machine.back_inside counts]
    exact .exit x (Machine.depth_back counts)
  | @failed e e' n errors counts =>
    change Step.Shifted k log m.depth (.exit (.failed e) (n.inside k log).back)
      (.exit (.failed e') n.back)
    rw [Machine.back_inside counts]
    exact .failed errors (Machine.depth_back counts)
  | spent => exact .spent

/-- With `k` more calls active there is room for a call under a limit that is higher by `k`. -/
theorem checkCall (limit : Nat) (callee : Value) (params args : Nat) (site : Span)
    (frame : Frame) :
    Eval.Shifted k log
      (ScriptLang.checkCall (limit + k) callee params args site frame : Eval σ Unit)
      (ScriptLang.checkCall limit callee params args site frame) := by
  intro m
  unfold ScriptLang.checkCall
  by_cases full : limit ≤ m.depth
  · have full' : limit + k ≤ (m.inside k log).depth := Nat.add_le_add_right full k
    rw [if_pos full, if_pos full']
    exact .failed rfl rfl
  · have room : ¬ limit + k ≤ (m.inside k log).depth :=
      fun le => full (Nat.le_of_add_le_add_right le)
    rw [if_neg full, if_neg room]
    split
    · exact .exit _ rfl
    · split
      · exact .exit _ rfl
      · exact .done () rfl

theorem lawful : Lockstep.Lawful (fun _ => Eval.Shifted k log : Lockstep σ σ)
    (fun _ => Eval.Shifted k log) where
  spent := spent
  pure := pure
  leave := leave
  bind := bind
  turn := turn
  callResult := callResult
  nested := nested
  lookup := lookup
  assign := assign
  callFrame := callFrame
  plainFrame := plainFrame

section Scripts

variable {self self' : Evaluator σ}

abbrev SelfShifted (k : Nat) (log : List Event) (self self' : Evaluator σ) : Prop :=
  ∀ node frame, Eval.Shifted k log (unwind (self node frame)) (unwind (self' node frame))

inductive SameEnd (k : Nat) (log : List Event) (d : Nat) :
    Option (Except Error Value × Machine σ) → Option (Except Error Value × Machine σ) →
    Prop where
  | ok (v : Value) {m : Machine σ} (counts : m.depth = d) :
    SameEnd k log d (some (.ok v, m.inside k log)) (some (.ok v, m))
  | error {e e' : Error} {m : Machine σ} (errors : e.unlimited = e'.unlimited)
    (counts : m.depth = d) : SameEnd k log d (some (.error e, m.inside k log)) (some (.error e', m))
  | spent : SameEnd k log d none none

theorem programEnd {d : Nat} {x y : Step σ Value} (h : x.Shifted k log d y) (program : Span)
    (frame : Frame) :
    SameEnd k log d (x.programEnd program frame) (y.programEnd program frame) := by
  cases h with
  | done v counts => exact .ok v counts
  | exit x counts =>
    dsimp only [Step.programEnd]
    cases x.signal.programResult program frame with
    | ok v => exact .ok v counts
    | error e => exact .error rfl counts
  | failed errors counts => exact .error errors counts
  | spent => exact .spent

theorem runSource (hself : SelfShifted k log self self') (source : Source) (m : Machine σ) :
    SameEnd k log m.depth (ScriptLang.runSource self source (m.inside k log))
      (ScriptLang.runSource self' source m) := by
  rw [runSource_eq, runSource_eq]
  cases source.tree with
  | error e => exact .error rfl rfl
  | ok tree => exact programEnd (hself tree _ { m with frames := m.frames + 1 }) _ _

theorem runScript (hself : SelfShifted k log self self') (path : String) (site : Span)
    (frame : Frame) : Eval.Shifted k log (ScriptLang.runScript self path site frame)
      (ScriptLang.runScript self' path site frame) := by
  apply (onHost ((Host.logged_carries log).fetch path) site frame).bind
  intro text m
  have ends := runSource hself ⟨path, text⟩ m
  dsimp only
  generalize ScriptLang.runSource self ⟨path, text⟩ (m.inside k log) = left at ends ⊢
  generalize ScriptLang.runSource self' ⟨path, text⟩ m = right at ends ⊢
  cases ends with
  | ok v counts => exact .done Value.null counts
  | error errors counts => exact .failed rfl counts
  | spent => exact .spent

theorem execute (hself : SelfShifted k log self self') (fuel : Nat) (b : Builtin)
    (args : List Value) (site : Span) (frame : Frame) :
    Eval.Shifted k log (ScriptLang.execute fuel self b args site frame)
      (ScriptLang.execute fuel self' b args site frame) :=
  lawful.execute (fun _ : Unit => Host.logged_carries log)
    (fun same => onHost (same ()) site frame) (runScript hself · site frame) fuel b args

end Scripts

/-- Calls outside do nothing but take from the limit. -/
theorem evaluate (limit fuel : Nat) :
    SelfShifted k log (ScriptLang.evaluate (limit + k) fuel : Evaluator σ)
      (ScriptLang.evaluate limit fuel) := by
  have calls : Lockstep.Calls (fun _ => Eval.Shifted k log : Lockstep σ σ) (limit + k) limit
      .usual .usual := by
    refine ⟨checkCall limit, fun hself _ _ turns b args site frame => ?_,
      fun _ frame name v => reassign frame name v⟩
    rcases turns with rfl | ⟨-, below⟩
    · exact execute hself _ b args site frame
    · intro m
      -- running out of turns on one side only is no way to go on
      cases below Unit (Pure.pure ()) m
  exact calls.evaluate lawful (.refl fuel)

end Eval.Shifted

theorem Eval.bind_of_done {α β : Type} {p : Eval σ α} {f : α → Eval σ β} {m m' : Machine σ} {a : α}
    (h : p m = .done a m') : (p >>= f) m = f a m' := by
  change Eval.bind p f m = _
  unfold Eval.bind
  rw [h]

def Host.handedOut (h : Host σ) (path : String) (state : σ) : Host σ :=
  { h with state := state, events := .load path :: h.events }

theorem runScript_of_script (self : Evaluator σ) (site : Span) (frame : Frame)
    {m : Machine σ} {path text : String} {state : σ}
    (script : m.host.operations.readSource path m.host.state = (.ok text, state)) :
    runScript self path site frame m =
      match runSource self ⟨path, text⟩ { m with host := m.host.handedOut path state } with
      | some (.ok _, n) => .done .null n
      | some (.error e, n) => Eval.fail (.scriptFailed path e.render) site frame n
      | none => .spent := by
  apply Eval.bind_of_done
  unfold onHost Host.fetch Host.load
  dsimp only
  rw [script]
  rfl

theorem callBuiltin_run {limit : Nat} (fuel : Nat) (self : Evaluator σ) (callee : Value)
    (nodes : List Tree) (site : Span) (caller : Frame) (t : Stamp) {m : Machine σ}
    (room : m.depth < limit) {path text : String} {state : σ}
    (script : m.host.operations.readSource path m.host.state = (.ok text, state)) :
    callBuiltin limit fuel self .run callee [.string path t] nodes site caller m =
      match runSource self ⟨path, text⟩ { m with
        host := m.host.handedOut path state
        depth := m.depth + 1
        frames := m.frames + 1 } with
      | some (.ok _, n) => .done .null n.back
      | some (.error e, n) => .exit (.failed (.runtime (.scriptFailed path e.render) site
          (.call m.frames Builtin.run.name caller.scope site caller))) n.back
      | none => .spent := by
  have begins : checkCall limit callee 1 1 site caller m = .done () m := by
    unfold checkCall
    rw [if_neg (Nat.not_le_of_lt room)]
    rfl
  refine (Eval.bind_of_done begins).trans ((Eval.bind_of_done rfl).trans ?_)
  have runs := runScript_of_script self site
    (.call m.frames Builtin.run.name caller.scope site caller)
    (m := { m with depth := m.depth + 1, frames := m.frames + 1 }) script
  change Eval.bind (Eval.nested (Eval.bind (runScript self path site _) _)) _ _ = _
  unfold Eval.bind Eval.nested
  dsimp only
  rw [runs]
  cases runSource self ⟨path, text⟩ _ with
  | none => rfl
  | some ended =>
    obtain ⟨result, n⟩ := ended
    cases result <;> rfl

/-- The session in which a script runs on its own: no call is active, and as many may be as the
active calls and the call of `RUN` leave. That call has taken a number for its frame, and the host
is in the state in which it was left when it handed out the script. -/
def Session.alone (s : Session σ) (state : σ) : Session σ where
  config := { s.config with maxDepth := s.config.maxDepth - s.machine.depth - 1 }
  machine := { s.machine with
    host := { s.machine.host with state := state }
    depth := 0
    frames := s.machine.frames + 1 }

def Session.numbering (s : Session σ) (j : Nat) : Session σ :=
  s.resumed { s.machine with frames := j }

theorem Session.runSource_numbering {k j : Nat} (fuel : Nat) {s : Session σ}
    (older : s.machine.store.Older k) (left : k ≤ s.machine.frames) (right : k ≤ j)
    (source : Source) :
    RunsMatch k (s.runSource fuel source) ((s.numbering j).runSource fuel source) := by
  have machines : s.machine.Matches (.loose s.config.maxDepth s.machine.depth)
      (.itself k left right) { s.machine with frames := j } :=
    ⟨.ofOlder _ _ older, rfl, rfl, rfl, rfl, rfl⟩
  exact .ofEnds s (Eval.Matches.runSource (Eval.Matches.evaluate (.loose _ _) fuel) source machines)

/-- The global scope looks names up in itself and nowhere else. -/
theorem Store.get?_globalScope (s : Store) (name : String) :
    s.get? globalScope name = (s.scopes[globalScope]?).bind (·.get? name) := by
  cases found : s.scopes[globalScope]? with
  | none =>
    have chain : s.chain globalScope = [] := by simp only [Store.chain, Store.chainFrom, found]
    simp only [Store.get?, Store.resolve?, chain, List.find?_nil, Option.bind_none,
      Option.bind_eq_bind]
  | some scope =>
    -- there is no scope older than the first
    have older (parent : Option Nat) :
        (parent.map (s.chainFrom globalScope)).getD [] = [] := by cases parent <;> rfl
    have chain : s.chain globalScope = [globalScope] := by
      simp only [Store.chain, Store.chainFrom, found, older]
    cases bound : scope.get? name <;>
      simp [Store.get?, Store.resolve?, Store.binds, Scope.binds, chain, found, bound]

/-- Machines with the same scopes and the same host, of which the same was asked but for texts of
scripts. -/
structure Machine.LeftAlike (m n : Machine σ) : Prop where
  store : m.store = n.store
  frames : m.frames = n.frames
  host : m.host = { n.host with events := m.host.events }
  output : m.host.output = n.host.output
  clears : m.host.clears = n.host.clears

/-- To be asked for a script is neither to write nor to clear. -/
theorem Machine.leftAlike_load (n : Machine σ) (k : Nat) (path : String) (log : List Event) :
    (n.inside k (.load path :: log)).LeftAlike (n.inside 0 log) where
  store := rfl
  frames := rfl
  host := rfl
  output := by simp [inside, Host.logged, Host.output]
  clears := by simp [inside, Host.logged, Host.clears]

/-- How a call of `RUN` ends, beside the run of the script on its own. -/
inductive Session.EndsAlike (s : Session σ) (path : String) (site : Span) (caller : Frame) :
    Option (Except Error Value × Session σ) → Step σ Value → Prop where
  | ok {v : Value} {s' : Session σ} {m : Machine σ} (left : m.LeftAlike s'.machine)
    (depth : m.depth = s.machine.depth) :
    EndsAlike s path site caller (some (.ok v, s')) (.done .null m)
  | failed {e : Error} {s' : Session σ} {m : Machine σ} (report : String)
    (left : m.LeftAlike s'.machine) (depth : m.depth = s.machine.depth) :
    EndsAlike s path site caller (some (.error e, s'))
      (.exit (.failed (.runtime (.scriptFailed path report) site
        (.call s.machine.frames Builtin.run.name caller.scope site caller))) m)
  | spent : EndsAlike s path site caller none .spent

theorem Session.inside_alone (s : Session σ) (path : String) (state : σ) :
    { s.machine with
      host := s.machine.host.handedOut path state
      depth := s.machine.depth + 1
      frames := s.machine.frames + 1 } =
      (s.alone state).forget.machine.inside (s.machine.depth + 1)
        (.load path :: s.machine.host.events) := by
  simp only [Session.alone, Session.forget, Machine.inside, Host.logged, Host.forget,
    Host.handedOut, Nat.zero_add, List.nil_append]

theorem Machine.back_inside_zero {n : Machine σ} (counts : n.depth = 0) (d : Nat)
    (log : List Event) :
    (n.inside (d + 1) log).back = n.inside d log ∧ (n.inside d log).depth = d := by
  simp only [Machine.inside, Machine.back, counts, Nat.zero_add, Nat.add_sub_cancel, and_self]

theorem Session.endsAlike_run (fuel : Nat) {s : Session σ}
    (room : s.machine.depth < s.config.maxDepth) {path text : String} {state : σ}
    (script : s.machine.host.operations.readSource path s.machine.host.state = (.ok text, state))
    (callee : Value) (t : Stamp) (nodes : List Tree) (site : Span) (caller : Frame) :
    s.EndsAlike path site caller ((s.alone state).runSource fuel ⟨path, text⟩)
      (callBuiltin s.config.maxDepth fuel (ScriptLang.evaluate s.config.maxDepth fuel) .run callee
        [.string path t] nodes site caller s.machine) := by
  let alone := s.alone state
  have limit : s.config.maxDepth = alone.config.maxDepth + (s.machine.depth + 1) := by
    simp only [alone, Session.alone]
    omega
  -- both runs are compared with one on a host of which nothing was asked yet
  have inner : Eval.Shifted.SameEnd (s.machine.depth + 1) (.load path :: s.machine.host.events) 0
      (ScriptLang.runSource (ScriptLang.evaluate s.config.maxDepth fuel) ⟨path, text⟩
        { s.machine with
          host := s.machine.host.handedOut path state
          depth := s.machine.depth + 1
          frames := s.machine.frames + 1 })
      (ScriptLang.runSource (ScriptLang.evaluate alone.config.maxDepth fuel) ⟨path, text⟩
        alone.forget.machine) := by
    rw [s.inside_alone, limit]
    exact Eval.Shifted.runSource (Eval.Shifted.evaluate _ fuel) _ alone.forget.machine
  have outer : Eval.Shifted.SameEnd 0 s.machine.host.events 0
      (ScriptLang.runSource (ScriptLang.evaluate alone.config.maxDepth fuel) ⟨path, text⟩
        alone.machine)
      (ScriptLang.runSource (ScriptLang.evaluate alone.config.maxDepth fuel) ⟨path, text⟩
        alone.forget.machine) :=
    Eval.Shifted.runSource (Eval.Shifted.evaluate _ fuel) _ alone.forget.machine
  rw [callBuiltin_run fuel _ callee nodes site caller t room script]
  unfold Session.runSource
  generalize ScriptLang.runSource (ScriptLang.evaluate s.config.maxDepth fuel) _ _ = x at inner ⊢
  generalize ScriptLang.runSource (ScriptLang.evaluate alone.config.maxDepth fuel) _ alone.machine
    = y at outer ⊢
  generalize ScriptLang.runSource _ _ alone.forget.machine = z at inner outer
  cases inner with
  | @ok v n counts =>
    cases outer
    dsimp only [Option.map_some]
    obtain ⟨back, depth⟩ := Machine.back_inside_zero counts s.machine.depth
      (.load path :: s.machine.host.events)
    rw [back]
    exact .ok (n.leftAlike_load _ path _) depth
  | @error e _ n _ counts =>
    cases outer
    dsimp only [Option.map_some]
    obtain ⟨back, depth⟩ := Machine.back_inside_zero counts s.machine.depth
      (.load path :: s.machine.host.events)
    rw [back]
    exact .failed _ (n.leftAlike_load _ path _) depth
  | spent =>
    cases outer
    exact .spent

/-- A call of `RUN` for a script that the host hands out leaves the scopes and the host as running
the script on its own does, with no call active and under the limit that is left; it gives null
where that run comes to a value, and fails where that one fails, at the place of the call. Who
calls makes no difference to the scopes and the host, nor, where all functions about were made in
frames before `k`, does it make one from where the new frames of the run are numbered. And what is
looked up in the frame of a program is looked up in the global scope. -/
theorem script_runs_as_program (fuel : Nat) (s : Session σ)
    (room : s.machine.depth < s.config.maxDepth) {path text : String} {state : σ}
    (script : s.machine.host.operations.readSource path s.machine.host.state =
      (.ok text, state)) :
    (∀ (callee : Value) (t : Stamp) (nodes : List Tree) (site : Span) (caller : Frame),
      s.EndsAlike path site caller ((s.alone state).runSource fuel ⟨path, text⟩)
        (callBuiltin s.config.maxDepth fuel (evaluate s.config.maxDepth fuel) .run callee
          [.string path t] nodes site caller s.machine)) ∧
    (∀ k j, s.machine.store.Older k → k ≤ s.machine.frames → k ≤ j →
      RunsMatch k ((s.alone state).runSource fuel ⟨path, text⟩)
        (((s.alone state).numbering j).runSource fuel ⟨path, text⟩)) ∧
    ∀ (n : Machine σ) (id : Nat) (name : String),
      Eval.lookup (.root id programName globalScope) name n =
        .done ((n.store.scopes[globalScope]?).bind (·.get? name)) n := by
  refine ⟨Session.endsAlike_run fuel room script, fun k j older left right => ?_,
    fun n id name => ?_⟩
  · have left : k ≤ (s.alone state).machine.frames := Nat.le_succ_of_le left
    exact Session.runSource_numbering (s := s.alone state) fuel older left right _
  · exact congrArg (Step.done · n) (n.store.get?_globalScope name)

/-- One call deep under a limit of four, a script that prints what a function of its own asks for:
that takes the two calls that are left. -/
theorem script_runs_as_program_asking :
    ∃ (s : Session Memory) (v : Value) (s' : Session Memory),
      s.config.maxDepth = 4 ∧ s.machine.depth = 1 ∧
      s.machine.host.operations.readSource "ask" s.machine.host.state =
        (.ok "FUN f() -> INPUT()\nPRINT(f()); RETURN 7", s.machine.host.state) ∧
      (s.alone s.machine.host.state).config.maxDepth = 2 ∧
      (s.alone s.machine.host.state).runSource 20
        ⟨"ask", "FUN f() -> INPUT()\nPRINT(f()); RETURN 7"⟩ = some (.ok v, s') ∧
      s'.machine.host.output = ["one"] ∧
      s.EndsAlike "ask" .nowhere (.root 4 programName globalScope) (some (.ok v, s'))
        (callBuiltin s.config.maxDepth 20 (evaluate s.config.maxDepth 20) .run
          (.builtin .run .none) [.string "ask" .none] [] .nowhere
          (.root 4 programName globalScope) s.machine) := by
  obtain ⟨s, limit, depth, script, left, checked⟩ : ∃ s : Session Memory,
      s.config.maxDepth = 4 ∧ s.machine.depth = 1 ∧
      s.machine.host.operations.readSource "ask" s.machine.host.state =
        (.ok "FUN f() -> INPUT()\nPRINT(f()); RETURN 7", s.machine.host.state) ∧
      (s.alone s.machine.host.state).config.maxDepth = 2 ∧
      ((s.alone s.machine.host.state).runSource 20
        ⟨"ask", "FUN f() -> INPUT()\nPRINT(f()); RETURN 7"⟩).any (fun ended =>
          ended.1.isOk && ended.2.machine.host.output = ["one"]) = true :=
    ⟨⟨{ maxDepth := 4 }, Store.empty.pushGlobals,
      .memory ["one"] [("ask", "FUN f() -> INPUT()\nPRINT(f()); RETURN 7")], 1, 5⟩,
      rfl, rfl, by simp [Host.memory, Host.ofMemory, Memory.operations, Memory.ofFiles], rfl,
      by decide +kernel⟩
  obtain ⟨⟨result, s'⟩, ran, checked⟩ := (Option.any_eq_true _ _).1 checked
  obtain ⟨ok, printed⟩ := (Bool.and_eq_true _ _).mp checked
  have room : s.machine.depth < s.config.maxDepth := by rw [limit, depth]; decide
  obtain ⟨runs, -, -⟩ := script_runs_as_program 20 s room script
  rw [ran] at runs
  cases result with
  | error e => cases ok
  | ok v =>
    exact ⟨s, v, s', limit, depth, script, left, ran, of_decide_eq_true printed, runs _ _ _ _ _⟩

end ScriptLang
