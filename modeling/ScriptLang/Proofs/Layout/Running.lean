import ScriptLang.Proofs.Asking
import ScriptLang.Proofs.Bare.Store
import ScriptLang.Proofs.Unwind

/-! Running does not look at places or frames. Two evaluations of the same program, wherever it
was read, from machines that hold the same values, wherever they were made, end in the same way:
with the same value, or by the same exit, and again with machines that hold the same values. The
one thing that carries places along is the report of a script that failed; without scripts there
is none. -/
namespace ScriptLang

variable {σ : Type}

/-- No script can be loaded, now or later. -/
def Host.Offline (h : Host σ) : Prop :=
  ∀ h', h.Leads h' → ∀ path, ∃ reason, (h'.load path).1 = .error reason

theorem Host.Offline.leads {h h' : Host σ} (offline : h.Offline) (leads : h.Leads h') :
    h'.Offline :=
  fun later further => offline later (leads.trans further)

/-- The fault with the report of a failed script only if it is to be kept. -/
def Fault.bare (keep : Bool) : Fault → Fault
  | scriptFailed path report => scriptFailed path (if keep then report else "")
  | fault => fault

def Error.bare (keep : Bool) : Error → Error
  | lexical e => lexical ⟨e.fault, .nowhere⟩
  | grammatical e => grammatical ⟨e.expected, .nowhere, e.trailing⟩
  | runtime fault _ _ => runtime (fault.bare keep) .nowhere (.root 0 "" 0)
  | recursion limit _ _ => recursion limit .nowhere (.root 0 "" 0)

def Signal.bare (keep : Bool) (s : Signal) : Signal where
  value := s.value.map Value.bare
  error := s.error.map (Error.bare keep)
  functionReturn := s.functionReturn.map Value.bare
  loopContinue := s.loopContinue
  loopBreak := s.loopBreak
  origin := s.origin.map fun _ => .nowhere

/-- Machines that hold the same values; reports are kept only where no script can be loaded. -/
structure Machine.Alike (keep : Bool) (m n : Machine σ) : Prop where
  same : m.bare = n.bare
  offline : keep = true → m.host.Offline

inductive Step.Alike {α : Type} (keep : Bool) (V : α → α → Prop) : Step σ α → Step σ α → Prop where
  | done {a b : α} {m n : Machine σ} (value : V a b) (machine : m.Alike keep n) :
    Alike keep V (.done a m) (.done b n)
  | exit {x y : Exit} {m n : Machine σ} (reason : x.signal.bare keep = y.signal.bare keep)
    (machine : m.Alike keep n) : Alike keep V (.exit x m) (.exit y n)
  | spent : Alike keep V .spent .spent

def Eval.Alike {α : Type} (keep : Bool) (V : α → α → Prop) (p q : Eval σ α) : Prop :=
  ∀ m n : Machine σ, m.Alike keep n → (p m).Alike keep V (q n)

def SameValue (v w : Value) : Prop := v.bare = w.bare

inductive SameForm : Value → Value → Prop where
  | number (n : Number) (t u : Stamp) : SameForm (.number n t) (.number n u)
  | string (s : String) (t u : Stamp) : SameForm (.string s t) (.string s u)
  | list {vs ws : List Value} (elements : vs.map Value.bare = ws.map Value.bare) (t u : Stamp) :
    SameForm (.list vs t) (.list ws u)
  | function {f g : Function} (functions : f.bare = g.bare) (t u : Stamp) :
    SameForm (.function f t) (.function g u)
  | builtin (b : Builtin) (t u : Stamp) : SameForm (.builtin b t) (.builtin b u)

theorem SameValue.form {v w : Value} (same : SameValue v w) : SameForm v w := by
  unfold SameValue at same
  cases v <;> cases w <;>
    simp only [Value.bare_number, Value.bare_string, Value.bare_list, Value.bare_function,
      Value.bare_builtin, Value.number.injEq, Value.string.injEq, Value.list.injEq,
      Value.function.injEq, Value.builtin.injEq, and_true, reduceCtorEq] at same
  case number.number => cases same; exact .number _ _ _
  case string.string => cases same; exact .string _ _ _
  case list.list => exact .list same _ _
  case function.function => exact .function same _ _
  case builtin.builtin => cases same; exact .builtin _ _ _

inductive SameEnding (keep : Bool) : Except Error Value → Except Error Value → Prop where
  | ok {v w : Value} (value : SameValue v w) : SameEnding keep (.ok v) (.ok w)
  | error {e f : Error} (errors : e.bare keep = f.bare keep) : SameEnding keep (.error e) (.error f)

namespace Signal

variable {keep : Bool} {s t : Signal}

theorem bare_eq : s.bare keep = t.bare keep ↔ s.value.map Value.bare = t.value.map Value.bare ∧
    s.error.map (Error.bare keep) = t.error.map (Error.bare keep) ∧
    s.functionReturn.map Value.bare = t.functionReturn.map Value.bare ∧
    s.loopContinue = t.loopContinue ∧ s.loopBreak = t.loopBreak ∧
    s.origin.map (fun _ => Span.nowhere) = t.origin.map fun _ => Span.nowhere := by
  simp [bare]

theorem sameValue_getD {a b : Option Value} (h : a.map Value.bare = b.map Value.bare) :
    SameValue (a.getD .null) (b.getD .null) := by
  cases a <;> cases b <;> simp_all [SameValue]

theorem ending_alike (same : s.bare keep = t.bare keep) (span span' : Span) (frame frame' : Frame)
    {v w : Option Value} (values : v.map Value.bare = w.map Value.bare) : SameEnding keep
      (match s.error with
        | some e => .error e
        | none => if s.loopControl then .error (s.stray span frame) else .ok (v.getD .null))
      (match t.error with
        | some e => .error e
        | none => if t.loopControl then .error (t.stray span' frame') else .ok (w.getD .null)) := by
  obtain ⟨-, errors, -, continued, broke, -⟩ := bare_eq.1 same
  have pending : s.loopControl = t.loopControl := by simp only [loopControl, continued, broke]
  have keyword : s.keyword = t.keyword := by simp only [Signal.keyword, broke]
  generalize s.error = left at errors ⊢
  generalize t.error = right at errors ⊢
  cases left <;> cases right <;>
    simp only [Option.map_none, Option.map_some, reduceCtorEq] at errors
  case some.some e f => exact .error (Option.some.inj errors)
  case none.none =>
    simp only [pending]
    split
    · exact .error (by simp only [Error.bare, stray, keyword, Fault.bare])
    · exact .ok (sameValue_getD values)

theorem or_bare {a b c d : Option Value} (first : a.map Value.bare = c.map Value.bare)
    (second : b.map Value.bare = d.map Value.bare) :
    (a.or b).map Value.bare = (c.or d).map Value.bare := by
  rw [Option.map_or, Option.map_or, first, second]

theorem callResult_alike (same : s.bare keep = t.bare keep) (autoReturn : Bool)
    (site site' : Span) (frame frame' : Frame) :
    SameEnding keep (s.callResult autoReturn site frame)
      (t.callResult autoReturn site' frame') := by
  obtain ⟨values, -, returned, -⟩ := bare_eq.1 same
  refine ending_alike same site site' frame frame' (or_bare ?_ returned)
  cases autoReturn with
  | true => exact values
  | false => rfl

theorem programResult_alike (same : s.bare keep = t.bare keep) (span span' : Span)
    (frame frame' : Frame) :
    SameEnding keep (s.programResult span frame) (t.programResult span' frame') := by
  obtain ⟨values, -, returned, -⟩ := bare_eq.1 same
  exact ending_alike same span span' frame frame' (or_bare returned values)

end Signal

inductive SameTurn : Turn → Turn → Prop where
  | value {v w : Value} (h : SameValue v w) : SameTurn (.value v) (.value w)
  | skip : SameTurn .skip .skip
  | stop : SameTurn .stop .stop

namespace Machine.Alike

variable {keep : Bool} {m n : Machine σ}

theorem store (h : m.Alike keep n) : m.store.bare = n.store.bare := (Machine.bare_eq.1 h.same).1

theorem host (h : m.Alike keep n) : m.host = n.host := (Machine.bare_eq.1 h.same).2.1

theorem depth (h : m.Alike keep n) : m.depth = n.depth := (Machine.bare_eq.1 h.same).2.2.1

theorem frames (h : m.Alike keep n) : m.frames = n.frames := (Machine.bare_eq.1 h.same).2.2.2

theorem size (h : m.Alike keep n) : m.store.size = n.store.size := by
  rw [← Store.size_bare, h.store, Store.size_bare]

theorem right (h : m.Alike keep n) : n.Alike keep n :=
  ⟨rfl, fun kept => h.host ▸ h.offline kept⟩

theorem withStore (h : m.Alike keep n) {s t : Store} (same : s.bare = t.bare) :
    Machine.Alike keep { m with store := s } { n with store := t } :=
  ⟨Machine.bare_eq.2 ⟨same, h.host, h.depth, h.frames⟩, h.offline⟩

end Machine.Alike

namespace Eval.Alike

variable {keep : Bool} {α β : Type} {V : α → α → Prop} {W : β → β → Prop}

theorem pure {a b : α} (h : V a b) : Eval.Alike keep V (Pure.pure a : Eval σ α) (Pure.pure b) :=
  fun _ _ machines => .done h machines

theorem spent : Eval.Alike keep V (Eval.spent : Eval σ α) Eval.spent := fun _ _ _ => .spent

theorem leave {x y : Exit} (h : x.signal.bare keep = y.signal.bare keep) :
    Eval.Alike keep V (Eval.leave x : Eval σ α) (Eval.leave y) :=
  fun _ _ machines => .exit h machines

theorem fail (fault : Fault) (span span' : Span) (frame frame' : Frame) :
    Eval.Alike keep V (Eval.fail fault span frame : Eval σ α) (Eval.fail fault span' frame') :=
  leave rfl

theorem bind {p q : Eval σ α} {f g : α → Eval σ β} (hp : Eval.Alike keep V p q)
    (hf : ∀ a b, V a b → Eval.Alike keep W (f a) (g b)) :
    Eval.Alike keep W (p >>= f) (q >>= g) := by
  intro m n machines
  change Step.Alike keep W (Eval.bind p f m) (Eval.bind q g n)
  unfold Eval.bind
  have ends := hp m n machines
  generalize p m = left at ends ⊢
  generalize q n = right at ends ⊢
  cases ends with
  | done value machine => exact hf _ _ value _ _ machine
  | exit reason machine => exact .exit reason machine
  | spent => exact .spent

/-- Two evaluations that are like a third are like each other. -/
theorem common {p q r : Eval σ Value} (hp : Eval.Alike keep SameValue p r)
    (hq : Eval.Alike keep SameValue q r) : Eval.Alike keep SameValue p q := by
  intro m n machines
  have left := hp m n machines
  have right := hq n n machines.right
  generalize p m = x at left ⊢
  generalize q n = y at right ⊢
  generalize r n = z at left right
  cases left with
  | done value machine =>
    cases right with
    | done value' machine' =>
      exact .done (Eq.trans value (Eq.symm value'))
        ⟨machine.same.trans machine'.same.symm, machine.offline⟩
  | exit reason machine =>
    cases right with
    | exit reason' machine' =>
      exact .exit (reason.trans reason'.symm)
        ⟨machine.same.trans machine'.same.symm, machine.offline⟩
  | spent => cases right with | spent => exact .spent

theorem assign {frame frame' : Frame} (frames : frame.bare = frame'.bare) (name : String)
    {v w : Value} (values : SameValue v w) :
    Eval.Alike keep (fun _ _ => True) (Eval.assign frame name v : Eval σ Unit)
      (Eval.assign frame' name w) := by
  intro m n machines
  refine .done trivial (machines.withStore ?_)
  have values : v.bare = w.bare := values
  rw [Store.set_bare, Store.set_bare, machines.store, (Frame.bare_eq.1 frames).2, values]

theorem reassign {frame frame' : Frame} (frames : frame.bare = frame'.bare) (name : String)
    {v w : Value} (values : SameValue v w) : Eval.Alike keep (fun _ _ => True)
      (Eval.reassign frame name v : Eval σ Unit) (Eval.reassign frame' name w) := by
  intro m n machines
  refine .done trivial (machines.withStore ?_)
  have values : v.bare = w.bare := values
  have replaced (s : Store) (id : Nat) (v : Value) : ((s.replace? id name v).getD s).bare =
      (s.bare.replace? id name v.bare).getD s.bare := by
    rw [← Store.replace?_bare]
    cases s.replace? id name v <;> rfl
  rw [replaced, replaced, machines.store, (Frame.bare_eq.1 frames).2, values]

theorem lookup {frame frame' : Frame} (frames : frame.bare = frame'.bare) (name : String) :
    Eval.Alike keep (fun a b => a.map Value.bare = b.map Value.bare)
      (Eval.lookup frame name : Eval σ _) (Eval.lookup frame' name) := by
  intro m n machines
  refine .done ?_ machines
  rw [← Store.get?_bare, ← Store.get?_bare, machines.store, (Frame.bare_eq.1 frames).2]

theorem lift {r s : Except OperationError Value}
    (same : Value.resultBare r = Value.resultBare s) (span span' : Span) (frame frame' : Frame) :
    Eval.Alike keep SameValue (Eval.lift r span frame : Eval σ Value)
      (Eval.lift s span' frame') := by
  cases r with
  | ok v =>
    cases s with
    | ok w =>
      have same : v.bare = w.bare := Except.ok.inj same
      exact pure (by simp [SameValue, same])
    | error e => cases same
  | error e =>
    cases s with
    | ok w => cases same
    | error f =>
      have same : e.fault = f.fault := Except.error.inj same
      simp only [Eval.lift, same]
      exact fail _ _ _ _ _

theorem turn {p q : Evaluation σ} (h : Eval.Alike keep SameValue (unwind p) (unwind q)) :
    Eval.Alike keep SameTurn (ScriptLang.turn p) (ScriptLang.turn q) := by
  intro m n machines
  rw [turn_eq, turn_eq]
  have ends := h m n machines
  generalize unwind p m = left at ends ⊢
  generalize unwind q n = right at ends ⊢
  cases ends with
  | done value machine => exact .done (.value value) machine
  | spent => exact .spent
  | exit reason machine =>
    obtain ⟨-, -, -, continued, broke, -⟩ := Signal.bare_eq.1 reason
    simp only [Step.turn, continued, broke]
    split
    · exact .done .skip machine
    · split
      · exact .done .stop machine
      · exact .exit reason machine

theorem callResult (autoReturn : Bool) (site site' : Span) (frame frame' : Frame)
    {p q : Evaluation σ} (h : Eval.Alike keep SameValue (unwind p) (unwind q)) :
    Eval.Alike keep SameValue (ScriptLang.callResult autoReturn site frame p)
      (ScriptLang.callResult autoReturn site' frame' q) := by
  intro m n machines
  rw [callResult_eq, callResult_eq]
  have ends := h m n machines
  generalize unwind p m = left at ends ⊢
  generalize unwind q n = right at ends ⊢
  cases ends with
  | done value machine =>
    refine .done ?_ machine
    cases autoReturn with
    | true => exact value
    | false => rfl
  | spent => exact .spent
  | @exit x y _ _ reason machine =>
    have endings := Signal.callResult_alike reason autoReturn site site' frame frame'
    unfold Step.callResult
    dsimp only
    generalize x.signal.callResult autoReturn site frame = left at endings ⊢
    generalize y.signal.callResult autoReturn site' frame' = right at endings ⊢
    cases endings with
    | ok value => exact .done value machine
    | error errors => exact .exit (by simp only [Signal.bare, Option.map_some, errors]) machine

theorem nested {p q : Eval σ α} (h : Eval.Alike keep V p q) :
    Eval.Alike keep V (Eval.nested p) (Eval.nested q) := by
  intro m n machines
  have deeper : Machine.Alike keep { m with depth := m.depth + 1 }
      { n with depth := n.depth + 1 } :=
    ⟨Machine.bare_eq.2 ⟨machines.store, machines.host, by rw [machines.depth], machines.frames⟩,
      machines.offline⟩
  unfold Eval.nested
  have ends := h _ _ deeper
  generalize p { m with depth := m.depth + 1 } = left at ends ⊢
  generalize q { n with depth := n.depth + 1 } = right at ends ⊢
  have back {m n : Machine σ} (machine : m.Alike keep n) :
      Machine.Alike keep { m with depth := m.depth - 1 } { n with depth := n.depth - 1 } :=
    ⟨Machine.bare_eq.2 ⟨machine.store, machine.host, by rw [machine.depth], machine.frames⟩,
      machine.offline⟩
  cases ends with
  | done value machine => exact .done value (back machine)
  | exit reason machine => exact .exit reason (back machine)
  | spent => exact .spent

theorem onHost {ask : Host.Ask σ α} (leads : ∀ {h r h'}, ask h = some (r, h') → h.Leads h')
    (site site' : Span) (frame frame' : Frame) : Eval.Alike keep Eq
      (ScriptLang.onHost ask site frame) (ScriptLang.onHost ask site' frame') := by
  intro m n machines
  unfold ScriptLang.onHost
  rw [← machines.host]
  cases answer : ask m.host with
  | none => exact .spent
  | some answered =>
    obtain ⟨result, h⟩ := answered
    have machine : Machine.Alike keep { m with host := h } { n with host := h } :=
      ⟨Machine.bare_eq.2 ⟨machines.store, rfl, machines.depth, machines.frames⟩,
        fun kept => (machines.offline kept).leads (leads answer)⟩
    cases result with
    | ok a => exact .done rfl machine
    | error fault => exact .exit rfl machine

theorem orFail (view : α → β) {r s : Except Fault α} (same : r.map view = s.map view)
    (site site' : Span) (frame frame' : Frame) :
    Eval.Alike keep (fun a b => view a = view b) (ScriptLang.orFail r site frame : Eval σ α)
      (ScriptLang.orFail s site' frame') := by
  cases r with
  | ok a =>
    cases s with
    | ok b => exact pure (Except.ok.inj same)
    | error e => cases same
  | error e =>
    cases s with
    | ok b => cases same
    | error f =>
      obtain rfl : e = f := Except.error.inj same
      exact fail _ _ _ _ _

theorem callFrame (name : String) (outer : Nat) (site site' : Span) (caller caller' : Frame) :
    Eval.Alike keep (fun f g => f.bare = g.bare)
      (Eval.callFrame name outer site caller : Eval σ Frame)
      (Eval.callFrame name outer site' caller') := by
  intro m n machines
  refine .done ?_ ⟨Machine.bare_eq.2 ⟨?_, machines.host, machines.depth, ?_⟩, machines.offline⟩
  · exact Frame.bare_eq.2 ⟨machines.frames, machines.size⟩
  · rw [Store.push_bare, Store.push_bare, machines.store]
  · rw [machines.frames]

theorem plainFrame (name : String) (site site' : Span) {caller caller' : Frame}
    (callers : caller.bare = caller'.bare) :
    Eval.Alike keep (fun f g => f.bare = g.bare) (Eval.plainFrame name site caller : Eval σ Frame)
      (Eval.plainFrame name site' caller') := by
  intro m n machines
  refine .done ?_ ⟨Machine.bare_eq.2 ⟨machines.store, machines.host, machines.depth, ?_⟩,
    machines.offline⟩
  · exact Frame.bare_eq.2 ⟨machines.frames, (Frame.bare_eq.1 callers).2⟩
  · rw [machines.frames]

theorem bindParams {frame frame' : Frame} (frames : frame.bare = frame'.bare)
    (names : List String) {values values' : List Value}
    (same : values.map Value.bare = values'.map Value.bare) :
    Eval.Alike keep (fun _ _ => True) (ScriptLang.bindParams frame names values : Eval σ Unit)
      (ScriptLang.bindParams frame' names values') := by
  induction names generalizing values values' with
  | nil => exact pure trivial
  | cons name names ih =>
    cases values with
    | nil =>
      cases values' with
      | nil => exact pure trivial
      | cons _ _ => simp at same
    | cons v values =>
      cases values' with
      | nil => simp at same
      | cons w values' =>
        rw [List.map_cons, List.map_cons] at same
        obtain ⟨head, tail⟩ := List.cons.inj same
        exact (assign frames name (by simpa [SameValue] using head)).bind fun _ _ _ => ih tail

theorem checkCall (limit : Nat) {callee callee' : Value} (callees : SameValue callee callee')
    (params args : Nat) (site site' : Span) (frame frame' : Frame) :
    Eval.Alike keep (fun _ _ => True)
      (ScriptLang.checkCall limit callee params args site frame : Eval σ Unit)
      (ScriptLang.checkCall limit callee' params args site' frame') := by
  intro m n machines
  have shown : callee.display = callee'.display := by
    rw [← Value.display_bare callee, callees, Value.display_bare]
  unfold ScriptLang.checkCall
  rw [machines.depth, shown]
  split
  · exact .exit rfl machines
  · split
    · exact .exit rfl machines
    · split
      · exact .exit rfl machines
      · exact .done trivial machines

end Eval.Alike

end ScriptLang
