import ScriptLang.Proofs.CallDepth
import ScriptLang.Proofs.Held
import ScriptLang.Proofs.Settling.Host
import ScriptLang.Proofs.Subtree

/-! Programs whose only loops count from one integer literal to another, and evaluations that come
to an end after a certain number of steps. An end is said together with what it leaves behind:
values and scopes that hold no function with other loops. -/
namespace ScriptLang

variable {σ : Type}

open Eval

/-- No loop, or one that counts up from one integer literal to another. -/
def Node.counts {α : Type} : Node α → Bool
  | .whileLoop .. => false
  | .forLoop _ (.number (.int _) _) (.number (.int _) _) none _ _ _ => true
  | .forLoop .. => false
  | _ => true

def Node.Paced {α : Type} (n : Node α) : Prop := n.Every (·.counts = true)

def Function.Paced (f : Function) : Prop := f.body.Paced

abbrev Value.Paced (v : Value) : Prop := v.Holds Function.Paced

/-- A text that has no other loops. One that cannot be read has none. -/
def Source.Paced (source : Source) : Prop := ∀ tree, source.tree = .ok tree → tree.Paced

theorem Source.Paced.of_within {source : Source} (levels : Nat)
    (h : source.tree.toOption.all (·.everyWithin Node.counts levels) = true) : source.Paced := by
  intro tree read
  rw [read] at h
  exact .of_within h

/-- All scripts that the host hands out, now or later, are such texts. -/
def Host.Paced (h : Host σ) : Prop :=
  ∀ h', h.Leads h' → ∀ path text, (h'.load path).1 = .ok text → Source.Paced ⟨path, text⟩

theorem Host.Paced.leads {h h' : Host σ} (paced : h.Paced) (leads : h.Leads h') : h'.Paced :=
  fun h'' further => paced h'' (leads.trans further)

theorem Host.Paced.ofMemory {m : Memory}
    (scripts : ∀ path text, m.script path = .ok text → Source.Paced ⟨path, text⟩) :
    (ofMemory m).Paced := by
  intro h leads path text loaded
  have memory : h.operations = Memory.operations := operations_of_leads leads
  apply scripts
  rw [← loaded, load, memory, ← show h.state.script = m.script from script_of_leads rfl leads]
  rfl

/-- So many calls are active, and nothing is there to be run that is not paced, nor lines to be
read without end. -/
structure Machine.Paced (d : Nat) (m : Machine σ) : Prop where
  depth : m.depth = d
  store : m.store.Holds Function.Paced
  host : m.host.Paced
  input : m.host.FiniteInput

structure Signal.Paced (s : Signal) : Prop where
  value : ∀ v ∈ s.value, v.Paced
  functionReturn : ∀ v ∈ s.functionReturn, v.Paced

theorem Signal.Paced.callResult {s : Signal} (paced : s.Paced) {autoReturn : Bool} {site : Span}
    {frame : Frame} {v : Value} (h : s.callResult autoReturn site frame = .ok v) : v.Paced := by
  unfold Signal.callResult at h
  split at h
  · cases h
  · split at h
    · cases h
    · cases h
      have own : ∀ v ∈ (if autoReturn then s.value else none), v.Paced := by
        cases autoReturn with
        | true => exact paced.value
        | false => exact nofun
      rcases eq : (if autoReturn then s.value else none).or s.functionReturn with _ | v
      · exact .null
      · rcases Option.or_eq_some_iff.1 eq with here | ⟨-, there⟩
        · exact own v here
        · exact paced.functionReturn v there

def Step.Ends {α : Type} (d : Nat) (A : α → Prop) : Step σ α → Prop
  | .done a m => A a ∧ m.Paced d
  | .exit e m => e.signal.Paced ∧ m.Paced d
  | .spent => False

def Turn.Paced : Turn → Prop
  | .value v => v.Paced
  | _ => True

/-- From each machine on which `d` calls are active, `p` takes so many steps to an end: with more
it comes to the same end, and with fewer to none. -/
def Eval.Settles {α : Type} (d : Nat) (A : α → Prop) (p : Nat → Eval σ α) : Prop :=
  ∀ m, m.Paced d → ∃ n x, x.Ends d A ∧ ∀ fuel, p fuel m = if n ≤ fuel then x else .spent

namespace Eval.Settles

variable {d : Nat} {α β : Type} {A : α → Prop} {B : β → Prop}

theorem atOnce {p : Eval σ α} (h : ∀ m, m.Paced d → (p m).Ends d A) : Settles d A fun _ => p := by
  intro m paced
  exact ⟨0, p m, h m paced, fun _ => rfl⟩

theorem pure {a : α} (h : A a) : Settles d A fun _ => (Pure.pure a : Eval σ α) :=
  atOnce fun _ paced => ⟨h, paced⟩

theorem leave {e : Exit} (h : e.signal.Paced) :
    Settles d A fun _ => (Eval.leave e : Eval σ α) :=
  atOnce fun _ paced => ⟨h, paced⟩

theorem fail (fault : Fault) (span : Span) (frame : Frame) :
    Settles d A fun _ => (Eval.fail fault span frame : Eval σ α) :=
  leave ⟨nofun, nofun⟩

theorem bind {p : Nat → Eval σ α} {f : Nat → α → Eval σ β} (hp : Settles d A p)
    (hf : ∀ a, A a → Settles d B fun fuel => f fuel a) :
    Settles d B fun fuel => p fuel >>= f fuel := by
  intro m paced
  obtain ⟨n, x, ends, steps⟩ := hp m paced
  cases x with
  | done a m' =>
    obtain ⟨n', y, ends', steps'⟩ := hf a ends.1 m' ends.2
    refine ⟨max n n', y, ends', fun fuel => ?_⟩
    change Eval.bind (p fuel) (f fuel) m = _
    rw [Eval.bind, steps]
    by_cases first : n ≤ fuel
    · rw [if_pos first]
      by_cases second : n' ≤ fuel
      · rw [if_pos (Nat.max_le.2 ⟨first, second⟩)]
        exact (steps' fuel).trans (if_pos second)
      · rw [if_neg fun both => second (Nat.max_le.1 both).2]
        exact (steps' fuel).trans (if_neg second)
    · rw [if_neg first, if_neg fun both => first (Nat.max_le.1 both).1]
  | exit e m' =>
    refine ⟨n, .exit e m', ends, fun fuel => ?_⟩
    change Eval.bind (p fuel) (f fuel) m = _
    rw [Eval.bind, steps]
    by_cases first : n ≤ fuel
    · rw [if_pos first, if_pos first]
    · rw [if_neg first, if_neg first]
  | spent => exact ends.elim

theorem ending {p : Nat → Eval σ α} {q : Nat → Eval σ β} (look : Step σ α → Step σ β)
    (looks : ∀ fuel m, q fuel m = look (p fuel m)) (spent : look .spent = .spent)
    (ends : ∀ x, x.Ends d A → (look x).Ends d B) (hp : Settles d A p) : Settles d B q := by
  intro m paced
  obtain ⟨n, x, ended, steps⟩ := hp m paced
  refine ⟨n, look x, ends x ended, fun fuel => ?_⟩
  rw [looks, steps]
  split
  · rfl
  · exact spent

theorem nested {p : Nat → Eval σ α} (hp : Settles (d + 1) A p) :
    Settles d A fun fuel => Eval.nested (p fuel) := by
  intro m paced
  obtain ⟨n, x, ends, steps⟩ := hp { m with depth := m.depth + 1 }
    ⟨by rw [paced.depth], paced.store, paced.host, paced.input⟩
  have back {m : Machine σ} (paced : m.Paced (d + 1)) :
      Machine.Paced d { m with depth := m.depth - 1 } :=
    ⟨by rw [paced.depth, Nat.add_sub_cancel], paced.store, paced.host, paced.input⟩
  refine ⟨n, Eval.nested (fun _ => x) m, ?_, fun fuel => ?_⟩
  · cases x with
    | done a m' => exact ⟨ends.1, back ends.2⟩
    | exit e m' => exact ⟨ends.1, back ends.2⟩
    | spent => exact ends
  · simp only [Eval.nested, steps]
    by_cases enough : n ≤ fuel
    · simp only [if_pos enough]
    · simp only [if_neg enough]

theorem turn {p : Nat → Evaluation σ} (hp : Settles d Value.Paced fun fuel => unwind (p fuel)) :
    Settles d Turn.Paced fun fuel => ScriptLang.turn (p fuel) := by
  apply hp.ending Step.turn (fun fuel => turn_eq (p fuel)) rfl
  intro x ends
  cases x with
  | done v m => exact ends
  | exit e m =>
    unfold Step.turn
    dsimp only
    split
    · exact ⟨trivial, ends.2⟩
    · split
      · exact ⟨trivial, ends.2⟩
      · exact ends
  | spent => exact ends

theorem callResult {p : Nat → Evaluation σ}
    (hp : Settles d Value.Paced fun fuel => unwind (p fuel)) (autoReturn : Bool) (site : Span)
    (frame : Frame) :
    Settles d Value.Paced fun fuel => ScriptLang.callResult autoReturn site frame (p fuel) := by
  apply hp.ending (Step.callResult autoReturn site frame)
    (fun fuel => callResult_eq autoReturn site frame (p fuel)) rfl
  intro x ends
  cases x with
  | done v m =>
    cases autoReturn with
    | false => exact ⟨.null, ends.2⟩
    | true => exact ends
  | exit e m =>
    unfold Step.callResult
    dsimp only
    split
    · next result => exact ⟨ends.1.callResult result, ends.2⟩
    · exact ⟨⟨nofun, nofun⟩, ends.2⟩
  | spent => exact ends

/-- Where nothing is done without a step, what is done after the first one matters. -/
theorem later {p : Nat → Eval σ α} (first : p 0 = Eval.spent)
    (h : Settles d A fun fuel => p (fuel + 1)) : Settles d A p := by
  intro m paced
  obtain ⟨n, x, ends, steps⟩ := h m paced
  refine ⟨n + 1, x, ends, fun fuel => ?_⟩
  cases fuel with
  | zero =>
    rw [first, if_neg (Nat.not_succ_le_zero n)]
    rfl
  | succ fuel =>
    apply (steps fuel).trans
    simp only [Nat.add_le_add_iff_right]

theorem shift {p : Nat → Eval σ α} (hp : Settles d A p) (k : Nat) :
    Settles d A fun fuel => p (fuel + k) := by
  intro m paced
  obtain ⟨n, x, ends, steps⟩ := hp m paced
  refine ⟨n - k, x, ends, fun fuel => ?_⟩
  apply (steps (fuel + k)).trans
  simp only [Nat.sub_le_iff_le_add]

theorem assign (frame : Frame) (name : String) {v : Value} (hv : v.Paced) :
    Settles d (fun _ => True) fun _ => (Eval.assign frame name v : Eval σ Unit) :=
  atOnce fun _ paced => ⟨trivial, paced.depth, paced.store.set _ name hv, paced.host, paced.input⟩

theorem reassign (frame : Frame) (name : String) {v : Value} (hv : v.Paced) :
    Settles d (fun _ => True) fun _ => (Eval.reassign frame name v : Eval σ Unit) :=
  atOnce fun _ paced =>
    ⟨trivial, paced.depth, paced.store.replace _ name hv, paced.host, paced.input⟩

theorem lookup (frame : Frame) (name : String) :
    Settles d (∀ v ∈ ·, Value.Paced v) fun _ => (Eval.lookup frame name : Eval σ _) :=
  atOnce fun _ paced => ⟨fun _ found => paced.store.get found, paced⟩

theorem lift {result : Except OperationError Value} (h : ∀ v, result = .ok v → v.Paced)
    (span : Span) (frame : Frame) :
    Settles d Value.Paced fun _ => (Eval.lift result span frame : Eval σ Value) := by
  cases result with
  | ok v => exact pure ((h v rfl).place span frame)
  | error e => exact fail _ _ _

theorem orFail {result : Except Fault α} (h : ∀ a, result = .ok a → A a) (site : Span)
    (frame : Frame) : Settles d A fun _ => (ScriptLang.orFail result site frame : Eval σ α) := by
  cases result with
  | ok a => exact pure (h a rfl)
  | error fault => exact fail _ _ _

theorem onHost {ask : Nat → Host.Ask σ α} (serves : ∀ fuel, (ask fuel).Serves)
    (answers : ∀ h : Host σ, h.FiniteInput → Host.Answers fun fuel => ask fuel h) (site : Span)
    (frame : Frame) :
    Settles d (fun _ => True) fun fuel => ScriptLang.onHost (ask fuel) site frame := by
  intro m paced
  obtain ⟨n, ⟨result, h⟩, answered⟩ := answers m.host paced.input
  have leads : m.host.Leads h := (serves n).leads ((answered n).trans (if_pos (Nat.le_refl n)))
  have ends : Machine.Paced d { m with host := h } :=
    ⟨paced.depth, paced.store, paced.host.leads leads, paced.input.leads leads⟩
  refine ⟨n, ScriptLang.onHost (fun _ => some (result, h)) site frame m, ?_, fun fuel => ?_⟩
  · cases result with
    | ok a => exact ⟨trivial, ends⟩
    | error fault => exact ⟨⟨nofun, nofun⟩, ends⟩
  · have answered : ask fuel m.host = _ := answered fuel
    simp only [ScriptLang.onHost, answered]
    by_cases enough : n ≤ fuel
    · simp only [if_pos enough]
    · simp only [if_neg enough]

theorem fetch (path : String) (site : Span) (frame : Frame) :
    Settles d (fun text => Source.Paced ⟨path, text⟩) fun _ =>
      (ScriptLang.onHost (Host.fetch path) site frame : Eval σ String) := by
  apply atOnce
  intro m paced
  have leads := Host.leads_load m.host path
  have ends : Machine.Paced d { m with host := (m.host.load path).2 } :=
    ⟨paced.depth, paced.store, paced.host.leads leads, paced.input.leads leads⟩
  unfold ScriptLang.onHost Host.fetch
  cases loaded : (m.host.load path).1 with
  | ok text => exact ⟨paced.host _ .refl path text loaded, ends⟩
  | error reason => exact ⟨⟨nofun, nofun⟩, ends⟩

theorem bindParams (frame : Frame) (names : List String) {values : List Value}
    (h : ∀ v ∈ values, v.Paced) :
    Settles d (fun _ => True) fun _ =>
      (ScriptLang.bindParams frame names values : Eval σ Unit) := by
  induction names generalizing values with
  | nil => exact pure trivial
  | cons name names ih =>
    cases values with
    | nil => exact pure trivial
    | cons v values =>
      have ⟨first, rest⟩ := List.forall_mem_cons.1 h
      exact (assign frame name (first.restamp _)).bind fun _ _ => ih rest

theorem checkCall (limit : Nat) (callee : Value) (params args : Nat) (site : Span)
    (frame : Frame) :
    Settles d (fun _ => d < limit) fun _ =>
      (ScriptLang.checkCall limit callee params args site frame : Eval σ Unit) := by
  apply atOnce
  intro m paced
  have counted := paced.depth
  have refused (e : Error) : (Step.exit (.failed e) m : Step σ Unit).Ends d fun _ => d < limit :=
    ⟨⟨nofun, nofun⟩, paced⟩
  unfold ScriptLang.checkCall
  split
  · exact refused _
  · split
    · exact refused _
    · split
      · exact refused _
      · exact ⟨by omega, paced⟩

end Eval.Settles

end ScriptLang
