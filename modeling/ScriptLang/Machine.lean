import ScriptLang.Host
import ScriptLang.Scope
import ScriptLang.Signal
import ScriptLang.Value.Operation

/-! What running changes, and the steps that change it. A step ends with a value, or leaves the
rule it is part of with a signal, or runs out of fuel. Whatever the end, the machine as it then is
comes with it. -/
namespace ScriptLang

structure Machine (σ : Type) where
  store : Store
  host : Host σ
  /-- How many calls are active. -/
  depth : Nat
  /-- The identity of the next frame. -/
  frames : Nat

inductive Step (σ α : Type) where
  | done (value : α) (machine : Machine σ)
  | exit (reason : Exit) (machine : Machine σ)
  | spent

def Eval (σ α : Type) : Type := Machine σ → Step σ α

variable {σ : Type}

namespace Eval

variable {α β : Type}

@[always_inline, inline] protected def pure (a : α) : Eval σ α := fun m => .done a m

@[always_inline, inline] protected def bind (p : Eval σ α) (f : α → Eval σ β) : Eval σ β :=
  fun m =>
    match p m with
    | .done a m' => f a m'
    | .exit e m' => .exit e m'
    | .spent => .spent

instance : Monad (Eval σ) where
  pure := Eval.pure
  bind := Eval.bind

def spent : Eval σ α := fun _ => .spent

def leave (reason : Exit) : Eval σ α := fun m => .exit reason m

def fail (fault : Fault) (span : Span) (frame : Frame) : Eval σ α :=
  leave (.failed (.runtime fault span frame))

/-- The result of an operator; what its operands do not know of a failure is filled in. -/
def lift (result : Except OperationError Value) (span : Span) (frame : Frame) : Eval σ Value :=
  match result with
  | .ok v => pure (v.place span frame)
  | .error e => fail e.fault (e.stamp.span.getD span) (e.stamp.frame.getD frame)

def lookup (frame : Frame) (name : String) : Eval σ (Option Value) := fun m =>
  .done (m.store.get? frame.scope name) m

def assign (frame : Frame) (name : String) (v : Value) : Eval σ Unit := fun m =>
  .done () { m with store := m.store.set frame.scope name v }

/-- Writes to the nearest binding; nothing happens without one. -/
def reassign (frame : Frame) (name : String) (v : Value) : Eval σ Unit := fun m =>
  .done () { m with store := (m.store.replace? frame.scope name v).getD m.store }

def callFrame (name : String) (outer : Nat) (site : Span) (caller : Frame) : Eval σ Frame :=
  fun m => .done (.call m.frames name m.store.size site caller)
    { m with store := m.store.push (some outer), frames := m.frames + 1 }

def plainFrame (name : String) (site : Span) (caller : Frame) : Eval σ Frame := fun m =>
  .done (.call m.frames name caller.scope site caller) { m with frames := m.frames + 1 }

def nested (p : Eval σ α) : Eval σ α := fun m =>
  match p { m with depth := m.depth + 1 } with
  | .done a m' => .done a { m' with depth := m'.depth - 1 }
  | .exit e m' => .exit e { m' with depth := m'.depth - 1 }
  | .spent => .spent

end Eval

/-- Evaluation of a whole tree: its signal and the machine then, if the fuel suffices. -/
abbrev Evaluation (σ : Type) : Type := Machine σ → Option (Signal × Machine σ)

abbrev Evaluator (σ : Type) : Type := Tree → Frame → Evaluation σ

def Eval.signal (p : Eval σ Value) : Evaluation σ := fun m =>
  match p m with
  | .done v m' => some (.success v, m')
  | .exit e m' => some (e.signal, m')
  | .spent => none

/-- Goes on with the value of a signal, or leaves with one that has to unwind. -/
def unwind (p : Evaluation σ) : Eval σ Value := fun m =>
  match p m with
  | some (s, m') => if h : s.shouldUnwind then .exit ⟨s, h⟩ m' else .done (s.value.getD .null) m'
  | none => .spent

def Evaluation.nested (p : Evaluation σ) : Evaluation σ := fun m =>
  match p { m with depth := m.depth + 1 } with
  | some (s, m') => some (s, { m' with depth := m'.depth - 1 })
  | none => none

end ScriptLang
