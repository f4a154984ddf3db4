import ScriptLang.Proofs.Unwind

/-! Evaluation with another way of writing back. A built-in function that changes a list is told of
here with what is done about the change left open; with the usual way it is evaluation as it is. -/
namespace ScriptLang

open Eval

/-- What is done about the list that a built-in function has changed, for a variable of the
caller. -/
abbrev PutBack (σ : Type) : Type := Builtin → Frame → String → Value → Eval σ Unit

variable {σ : Type}

abbrev PutBack.usual : PutBack σ := fun _ => reassign

section With

variable (putBack : PutBack σ) (limit fuel : Nat) (self : Evaluator σ)

def callBuiltinWith (b : Builtin) (callee : Value) (args : List Value) (nodes : List Tree)
    (site : Span) (caller : Frame) : Eval σ Value := do
  checkCall limit callee b.params.length args.length site caller
  let frame ← plainFrame b.name site caller
  let (result, changed) ← nested (execute fuel self b args site frame)
  match changed, target? nodes with
  | some v, some name => putBack b caller name v
  | _, _ => pure ()
  return result

def evalCallWith (callee : Tree) (args : List Tree) (span : Span) (frame : Frame) :
    Eval σ Value := do
  let f := (← unwind (self callee frame)).place span frame
  let values ← evalAll self frame args
  match f with
  | .function g _ => return (← callFunction limit self g f values span frame).place span frame
  | .builtin b _ =>
    return (← callBuiltinWith putBack limit fuel self b f values args span frame).place span frame
  | _ => fail .illegalOperation span frame

def evalNodeWith : Tree → Frame → Eval σ Value
  | .call callee args mark, frame =>
    evalCallWith putBack limit fuel self callee args mark.span frame
  | node, frame => evalNode limit fuel self node frame

end With

def evaluateWith (putBack : PutBack σ) (limit : Nat) : Nat → Evaluator σ
  | 0 => fun _ _ _ => none
  | fuel + 1 => fun node frame =>
    (evalNodeWith putBack limit fuel (evaluateWith putBack limit fuel) node frame).signal

theorem evaluateWith_usual (limit fuel : Nat) :
    evaluateWith PutBack.usual limit fuel = (evaluate limit fuel : Evaluator σ) := by
  induction fuel with
  | zero => rfl
  | succ fuel ih =>
    funext node frame
    unfold evaluateWith evaluate
    rw [ih]
    cases node <;> rfl

end ScriptLang
