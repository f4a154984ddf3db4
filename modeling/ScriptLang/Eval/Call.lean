import ScriptLang.Eval.Program
import ScriptLang.Eval.Sequence
import ScriptLang.Host.Ask
import ScriptLang.Value.Change

/-! Calls of functions and built-in functions. -/
namespace ScriptLang

open Eval

variable {σ : Type}

def onHost {α : Type} (ask : Host.Ask σ α) (site : Span) (frame : Frame) : Eval σ α := fun m =>
  match ask m.host with
  | some (.ok a, h) => .done a { m with host := h }
  | some (.error fault, h) => fail fault site frame { m with host := h }
  | none => .spent

def orFail {α : Type} (result : Except Fault α) (site : Span) (frame : Frame) : Eval σ α :=
  match result with
  | .ok a => pure a
  | .error fault => fail fault site frame

/-- A call gives a value or fails, whatever its body does. -/
def callResult (autoReturn : Bool) (site : Span) (frame : Frame) (p : Evaluation σ) :
    Eval σ Value := fun m =>
  match p m with
  | some (s, m') =>
    match s.callResult autoReturn site frame with
    | .ok v => .done v m'
    | .error e => leave (.failed e) m'
  | none => .spent

def bindParams (frame : Frame) : List String → List Value → Eval σ Unit
  | name :: names, v :: values => do
    assign frame name (v.own frame)
    bindParams frame names values
  | _, _ => pure ()

/-- The variable whose list a call changes: the first argument, if it is a plain variable. -/
def target? : List Tree → Option String
  | .access name _ :: _ => some name
  | _ => none

section Rules

variable (limit fuel : Nat) (self : Evaluator σ)

/-- What every call checks first: how deep it would be, then how many arguments it has. -/
def checkCall (callee : Value) (params args : Nat) (site : Span) (frame : Frame) : Eval σ Unit :=
  fun m =>
    if limit ≤ m.depth then leave (.failed (.recursion limit site frame)) m
    else if params < args then fail (.tooManyArguments (args - params) callee.display) site frame m
    else if args < params then fail (.tooFewArguments (params - args) callee.display) site frame m
    else .done () m

/-- The body runs in a new scope inside the one the function was made in. -/
def callFunction (f : Function) (callee : Value) (args : List Value) (site : Span)
    (caller : Frame) : Eval σ Value := do
  checkCall limit callee f.params.length args.length site caller
  let frame ← callFrame f.displayName f.closure.scope site caller
  bindParams frame f.params args
  callResult f.autoReturn site frame (self f.body frame).nested

/-- Runs a script; its failure becomes one failure of the call. -/
def runScript (path : String) (site : Span) (frame : Frame) : Eval σ Value := do
  let text ← onHost (Host.fetch path) site frame
  fun m =>
    match runSource self ⟨path, text⟩ m with
    | some (.ok _, m) => .done .null m
    | some (.error e, m) => fail (.scriptFailed path e.render) site frame m
    | none => .spent

/-- The result, and for the functions that change their first argument what becomes of it. The
number of arguments has been checked. -/
def execute (b : Builtin) (args : List Value) (site : Span) (frame : Frame) :
    Eval σ (Value × Option Value) :=
  match b, args with
  | .print, [v] => do
    onHost (Host.print v.display) site frame
    return (.null, none)
  | .printRet, [v] => return (.string v.display .none, none)
  | .input, _ => return (.string (← onHost Host.ask site frame) .none, none)
  | .inputInt, _ => return (.int (← onHost (Host.askInteger fuel) site frame), none)
  | .clear, _ => do
    onHost Host.wipe site frame
    return (.null, none)
  | .isNumber, [v] => return (.bool v.number?.isSome, none)
  | .isString, [v] => return (.bool v.string?.isSome, none)
  | .isList, [v] => return (.bool v.list?.isSome, none)
  | .isFunction, [v] => return (.bool v.isCallable, none)
  | .append, [first, v] => return (.null, some (← orFail (first.append v) site frame))
  | .pop, [first, v] => do
    let (taken, rest) ← orFail (first.pop v) site frame
    return (taken, some rest)
  | .extend, [first, v] => return (.null, some (← orFail (first.extend v) site frame))
  | .len, [.list vs _] => return (.int (Int64.ofNat vs.length), none)
  | .len, [_] => fail .argumentNotList site frame
  | .run, [.string path _] => return (← runScript self path site frame, none)
  | .run, [_] => fail .argumentNotString site frame
  | _, _ => return (.null, none)

/-- A changed list is written back where the caller finds its variable. -/
def callBuiltin (b : Builtin) (callee : Value) (args : List Value) (nodes : List Tree)
    (site : Span) (caller : Frame) : Eval σ Value := do
  checkCall limit callee b.params.length args.length site caller
  let frame ← plainFrame b.name site caller
  let (result, changed) ← nested (execute fuel self b args site frame)
  match changed, target? nodes with
  | some v, some name => reassign caller name v
  | _, _ => pure ()
  return result

/-- The arguments are evaluated before it is seen whether there is something to call. -/
def evalCall (callee : Tree) (args : List Tree) (span : Span) (frame : Frame) : Eval σ Value := do
  let f := (← unwind (self callee frame)).place span frame
  let values ← evalAll self frame args
  match f with
  | .function g _ => return (← callFunction limit self g f values span frame).place span frame
  | .builtin b _ =>
    return (← callBuiltin limit fuel self b f values args span frame).place span frame
  | _ => fail .illegalOperation span frame

end Rules

end ScriptLang
