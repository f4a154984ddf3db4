import ScriptLang.Eval.Call
import ScriptLang.Eval.Loop

/-! Evaluation of trees. Each rule is given the evaluator of the parts of a tree and of function
bodies, and fuel for its loops; tying the knot uses one unit of fuel per level. -/
namespace ScriptLang

open Eval

section Rules

variable {σ : Type} (limit fuel : Nat) (self : Evaluator σ)

/-- A named function is bound where it is defined. -/
def evalFunction (name : Option String) (params : List String) (body : Tree) (autoReturn : Bool)
    (mark : Mark) (frame : Frame) : Eval σ Value := do
  let f : Function := ⟨mark.index, name, params, body, autoReturn, frame⟩
  let v := (Value.function f .none).place mark.span frame
  match name with
  | some name => assign frame name v
  | none => pure ()
  return v

def evalNode : Tree → Frame → Eval σ Value
  | .number n mark, frame => return (Value.number n .none).place mark.span frame
  | .string s mark, frame => return (Value.string s .none).place mark.span frame
  | .list elements mark, frame => do
    return (Value.list (← evalAll self frame elements) .none).place mark.span frame
  | .block statements mark, frame => do
    return (Value.list (← evalAll self frame statements) .none).place mark.span frame
  | .access name mark, frame => do
    match ← lookup frame name with
    | some v => return v.place mark.span frame
    | none => fail (.undefined name) mark.span frame
  | .assign name value _, frame => do
    let v ← unwind (self value frame)
    assign frame name v
    return v
  | .unary op operand mark, frame => do
    lift (op.apply (← unwind (self operand frame))) mark.span frame
  | .binary op left right mark, frame => do
    let a ← unwind (self left frame)
    let b ← unwind (self right frame)
    lift (op.apply a b) mark.span frame
  | .cond arms last mark, frame => evalArms self last mark.span frame arms
  | .forLoop name first last step body suppress mark, frame =>
    evalFor fuel self name first last step body suppress mark.span frame
  | .whileLoop condition body suppress mark, frame =>
    evalWhile fuel self condition body suppress mark.span frame
  | .breaks mark, _ => leave (.broke mark.span)
  | .continues mark, _ => leave (.continued mark.span)
  | .returns none _, _ => leave (.returned .null)
  | .returns (some value) _, frame => do leave (.returned (← unwind (self value frame)))
  | .function name params body autoReturn mark, frame =>
    evalFunction name params body autoReturn mark frame
  | .call callee args mark, frame => evalCall limit fuel self callee args mark.span frame

end Rules

/-- Evaluates a tree in a frame. At most `limit` calls may be active at a time. -/
def evaluate {σ : Type} (limit : Nat) : Nat → Evaluator σ
  | 0 => fun _ _ _ => none
  | fuel + 1 => fun node frame => (evalNode limit fuel (evaluate limit fuel) node frame).signal

/-- Evaluation of a tree as a part of what stands around it. -/
def eval {σ : Type} (limit fuel : Nat) (node : Tree) (frame : Frame) : Eval σ Value :=
  unwind (evaluate limit fuel node frame)

end ScriptLang
