import ScriptLang.Machine

/-! Evaluation of several trees in order, and of the one that conditions choose. -/
namespace ScriptLang

open Eval

section Rules

variable {σ : Type} (self : Evaluator σ)

def evalAll (frame : Frame) : List Tree → Eval σ (List Value)
  | [] => pure []
  | node :: rest => do
    let v ← unwind (self node frame)
    return v :: (← evalAll frame rest)

def bodyValue (v : Value) (suppress : Bool) (span : Span) (frame : Frame) : Value :=
  if suppress then .null else v.place span frame

def evalOtherwise (span : Span) (frame : Frame) : Option (Otherwise Tree) → Eval σ Value
  | none => pure .null
  | some last => do
    return bodyValue (← unwind (self last.body frame)) last.suppress span frame

def evalArms (last : Option (Otherwise Tree)) (span : Span) (frame : Frame) :
    List (Arm Tree) → Eval σ Value
  | [] => evalOtherwise self span frame last
  | arm :: rest => do
    if (← unwind (self arm.condition frame)).isTrue then
      return bodyValue (← unwind (self arm.body frame)) arm.suppress span frame
    else evalArms last span frame rest

end Rules

end ScriptLang
