import ScriptLang.Machine

/-! Loops. A loop takes turns until its condition fails or its body breaks out, and gives the list
of the values of the turns that were not cut short. -/
namespace ScriptLang

open Eval

inductive Turn where
  | value (v : Value)
  | skip
  | stop

/-- `BREAK` and `CONTINUE` end here; all other signals go on. -/
def turn {σ : Type} (p : Evaluation σ) : Eval σ Turn := fun m =>
  match p m with
  | some (s, m') =>
    if s.loopContinue then .done .skip m'
    else if s.loopBreak then .done .stop m'
    else if h : s.shouldUnwind then .exit ⟨s, h⟩ m'
    else .done (.value (s.value.getD .null)) m'
  | none => .spent

/-- Whether a counting loop goes on. A step that is not negative counts upwards. -/
def inRange (current last step : Number) : Bool :=
  (current.compare last).any (if step.isNegative then Ordering.isGT else Ordering.isLT)

def loopValue (values : List Value) (suppress : Bool) (span : Span) (frame : Frame) : Value :=
  if suppress then .null else (Value.list values.reverse .none).place span frame

section Rules

variable {σ : Type} (fuel : Nat) (self : Evaluator σ)

def evalBound (node : Tree) (frame : Frame) : Eval σ Number := do
  let v ← unwind (self node frame)
  match v.number? with
  | some n => return n
  | none => fail (.boundNotNumber v.typeName) node.span frame

def evalStep (frame : Frame) : Option Tree → Eval σ Number
  | none => pure (.int 1)
  | some node => do
    let n ← evalBound self node frame
    if n.isZero then fail .stepZero node.span frame else return n

/-- The next number is fixed before the body runs, so the body cannot change the count. -/
def forTurns (name : String) (last step : Number) (body : Tree) (frame : Frame) :
    Nat → Number → List Value → Eval σ (List Value)
  | 0, _, _ => spent
  | n + 1, current, values =>
    if inRange current last step then do
      assign frame name (.number current .none)
      match ← turn (self body frame) with
      | .value v => forTurns name last step body frame n (current.add step) (v :: values)
      | .skip => forTurns name last step body frame n (current.add step) values
      | .stop => return values
    else return values

def whileTurns (condition body : Tree) (frame : Frame) :
    Nat → List Value → Eval σ (List Value)
  | 0, _ => spent
  | n + 1, values => do
    if (← unwind (self condition frame)).isTrue then
      match ← turn (self body frame) with
      | .value v => whileTurns condition body frame n (v :: values)
      | .skip => whileTurns condition body frame n values
      | .stop => return values
    else return values

def evalFor (name : String) (first last : Tree) (step : Option Tree) (body : Tree)
    (suppress : Bool) (span : Span) (frame : Frame) : Eval σ Value := do
  let start ← evalBound self first frame
  let stop ← evalBound self last frame
  let increment ← evalStep self frame step
  let values ← forTurns self name stop increment body frame fuel start []
  return loopValue values suppress span frame

def evalWhile (condition body : Tree) (suppress : Bool) (span : Span) (frame : Frame) :
    Eval σ Value := do
  return loopValue (← whileTurns self condition body frame fuel []) suppress span frame

end Rules

end ScriptLang
