import ScriptLang.Diagnostic
import ScriptLang.Value

/-! Signals, which evaluating a tree ends with. One that is more than a plain value makes the
trees around stop as well and hand it upwards, until a loop takes a `BREAK` or `CONTINUE` and a
call takes a `RETURN`. -/
namespace ScriptLang

structure Signal where
  value : Option Value := none
  error : Option Error := none
  functionReturn : Option Value := none
  loopContinue : Bool := false
  loopBreak : Bool := false
  /-- Where a `BREAK` or `CONTINUE` was raised. -/
  origin : Option Span := none

namespace Signal

abbrev success (v : Value) : Signal := { value := some v }

abbrev failure (e : Error) : Signal := { error := some e }

abbrev returns (v : Value) : Signal := { functionReturn := some v }

abbrev breaks (origin : Span) : Signal := { loopBreak := true, origin := some origin }

abbrev continues (origin : Span) : Signal := { loopContinue := true, origin := some origin }

def loopControl (s : Signal) : Bool := s.loopBreak || s.loopContinue

def shouldUnwind (s : Signal) : Bool :=
  s.error.isSome || s.functionReturn.isSome || s.loopControl

def keyword (s : Signal) : Keyword := if s.loopBreak then .BREAK else .CONTINUE

/-- A `BREAK` or `CONTINUE` that no loop has taken is an error where it was raised. -/
def stray (s : Signal) (fallback : Span) (frame : Frame) : Error :=
  .runtime (.outsideLoop s.keyword) (s.origin.getD fallback) frame

/-- What a call makes of the signal of its body. A body that is no single expression gives its
value by `RETURN` only. -/
def callResult (s : Signal) (autoReturn : Bool) (site : Span) (frame : Frame) :
    Except Error Value :=
  match s.error with
  | some e => .error e
  | none =>
    if s.loopControl then .error (s.stray site frame)
    else .ok (((if autoReturn then s.value else none).or s.functionReturn).getD .null)

/-- What a program makes of the signal of its tree. A `RETURN` outside all functions ends it. -/
def programResult (s : Signal) (program : Span) (frame : Frame) : Except Error Value :=
  match s.error with
  | some e => .error e
  | none =>
    if s.loopControl then .error (s.stray program frame)
    else .ok ((s.functionReturn.or s.value).getD .null)

end Signal

/-- A signal that is handed upwards. -/
structure Exit where
  signal : Signal
  unwinds : signal.shouldUnwind = true

namespace Exit

abbrev failed (e : Error) : Exit := ⟨.failure e, rfl⟩

abbrev returned (v : Value) : Exit := ⟨.returns v, rfl⟩

abbrev broke (origin : Span) : Exit := ⟨.breaks origin, rfl⟩

abbrev continued (origin : Span) : Exit := ⟨.continues origin, rfl⟩

end Exit

end ScriptLang
