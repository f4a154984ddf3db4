import ScriptLang.Builtin
import ScriptLang.Number
import ScriptLang.Token

/-! What can go wrong while a program runs, and the words for it. -/
namespace ScriptLang

inductive Fault where
  | undefined (name : String)
  | illegalOperation
  | divisionByZero
  | removeOutOfBounds (index : Number) (length : Nat)
  | retrieveOutOfBounds (index : Number) (length : Nat)
  | repetitionTooLarge
  | boundNotNumber (typeName : String)
  | stepZero
  | outsideLoop (keyword : Keyword)
  | tooManyArguments (extra : Nat) (callee : String)
  | tooFewArguments (missing : Nat) (callee : String)
  | hostFailure (builtin : Builtin) (reason : String)
  | inputClosed
  | argumentNotList
  | argumentNotString
  | firstNotList
  | secondNotList
  | secondNotNumber
  | popOutOfBounds
  | scriptUnreadable (path reason : String)
  /-- `report` is the whole diagnostic of the script's own error. -/
  | scriptFailed (path report : String)

def Fault.message : Fault → String
  | undefined name => s!"'{name}' is not defined"
  | illegalOperation => "Illegal operation"
  | divisionByZero => "Division by zero"
  | removeOutOfBounds index length =>
    s!"index out of bounds: cannot remove element {index.text} from a list of length {length}"
  | retrieveOutOfBounds index length =>
    s!"index out of bounds: cannot retrieve element {index.text} from a list of length {length}"
  | repetitionTooLarge => "String repetition too large"
  | boundNotNumber typeName => s!"Loop bound must be a number, not a {typeName}"
  | stepZero => "Loop step cannot be zero"
  | outsideLoop keyword => s!"'{keyword.text}' outside of a loop"
  | tooManyArguments extra callee => s!"{extra} too many arguments passed into {callee}"
  | tooFewArguments missing callee => s!"{missing} too few arguments passed into {callee}"
  | hostFailure builtin reason => s!"I/O failure in {builtin.name}: {reason}"
  | inputClosed => "input stream is closed"
  | argumentNotList => "Argument must be list"
  | argumentNotString => "Argument must be string"
  | firstNotList => "First argument must be list"
  | secondNotList => "Second argument must be list"
  | secondNotNumber => "Second argument must be number"
  | popOutOfBounds =>
    "Element at this index could not be removed from list because index is out of bounds"
  | scriptUnreadable path reason => s!"Failed to load script \"{path}\"\n{reason}"
  | scriptFailed path report => s!"Failed to finish executing script \"{path}\"\n{report}"

end ScriptLang
