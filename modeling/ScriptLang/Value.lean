import ScriptLang.Builtin
import ScriptLang.Frame
import ScriptLang.Node

/-! Values. Besides what it is, a value may say where and in which frame it was made, so that
errors can point at it; a copy of a list is a list of its own. -/
namespace ScriptLang

structure Stamp where
  span : Option Span
  frame : Option Frame

def Stamp.none : Stamp := ⟨.none, .none⟩

/-- A function literal and the frame it was evaluated in, in whose scope its free names are
looked up. -/
structure Function where
  /-- Which literal of its source it is. -/
  label : Nat
  name : Option String
  params : List String
  body : Tree
  autoReturn : Bool
  closure : Frame

namespace Function

def displayName (f : Function) : String := f.name.getD "<anonymous>"

/-- The same literal evaluated in the same frame. All that a frame evaluates is of one source. -/
def same (f g : Function) : Bool := f.closure.id == g.closure.id && f.label == g.label

def describe (f : Function) : String :=
  "Function \x7b name: " ++ Text.quoted f.displayName ++ ", params: " ++
    Text.quotedList f.params ++ ", auto_return: " ++ (if f.autoReturn then "true" else "false") ++
    " \x7d"

end Function

inductive Value where
  | number (n : Number) (stamp : Stamp)
  | string (s : String) (stamp : Stamp)
  | list (elements : List Value) (stamp : Stamp)
  | function (f : Function) (stamp : Stamp)
  | builtin (b : Builtin) (stamp : Stamp)

namespace Value

def stamp : Value → Stamp
  | number _ t | string _ t | list _ t | function _ t | builtin _ t => t

def restamp (v : Value) (t : Stamp) : Value :=
  match v with
  | number n _ => number n t
  | string s _ => string s t
  | list vs _ => list vs t
  | function f _ => function f t
  | builtin b _ => builtin b t

@[simp] theorem stamp_restamp (v : Value) (t : Stamp) : (v.restamp t).stamp = t := by
  cases v <;> rfl

def place (v : Value) (span : Span) (frame : Frame) : Value := v.restamp ⟨some span, some frame⟩

/-- Held by this frame; where it was made stays. -/
def own (v : Value) (frame : Frame) : Value := v.restamp ⟨v.stamp.span, some frame⟩

def int (n : Int64) : Value := number (.int n) .none

def bool (b : Bool) : Value := number (.ofBool b) .none

/-- What statements and blocks without a value of their own give. -/
def null : Value := int 0

def number? : Value → Option Number
  | number n _ => some n
  | _ => none

def string? : Value → Option String
  | string s _ => some s
  | _ => none

def list? : Value → Option (List Value)
  | list vs _ => some vs
  | _ => none

def isCallable : Value → Bool
  | function _ _ | builtin _ _ => true
  | _ => false

def typeName : Value → String
  | number _ _ => "number"
  | string _ _ => "string"
  | list _ _ => "list"
  | function _ _ => "function"
  | builtin _ _ => "built-in function"

/-- Lists and callables never count as true. -/
def isTrue : Value → Bool
  | number n _ => !n.isZero
  | string s _ => !s.isEmpty
  | _ => false

mutual

def same : Value → Value → Bool
  | number m _, number n _ => m == n
  | string s _, string t _ => s == t
  | list vs _, list ws _ => sameList vs ws
  | function f _, function g _ => f.same g
  | builtin a _, builtin b _ => a == b
  | _, _ => false

def sameList : List Value → List Value → Bool
  | [], [] => true
  | v :: vs, w :: ws => same v w && sameList vs ws
  | _, _ => false

end

mutual

/-- The printed form: lists run into each other, without brackets. -/
def display : Value → String
  | number n _ => n.text
  | string s _ => s
  | list vs _ => ", ".intercalate (displayList vs)
  | function f _ => s!"<function {f.displayName}>"
  | builtin b _ => s!"<built-in function {b.name}>"

def displayList : List Value → List String
  | [] => []
  | v :: vs => display v :: displayList vs

end

theorem display_number (n : Number) (t : Stamp) : (number n t).display = n.text := by
  unfold display; rfl

theorem display_string (s : String) (t : Stamp) : (string s t).display = s := by
  unfold display; rfl

theorem display_list (vs : List Value) (t : Stamp) :
    (list vs t).display = ", ".intercalate (displayList vs) := by
  unfold display; rfl

theorem display_function (f : Function) (t : Stamp) :
    (function f t).display = s!"<function {f.displayName}>" := by
  unfold display; rfl

theorem display_builtin (b : Builtin) (t : Stamp) :
    (builtin b t).display = s!"<built-in function {b.name}>" := by
  unfold display; rfl

mutual

/-- The echoed form: strings in quotes, lists in brackets. -/
def repr : Value → String
  | string s _ => "\"" ++ s ++ "\""
  | list vs _ => "[" ++ ", ".intercalate (reprList vs) ++ "]"
  | number n _ => n.text
  | function f _ => s!"<function {f.displayName}>"
  | builtin b _ => s!"<built-in function {b.name}>"

def reprList : List Value → List String
  | [] => []
  | v :: vs => repr v :: reprList vs

end

end Value

end ScriptLang
