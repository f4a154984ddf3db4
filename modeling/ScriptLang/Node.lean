import ScriptLang.Number
import ScriptLang.Token

/-! The tree of a program. Every node carries a note, which marks where it was read; two trees are
the same program when they agree without their notes. -/
namespace ScriptLang

inductive UnaryOp where
  | plus | minus | not
  deriving DecidableEq

inductive BinaryOp where
  | add | sub | mul | div | pow | eq | ne | lt | lte | gt | gte | and | or
  deriving DecidableEq

def BinaryOp.kind : BinaryOp → Token.Kind
  | add => .symbol .plus
  | sub => .symbol .minus
  | mul => .symbol .star
  | div => .symbol .slash
  | pow => .symbol .caret
  | eq => .symbol .equal
  | ne => .symbol .notEqual
  | lt => .symbol .less
  | lte => .symbol .lessEqual
  | gt => .symbol .greater
  | gte => .symbol .greaterEqual
  | and => .keyword .AND
  | or => .keyword .OR

/-- One `IF` or `ELIF` with its body. A suppressed body is run for its effects only. -/
structure Arm (ν : Type) where
  condition : ν
  body : ν
  suppress : Bool

structure Otherwise (ν : Type) where
  body : ν
  suppress : Bool

inductive Node (α : Type) where
  | number (value : Number) (note : α)
  | string (value : String) (note : α)
  | list (elements : List (Node α)) (note : α)
  | access (name : String) (note : α)
  | assign (name : String) (value : Node α) (note : α)
  | unary (op : UnaryOp) (operand : Node α) (note : α)
  | binary (op : BinaryOp) (left right : Node α) (note : α)
  | cond (arms : List (Arm (Node α))) (otherwise : Option (Otherwise (Node α))) (note : α)
  | forLoop (name : String) (first last : Node α) (step : Option (Node α)) (body : Node α)
      (suppress : Bool) (note : α)
  | whileLoop (condition body : Node α) (suppress : Bool) (note : α)
  | breaks (note : α)
  | continues (note : α)
  | returns (value : Option (Node α)) (note : α)
  /-- An arrow body returns its value by itself. -/
  | function (name : Option String) (params : List String) (body : Node α) (autoReturn : Bool)
      (note : α)
  | call (callee : Node α) (args : List (Node α)) (note : α)
  | block (statements : List (Node α)) (note : α)

def Node.note {α : Type} : Node α → α
  | number _ a | string _ a | list _ a | access _ a | assign _ _ a | unary _ _ a
  | binary _ _ _ a | cond _ _ a | forLoop _ _ _ _ _ _ a | whileLoop _ _ _ a | breaks a
  | continues a | returns _ a | function _ _ _ _ a | call _ _ a | block _ a => a

structure Mark where
  span : Span
  /-- How many tokens stand before its first one, which tells constructs of one source apart
  whatever their layout. -/
  index : Nat
  deriving DecidableEq

namespace Mark

def upTo (m : Mark) (stop : Span) : Mark := ⟨m.span.through stop, m.index⟩

def through (m n : Mark) : Mark := m.upTo n.span

end Mark

abbrev Tree := Node Mark

def Node.span (n : Tree) : Span := n.note.span

end ScriptLang
