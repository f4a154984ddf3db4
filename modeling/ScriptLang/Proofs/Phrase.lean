import ScriptLang.Node

/-! The grammar of the language, said without a reader. A phrase relates what a row of tokens says
to the tree it spells: the tokens are the leaves of the derivation from left to right. -/
namespace ScriptLang

def BinaryOp.content : BinaryOp → Token.Content
  | add => .symbol .plus
  | sub => .symbol .minus
  | mul => .symbol .star
  | div => .symbol .slash
  | pow => .symbol .caret
  | eq => .symbol .equal
  | ne => .symbol .notEqual
  | lt => .symbol .less
  | lte => .symbol .lessEqual
  | gt => .symbol .greater
  | gte => .symbol .greaterEqual
  | and => .keyword .AND
  | or => .keyword .OR

namespace Phrase

open Token.Content

def breaks (n : Nat) : List Token.Content := List.replicate n newline

def names (params : List String) : List Token.Content :=
  (params.map identifier).intersperse (symbol .comma)

mutual

inductive Statement : List Token.Content → Node Unit → Prop where
  | returns : Statement [keyword .RETURN] (.returns none ())
  | returnsValue {cs v} (value : Expression cs v) :
    Statement (keyword .RETURN :: cs) (.returns (some v) ())
  | continues : Statement [keyword .CONTINUE] (.continues ())
  | breaks : Statement [keyword .BREAK] (.breaks ())
  | expression {cs n} (h : Expression cs n) : Statement cs n

inductive Lines : List Token.Content → List (Node Unit) → Prop where
  | one {cs n} (h : Statement cs n) : Lines cs [n]
  | more {cs ds n ns} (k : Nat) (first : Statement cs n) (rest : Lines ds ns) :
    Lines (cs ++ breaks (k + 1) ++ ds) (n :: ns)

inductive Sequence : List Token.Content → List (Node Unit) → Prop where
  | empty (k : Nat) : Sequence (breaks k) []
  | lines {cs ns} (j k : Nat) (h : Lines cs ns) : Sequence (breaks j ++ cs ++ breaks k) ns

inductive Expression : List Token.Content → Node Unit → Prop where
  | assign {cs v} (name : String) (value : Expression cs v) :
    Expression (keyword .VAR :: identifier name :: symbol .assign :: cs) (.assign name v ())
  | logic {cs n} (h : Logic cs n) : Expression cs n

inductive Logic : List Token.Content → Node Unit → Prop where
  | one {cs n} (h : Comparison cs n) : Logic cs n
  | more {cs ds l r op} (left : Logic cs l) (mem : op ∈ [BinaryOp.and, .or])
    (right : Comparison ds r) : Logic (cs ++ op.content :: ds) (.binary op l r ())

inductive Comparison : List Token.Content → Node Unit → Prop where
  | not {cs n} (h : Comparison cs n) : Comparison (keyword .NOT :: cs) (.unary .not n ())
  | chain {cs n} (h : Chain cs n) : Comparison cs n

inductive Chain : List Token.Content → Node Unit → Prop where
  | one {cs n} (h : Arithmetic cs n) : Chain cs n
  | more {cs ds l r op} (left : Chain cs l) (mem : op ∈ [BinaryOp.eq, .ne, .lt, .gt, .lte, .gte])
    (right : Arithmetic ds r) : Chain (cs ++ op.content :: ds) (.binary op l r ())

inductive Arithmetic : List Token.Content → Node Unit → Prop where
  | one {cs n} (h : Term cs n) : Arithmetic cs n
  | more {cs ds l r op} (left : Arithmetic cs l) (mem : op ∈ [BinaryOp.add, .sub])
    (right : Term ds r) : Arithmetic (cs ++ op.content :: ds) (.binary op l r ())

inductive Term : List Token.Content → Node Unit → Prop where
  | one {cs n} (h : Factor cs n) : Term cs n
  | more {cs ds l r op} (left : Term cs l) (mem : op ∈ [BinaryOp.mul, .div])
    (right : Factor ds r) : Term (cs ++ op.content :: ds) (.binary op l r ())

inductive Factor : List Token.Content → Node Unit → Prop where
  | plus {cs n} (h : Factor cs n) : Factor (symbol .plus :: cs) (.unary .plus n ())
  | minus {cs n} (h : Factor cs n) : Factor (symbol .minus :: cs) (.unary .minus n ())
  | power {cs n} (h : Power cs n) : Factor cs n

/-- The right operand may have a sign. -/
inductive Power : List Token.Content → Node Unit → Prop where
  | one {cs n} (h : Call cs n) : Power cs n
  | more {cs ds l r op} (left : Power cs l) (mem : op ∈ [BinaryOp.pow]) (right : Factor ds r) :
    Power (cs ++ op.content :: ds) (.binary op l r ())

inductive Call : List Token.Content → Node Unit → Prop where
  | atom {cs n} (h : Atom cs n) : Call cs n
  | call {cs ds f args} (callee : Call cs f) (items : Items ds args) :
    Call (cs ++ symbol .leftParen :: ds ++ [symbol .rightParen]) (.call f args ())

inductive Items : List Token.Content → List (Node Unit) → Prop where
  | none : Items [] []
  | some {cs ns} (h : Row cs ns) : Items cs ns

inductive Row : List Token.Content → List (Node Unit) → Prop where
  | one {cs n} (h : Expression cs n) : Row cs [n]
  | more {cs ds n ns} (first : Expression cs n) (rest : Row ds ns) :
    Row (cs ++ symbol .comma :: ds) (n :: ns)

/-- A body that runs for its value, or for its effects if the flag says so. -/
inductive Body : List Token.Content → Node Unit → Bool → Prop where
  | inline {cs n} (h : Statement cs n) : Body cs n false
  | closed {cs n} (h : Statement cs n) : Body (cs ++ [keyword .END]) n true
  | block {cs ns} (h : Sequence cs ns) :
    Body (newline :: cs ++ [keyword .END]) (.block ns ()) true

/-- The body of an `IF` or `ELIF`; the flag says that it is a block. -/
inductive Choice : List Token.Content → Node Unit → Bool → Prop where
  | inline {cs n} (h : Statement cs n) : Choice cs n false
  | block {cs ns} (h : Sequence cs ns) : Choice (newline :: cs) (.block ns ()) true

/-- The arms of a chain, those with blocks marked; the flag says that the last is a block. -/
inductive Arms : List Token.Content → List (Arm (Node Unit)) → Bool → Prop where
  | one {cs ds c b block} (condition : Expression cs c) (body : Choice ds b block) :
    Arms (cs ++ keyword .THEN :: ds) [⟨c, b, block⟩] block
  | more {cs ds es c b block arms last} (condition : Expression cs c) (body : Choice ds b block)
    (rest : Arms es arms last) :
    Arms (cs ++ keyword .THEN :: ds ++ keyword .ELIF :: es) (⟨c, b, block⟩ :: arms) last

/-- What follows the arms; the flag says that an `END` follows right after the last arm or right
after an inline body of `ELSE`. -/
inductive Ending : List Token.Content → Option (Otherwise (Node Unit)) → Bool → Prop where
  | none : Ending [] .none false
  | closed : Ending [keyword .END] .none true
  | inline {cs n} (h : Statement cs n) : Ending (keyword .ELSE :: cs) (.some ⟨n, false⟩) false
  | closedInline {cs n} (h : Statement cs n) :
    Ending (keyword .ELSE :: cs ++ [keyword .END]) (.some ⟨n, true⟩) true
  | block {cs ns} (h : Sequence cs ns) :
    Ending (keyword .ELSE :: newline :: cs ++ [keyword .END]) (.some ⟨.block ns (), true⟩) false

inductive Step : List Token.Content → Option (Node Unit) → Prop where
  | none : Step [] .none
  | some {cs n} (h : Expression cs n) : Step (keyword .STEP :: cs) (.some n)

/-- What follows the parameters of a function; the flag says that it returns its value by
itself. -/
inductive FunctionBody : List Token.Content → Node Unit → Bool → Prop where
  | arrow {cs n} (h : Expression cs n) : FunctionBody (symbol .arrow :: cs) n true
  | block {cs ns} (h : Sequence cs ns) :
    FunctionBody (newline :: cs ++ [keyword .END]) (.block ns ()) false

inductive Atom : List Token.Content → Node Unit → Prop where
  | int (n : Int64) : Atom [int n] (.number (.int n) ())
  | float (x : Float) : Atom [float x] (.number (.float x) ())
  | string (s : String) : Atom [string s] (.string s ())
  | access (name : String) : Atom [identifier name] (.access name ())
  | parens {cs n} (h : Expression cs n) : Atom (symbol .leftParen :: cs ++ [symbol .rightParen]) n
  | list {cs ns} (h : Items cs ns) :
    Atom (symbol .leftBracket :: cs ++ [symbol .rightBracket]) (.list ns ())
  /-- An arm is suppressed if it is a block, or if the last arm is inline and the chain is closed.
  A chain whose last arm is a block has to be ended. -/
  | cond {cs ds arms lastBlock last closed} (h : Arms cs arms lastBlock)
    (ending : Ending ds last closed) (ended : lastBlock → ds ≠ []) :
    Atom (keyword .IF :: cs ++ ds)
      (.cond (arms.map fun a => { a with suppress := a.suppress || (!lastBlock && closed) }) last
        ())
  | forLoop {cs ds es fs first last step body suppress} (name : String) (h : Expression cs first)
    (bound : Expression ds last) (increment : Step es step) (statement : Body fs body suppress) :
    Atom (keyword .FOR :: identifier name :: symbol .assign :: cs ++ keyword .TO :: ds ++ es ++
      keyword .THEN :: fs) (.forLoop name first last step body suppress ())
  | whileLoop {cs ds condition body suppress} (h : Expression cs condition)
    (statement : Body ds body suppress) :
    Atom (keyword .WHILE :: cs ++ keyword .THEN :: ds) (.whileLoop condition body suppress ())
  | function {cs body auto} (name : Option String) (params : List String)
    (h : FunctionBody cs body auto) :
    Atom (keyword .FUN :: (name.map identifier).toList ++ symbol .leftParen :: names params ++
      symbol .rightParen :: cs) (.function name params body auto ())

end

inductive Program : List Token.Content → Node Unit → Prop where
  | program {cs ns} (h : Sequence cs ns) : Program (cs ++ [eof]) (.block ns ())

end Phrase

end ScriptLang
