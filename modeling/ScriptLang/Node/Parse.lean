import ScriptLang.Cursor
import ScriptLang.Node

/-! Reading trees from tokens by recursive descent. Three levels of the grammar call themselves:
expressions, comparisons and factors. Each rule is given the readers of these levels and calls
them only after it has read a token, so as many levels as there are tokens suffice. -/
namespace ScriptLang

structure SyntaxError where
  expected : List Token.Kind
  span : Span
  /-- A whole program was read, and something follows it. -/
  trailing : Bool

namespace Grammar

open Rule

def atomStart : List Token.Kind :=
  [.int, .float, .string, .identifier, .symbol .leftParen, .symbol .leftBracket, .keyword .IF,
    .keyword .FOR, .keyword .WHILE, .keyword .FUN]

def expressionStart : List Token.Kind :=
  [.keyword .VAR, .keyword .IF, .keyword .FOR, .keyword .WHILE, .keyword .FUN, .int, .float,
    .string, .identifier, .symbol .plus, .symbol .minus, .symbol .leftParen,
    .symbol .leftBracket, .keyword .NOT]

def statementStart : List Token.Kind :=
  [.keyword .RETURN, .keyword .CONTINUE, .keyword .BREAK] ++ expressionStart

/-- Only a bare inline body keeps its value; those closed by `END` are run for their effects. -/
inductive Form where
  | inline | closedInline | block
  deriving DecidableEq

def Form.suppresses (f : Form) : Bool := f ≠ .inline

inductive Level where
  | expression | comparison | factor
  deriving DecidableEq

section Rules

variable (fuel : Nat) (self : Level → Rule Tree)

def newlines : Nat → Rule Bool
  | 0 => spent
  | fuel + 1 => do
    if ← accept .newline then
      let _ ← newlines fuel
      return true
    else return false

/-- The failure at a token that ends a sequence of statements and may not; another statement could
have stood there if one was expected. -/
def unexpectedInSequence {α : Type} (expecting : Bool) (terminators : List Token.Kind) :
    Rule α := do
  match (← here).deeper with
  | some e => throw e
  | none => unexpected (if expecting then statementStart ++ terminators else terminators)

def statement : Rule Tree := do
  let c ← here
  match c.kind with
  | .keyword .RETURN =>
    let _ ← advance
    match ← attempt (self .expression) with
    | some value => return .returns (some value) (c.mark.through value.note)
    | none => return .returns none c.mark
  | .keyword .CONTINUE =>
    let _ ← advance
    return .continues c.mark
  | .keyword .BREAK =>
    let _ ← advance
    return .breaks c.mark
  | _ => describing (self .expression) statementStart

/-- Statements with separators between them. The flag says that another statement could have
stood where the sequence ended. -/
def statementsFrom : Nat → Rule (List Tree × Bool)
  | 0 => spent
  | n + 1 => do
    match ← attempt (statement self) with
    | none => return ([], true)
    | some first =>
      if ← newlines fuel then
        let (rest, expecting) ← statementsFrom n
        return (first :: rest, expecting)
      else return ([first], false)

/-- Where a sequence was read; an empty one is marked by the token it began at. -/
def sequenceMark (start : Mark) (statements : List Tree) : Mark :=
  match statements.head?, statements.getLast? with
  | some first, some last => first.note.through last.note
  | _, _ => start

def statements : Rule (Tree × Bool) := do
  let start := (← here).mark
  let _ ← newlines fuel
  let (nodes, expecting) ← statementsFrom fuel self fuel
  return (.block nodes (sequenceMark start nodes), expecting)

def closedBlock : Rule Tree := do
  let (node, expecting) ← statements fuel self
  if ← accept (.keyword .END) then return node
  else unexpectedInSequence expecting [.keyword .END]

/-- A block, or one statement with an `END` that may be left out. -/
def body : Rule (Tree × Form) := do
  if ← accept .newline then return (← closedBlock fuel self, .block)
  else
    let node ← statement self
    if ← accept (.keyword .END) then return (node, .closedInline)
    else return (node, .inline)

def otherwise : Rule (Otherwise Tree × Form) := do
  let (node, form) ← body fuel self
  return (⟨node, form.suppresses⟩, form)

/-- The arms after an `IF`, the body after `ELSE` if there is one, and whether the chain was
inline and closed by `END`. -/
def arms : Nat → Rule (List (Arm Tree) × Option (Otherwise Tree) × Bool)
  | 0 => spent
  | n + 1 => do
    let condition ← self .expression
    let _ ← keyword .THEN
    if ← accept .newline then
      let (node, expecting) ← statements fuel self
      let arm := ⟨condition, node, true⟩
      if ← accept (.keyword .END) then return ([arm], none, false)
      else if ← accept (.keyword .ELIF) then
        let (rest, last, closed) ← arms n
        return (arm :: rest, last, closed)
      else if ← accept (.keyword .ELSE) then
        return ([arm], some (← otherwise fuel self).1, false)
      else unexpectedInSequence expecting [.keyword .END, .keyword .ELIF, .keyword .ELSE]
    else
      let node ← statement self
      let arm := ⟨condition, node, false⟩
      if ← accept (.keyword .ELIF) then
        let (rest, last, closed) ← arms n
        return (arm :: rest, last, closed)
      else if ← accept (.keyword .ELSE) then
        let (last, form) ← otherwise fuel self
        return ([arm], some last, form = .closedInline)
      else if ← accept (.keyword .END) then return ([arm], none, true)
      else return ([arm], none, false)

/-- The `END` of an inline chain suppresses every arm of it. -/
def conditional (start : Mark) : Rule Tree := do
  let (found, last, closed) ← arms fuel self fuel
  let found := if closed then found.map ({ · with suppress := true }) else found
  return .cond found last (← markFrom start)

def forLoop (start : Mark) : Rule Tree := do
  let counter ← name
  let _ ← symbol .assign
  let first ← self .expression
  let _ ← keyword .TO
  let last ← self .expression
  let step ← if ← accept (.keyword .STEP) then some <$> self .expression else pure none
  let _ ← keyword .THEN
  let (node, form) ← body fuel self
  return .forLoop counter first last step node form.suppresses (← markFrom start)

def whileLoop (start : Mark) : Rule Tree := do
  let condition ← self .expression
  let _ ← keyword .THEN
  let (node, form) ← body fuel self
  return .whileLoop condition node form.suppresses (← markFrom start)

def moreNames : Nat → Rule (List String)
  | 0 => spent
  | n + 1 => do
    if ← accept (.symbol .comma) then
      let first ← name
      return first :: (← moreNames n)
    else return []

def parameters : Rule (List String) := do
  if (← here).kind = .identifier then
    let first ← name
    let rest ← moreNames fuel
    let _ ← expect (.symbol .rightParen) [.symbol .comma, .symbol .rightParen]
    return first :: rest
  else
    let _ ← expect (.symbol .rightParen) [.identifier, .symbol .rightParen]
    return []

def functionHead : Rule (Option String) := do
  if (← here).kind = .identifier then
    let given ← name
    let _ ← symbol .leftParen
    return some given
  else
    let _ ← expect (.symbol .leftParen) [.identifier, .symbol .leftParen]
    return none

def function (start : Mark) : Rule Tree := do
  let given ← functionHead
  let params ← parameters fuel
  if ← accept (.symbol .arrow) then
    let node ← self .expression
    return .function given params node true (← markFrom start)
  else if ← accept .newline then
    let node ← closedBlock fuel self
    return .function given params node false (← markFrom start)
  else unexpected [.symbol .arrow, .newline]

def moreExpressions : Nat → Rule (List Tree)
  | 0 => spent
  | n + 1 => do
    if ← accept (.symbol .comma) then
      let first ← self .expression
      return first :: (← moreExpressions n)
    else return []

/-- Expressions between commas, up to and with the symbol that closes them. -/
def items (close : Symbol) : Rule (List Tree) := do
  if ← accept (.symbol close) then return []
  else
    let first ← describing (self .expression) (.symbol close :: expressionStart)
    let rest ← moreExpressions self fuel
    let _ ← expect (.symbol close) [.symbol .comma, .symbol close]
    return first :: rest

def atom : Rule Tree := do
  let c ← here
  match c.current.content with
  | .int n =>
    let _ ← advance
    return .number (.int n) c.mark
  | .float x =>
    let _ ← advance
    return .number (.float x) c.mark
  | .string s =>
    let _ ← advance
    return .string s c.mark
  | .identifier n =>
    let _ ← advance
    return .access n c.mark
  | .symbol .leftParen =>
    let _ ← advance
    let inner ← self .expression
    let _ ← symbol .rightParen
    return inner
  | .symbol .leftBracket =>
    let _ ← advance
    let elements ← items fuel self .rightBracket
    return .list elements (← markFrom c.mark)
  | .keyword .IF =>
    let _ ← advance
    conditional fuel self c.mark
  | .keyword .FOR =>
    let _ ← advance
    forLoop fuel self c.mark
  | .keyword .WHILE =>
    let _ ← advance
    whileLoop fuel self c.mark
  | .keyword .FUN =>
    let _ ← advance
    function fuel self c.mark
  | _ => unexpected atomStart

def callsFrom : Nat → Tree → Rule Tree
  | 0, _ => spent
  | n + 1, callee => do
    if ← accept (.symbol .leftParen) then
      let args ← items fuel self .rightParen
      callsFrom n (.call callee args (← markFrom callee.note))
    else return callee

def call : Rule Tree := do callsFrom fuel self fuel (← atom fuel self)

def operandsFrom (ops : List BinaryOp) (right : Rule Tree) : Nat → Tree → Rule Tree
  | 0, _ => spent
  | n + 1, left => do
    let kind := (← here).kind
    match ops.find? (·.kind = kind) with
    | none => return left
    | some op =>
      let _ ← advance
      let operand ← right
      operandsFrom ops right n (.binary op left operand (left.note.through operand.note))

def operands (left : Rule Tree) (ops : List BinaryOp) (right : Rule Tree) : Rule Tree := do
  operandsFrom ops right fuel (← left)

/-- The right operand of a power may have a sign. -/
def power : Rule Tree := operands fuel (call fuel self) [.pow] (self .factor)

def factor : Rule Tree := do
  let c ← here
  match c.kind with
  | .symbol .plus =>
    let _ ← advance
    let operand ← self .factor
    return .unary .plus operand (c.mark.through operand.note)
  | .symbol .minus =>
    let _ ← advance
    let operand ← self .factor
    return .unary .minus operand (c.mark.through operand.note)
  | _ => power fuel self

def term : Rule Tree := operands fuel (factor fuel self) [.mul, .div] (factor fuel self)

def arithmetic : Rule Tree := operands fuel (term fuel self) [.add, .sub] (term fuel self)

def comparison : Rule Tree := do
  let c ← here
  match c.kind with
  | .keyword .NOT =>
    let _ ← advance
    let operand ← self .comparison
    return .unary .not operand (c.mark.through operand.note)
  | _ =>
    operands fuel (arithmetic fuel self) [.eq, .ne, .lt, .gt, .lte, .gte] (arithmetic fuel self)

def expression : Rule Tree := do
  let c ← here
  match c.kind with
  | .keyword .VAR =>
    let _ ← advance
    let target ← name
    let _ ← symbol .assign
    let value ← self .expression
    return .assign target value (c.mark.through value.note)
  | _ =>
    describing (operands fuel (comparison fuel self) [.and, .or] (comparison fuel self))
      expressionStart

def ruleOf : Level → Rule Tree
  | .expression => expression fuel self
  | .comparison => comparison fuel self
  | .factor => factor fuel self

end Rules

/-- The reader of each level, for inputs of fewer than `fuel` tokens. -/
def level : Nat → Level → Rule Tree
  | 0 => fun _ => spent
  | fuel + 1 => ruleOf (fuel + 1) (level fuel)

def program (fuel : Nat) : Rule Tree := do
  let (node, expecting) ← statements fuel (level fuel)
  let c ← here
  if c.kind = .eof then return node
  else if expecting then unexpectedInSequence true [.newline, .eof]
  else throw (c.deeper.getD { c.failure [.newline, .eof] with trailing := true })

end Grammar

def parse : List Token → Except SyntaxError Tree
  | [] => .ok (.block [] ⟨⟨⟨"<empty>", ""⟩, .origin, .origin⟩, 0⟩)
  | first :: rest =>
    match Grammar.program (rest.length + 1) (.ofTokens first rest) with
    | .done node _ => .ok node
    | .failed e => .error ⟨e.expected, e.found.span, e.trailing⟩
    | .spent => .error ⟨[], first.span, false⟩

end ScriptLang
