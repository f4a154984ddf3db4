import ScriptLang.Node.Parse

/-! The way of a reading over its tokens. A walk goes where a rule goes, looking at the kinds of
tokens alone, and builds no tree. It keeps its place, the number of a token, also where it fails,
and notes where it comes to and what each construct and each tentative reading on the way does to
that place. A look at a token is clamped to the list, as the place itself is bound by nothing: that
it stays in the list is a property of the grammar, and not of the walk. -/
namespace ScriptLang

inductive Construct where
  | sequence | statement | expression | comparison | arithmetic | term | factor | power | call
  | atom | list | conditional | otherwise | body | block | forLoop | whileLoop | function
  deriving DecidableEq

/-- Only a sequence of statements may be empty. -/
def Construct.least (r : Construct) : Nat := if r = .sequence then 0 else 1

inductive Waymark where
  /-- The walk has come to a place, by going on or by going back. -/
  | comes (place : Nat)
  /-- A construct has been read, from its first place to the one behind it. -/
  | reads (part : Construct) (start stop : Nat)
  /-- The reading of a construct has failed, and has left the walk at `stop`. -/
  | fails (part : Construct) (start stop : Nat)
  /-- A tentative reading has failed at `stop`, and the walk goes on at `back`. -/
  | givesUp (start stop back : Nat)
  deriving DecidableEq

inductive Arrival (α : Type) where
  | done (value : α) (place : Nat)
  | failed (place : Nat)
  | spent
  deriving DecidableEq

structure Course (α : Type) where
  events : List Waymark
  arrival : Arrival α

def Walk (α : Type) : Type := List Token → Nat → Course α

namespace Walk

variable {α β : Type}

/-- The token at a place. Behind the last token there is always the last one. -/
def peek (ts : List Token) (i : Nat) : Option Token := ts[min i (ts.length - 1)]?

/-- The token before a place. Before the first token there is the first one. -/
def previous (ts : List Token) (i : Nat) : Option Token := ts[min (i - 1) (ts.length - 1)]?

protected def pure (a : α) : Walk α := fun _ i => ⟨[], .done a i⟩

protected def bind (w : Walk α) (f : α → Walk β) : Walk β := fun ts i =>
  match w ts i with
  | ⟨es, .done a j⟩ => ⟨es ++ (f a ts j).events, (f a ts j).arrival⟩
  | ⟨es, .failed j⟩ => ⟨es, .failed j⟩
  | ⟨es, .spent⟩ => ⟨es, .spent⟩

instance : Monad Walk where
  pure := Walk.pure
  bind := Walk.bind

def spent : Walk α := fun _ _ => ⟨[], .spent⟩

def fail : Walk α := fun _ i => ⟨[], .failed i⟩

def advance : Walk Unit := fun ts i =>
  let next := if i < ts.length then i + 1 else i
  ⟨[.comes next], .done () next⟩

def byKind (table : List (Token.Kind × Walk α)) (other : Walk α) : Walk α := fun ts i =>
  match (peek ts i).bind fun t => table.lookup t.kind with
  | some w => w ts i
  | none => other ts i

def accept (kind : Token.Kind) : Walk Bool :=
  byKind [(kind, do advance; return true)] (return false)

def expect (kind : Token.Kind) : Walk Unit := byKind [(kind, advance)] fail

/-- Goes back to where `w` began if it fails, and tells whether it succeeded. -/
def attempt (w : Walk α) : Walk Bool := fun ts i =>
  match w ts i with
  | ⟨es, .done _ j⟩ => ⟨es, .done true j⟩
  | ⟨es, .failed j⟩ => ⟨es ++ [.givesUp i j i, .comes i], .done false i⟩
  | ⟨es, .spent⟩ => ⟨es, .spent⟩

def part (r : Construct) (w : Walk α) : Walk α := fun ts i =>
  match w ts i with
  | ⟨es, .done a j⟩ => ⟨es ++ [.reads r i j], .done a j⟩
  | ⟨es, .failed j⟩ => ⟨es ++ [.fails r i j], .failed j⟩
  | ⟨es, .spent⟩ => ⟨es, .spent⟩

section Constructs

open Grammar (Level)

variable (fuel : Nat) (self : Level → Walk Unit)

def newlines : Nat → Walk Bool
  | 0 => spent
  | n + 1 => do
    if ← accept .newline then
      let _ ← newlines n
      return true
    else return false

def statement : Walk Unit :=
  part .statement <| byKind
    [(.keyword .RETURN, do
        advance
        let _ ← attempt (self .expression)
        return ()),
      (.keyword .CONTINUE, advance),
      (.keyword .BREAK, advance)]
    (self .expression)

def statementsFrom : Nat → Walk Unit
  | 0 => spent
  | n + 1 => do
    if ← attempt (statement self) then
      if ← newlines fuel then statementsFrom n

def statements : Walk Unit :=
  part .sequence do
    let _ ← newlines fuel
    statementsFrom fuel self fuel

def closedBlock : Walk Unit :=
  part .block do
    statements fuel self
    expect (.keyword .END)

def body : Walk Unit :=
  part .body do
    if ← accept .newline then closedBlock fuel self
    else
      statement self
      byKind [(.keyword .END, advance)] (return ())

def otherwise : Walk Unit :=
  part .otherwise do
    expect (.keyword .ELSE)
    body fuel self

def arms : Nat → Walk Unit
  | 0 => spent
  | n + 1 => do
    self .expression
    expect (.keyword .THEN)
    if ← accept .newline then
      statements fuel self
      byKind
        [(.keyword .END, advance), (.keyword .ELIF, do advance; arms n),
          (.keyword .ELSE, otherwise fuel self)]
        fail
    else
      statement self
      byKind
        [(.keyword .ELIF, do advance; arms n), (.keyword .ELSE, otherwise fuel self),
          (.keyword .END, advance)]
        (return ())

def conditional : Walk Unit :=
  part .conditional do
    expect (.keyword .IF)
    arms fuel self fuel

def forLoop : Walk Unit :=
  part .forLoop do
    expect (.keyword .FOR)
    expect .identifier
    expect (.symbol .assign)
    self .expression
    expect (.keyword .TO)
    self .expression
    if ← accept (.keyword .STEP) then self .expression
    expect (.keyword .THEN)
    body fuel self

def whileLoop : Walk Unit :=
  part .whileLoop do
    expect (.keyword .WHILE)
    self .expression
    expect (.keyword .THEN)
    body fuel self

def commas (item : Walk Unit) : Nat → Walk Unit
  | 0 => spent
  | n + 1 => do
    if ← accept (.symbol .comma) then
      item
      commas item n

def parameters : Walk Unit :=
  byKind
    [(.identifier, do
        expect .identifier
        commas (expect .identifier) fuel
        expect (.symbol .rightParen))]
    (expect (.symbol .rightParen))

def functionHead : Walk Unit :=
  byKind
    [(.identifier, do
        expect .identifier
        expect (.symbol .leftParen))]
    (expect (.symbol .leftParen))

def function : Walk Unit :=
  part .function do
    expect (.keyword .FUN)
    functionHead
    parameters fuel
    byKind
      [(.symbol .arrow, do advance; self .expression),
        (.newline, do advance; closedBlock fuel self)]
      fail

def items (close : Symbol) : Walk Unit := do
  if ← accept (.symbol close) then return ()
  else
    self .expression
    commas (self .expression) fuel
    expect (.symbol close)

def list : Walk Unit :=
  part .list do
    expect (.symbol .leftBracket)
    items fuel self .rightBracket

def atom : Walk Unit :=
  part .atom <| byKind
    [(.int, advance), (.float, advance), (.string, advance), (.identifier, advance),
      (.symbol .leftParen, do
        advance
        self .expression
        expect (.symbol .rightParen)),
      (.symbol .leftBracket, list fuel self),
      (.keyword .IF, conditional fuel self),
      (.keyword .FOR, forLoop fuel self),
      (.keyword .WHILE, whileLoop fuel self),
      (.keyword .FUN, function fuel self)]
    fail

def callsFrom : Nat → Walk Unit
  | 0 => spent
  | n + 1 => do
    if ← accept (.symbol .leftParen) then
      items fuel self .rightParen
      callsFrom n

def call : Walk Unit :=
  part .call do
    atom fuel self
    callsFrom fuel self fuel

def operandsFrom (ops : List BinaryOp) (right : Walk Unit) : Nat → Walk Unit
  | 0 => spent
  | n + 1 =>
    byKind
      (ops.map fun op => (op.kind, do
        advance
        right
        operandsFrom ops right n))
      (return ())

def operands (left : Walk Unit) (ops : List BinaryOp) (right : Walk Unit) : Walk Unit := do
  left
  operandsFrom ops right fuel

def power : Walk Unit := part .power (operands fuel (call fuel self) [.pow] (self .factor))

def factor : Walk Unit :=
  part .factor <| byKind
    [(.symbol .plus, do advance; self .factor), (.symbol .minus, do advance; self .factor)]
    (power fuel self)

def term : Walk Unit :=
  part .term (operands fuel (factor fuel self) [.mul, .div] (factor fuel self))

def arithmetic : Walk Unit :=
  part .arithmetic (operands fuel (term fuel self) [.add, .sub] (term fuel self))

def comparison : Walk Unit :=
  part .comparison <| byKind
    [(.keyword .NOT, do advance; self .comparison)]
    (operands fuel (arithmetic fuel self) [.eq, .ne, .lt, .gt, .lte, .gte] (arithmetic fuel self))

def expression : Walk Unit :=
  part .expression <| byKind
    [(.keyword .VAR, do
        advance
        expect .identifier
        expect (.symbol .assign)
        self .expression)]
    (operands fuel (comparison fuel self) [.and, .or] (comparison fuel self))

def ofLevel : Level → Walk Unit
  | .expression => expression fuel self
  | .comparison => comparison fuel self
  | .factor => factor fuel self

end Constructs

def level : Nat → Grammar.Level → Walk Unit
  | 0 => fun _ => spent
  | fuel + 1 => ofLevel (fuel + 1) (level fuel)

def program (fuel : Nat) : Walk Unit := do
  statements fuel (level fuel)
  byKind [(.eof, return ())] fail

end Walk

end ScriptLang
