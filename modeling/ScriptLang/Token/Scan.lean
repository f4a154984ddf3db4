import ScriptLang.Token
import ScriptLang.Number

/-! Scanning. A scanner reads one character at a time and remembers the token it is in the middle
of; reading a text is a fold, so what a prefix scans to never depends on what follows it. -/
namespace ScriptLang

inductive LexFault where
  | illegalCharacter (c : Char)
  /-- A `!` that no `=` follows. -/
  | missingEqual
  | unclosedString

structure LexError where
  fault : LexFault
  span : Span

/-- The characters that are a symbol on their own or the first half of a longer one. -/
inductive Scanner.Lead where
  | equal | less | greater | minus | bang
  deriving DecidableEq

namespace Scanner.Lead

def ofChar? : Char → Option Lead
  | '=' => some equal
  | '<' => some less
  | '>' => some greater
  | '-' => some minus
  | '!' => some bang
  | _ => none

def second : Lead → Char
  | minus => '>'
  | _ => '='

def joined : Lead → Symbol
  | equal => .equal
  | less => .lessEqual
  | greater => .greaterEqual
  | minus => .arrow
  | bang => .notEqual

def alone? : Lead → Option Symbol
  | equal => some .assign
  | less => some .less
  | greater => some .greater
  | minus => some .minus
  | bang => none

end Scanner.Lead

/-- Tokens of one character that nothing can continue. -/
def Token.Content.ofChar? : Char → Option Token.Content
  | '+' => some (.symbol .plus)
  | '*' => some (.symbol .star)
  | '/' => some (.symbol .slash)
  | '^' => some (.symbol .caret)
  | '(' => some (.symbol .leftParen)
  | ')' => some (.symbol .rightParen)
  | '[' => some (.symbol .leftBracket)
  | ']' => some (.symbol .rightBracket)
  | ',' => some (.symbol .comma)
  | ';' => some .newline
  | '\n' => some .newline
  | _ => none

/-- Digits with at most one dot. Without a dot they are an integer, as long as it is in range. -/
def Token.Content.ofDigits (digits : List Char) : Token.Content :=
  let places := (digits.dropWhile (· ≠ '.')).length - 1
  let value := Nat.ofDigitChars 10 (digits.filter (· ≠ '.')) 0
  match if '.' ∈ digits then none else Int64.ofInt? value with
  | some n => .int n
  | none => .float (Float.ofScientific value true places)

def Token.Content.ofWord (letters : List Char) : Token.Content :=
  let word := String.ofList letters
  match Keyword.ofText? word with
  | some k => .keyword k
  | none => .identifier word

def unescape : Char → Char
  | 'n' => '\n'
  | 't' => '\t'
  | c => c

def isWordChar (c : Char) : Bool := c.isAlphanum || c == '_'

/-- What the scanner is in the middle of, with the characters read so far, latest first. -/
inductive Scanner.Mode where
  | idle
  | comment
  | string (start : Position) (read : List Char) (escaped : Bool)
  | number (start : Position) (read : List Char) (dotted : Bool)
  | word (start : Position) (read : List Char)
  | lead (start : Position) (first : Scanner.Lead)

/-- `position` is the place of the next character; `tokens` has the latest token first. -/
structure Scanner where
  mode : Scanner.Mode
  position : Position
  tokens : List Token

namespace Scanner

def initial : Scanner := ⟨.idle, .origin, []⟩

def emit (source : Source) (s : Scanner) (content : Token.Content) (start stop : Position) :
    Scanner :=
  { s with mode := .idle, tokens := ⟨content, source, start, stop⟩ :: s.tokens }

def enter (s : Scanner) (c : Char) (mode : Mode) : Scanner :=
  { s with mode := mode, position := s.position.advance c }

def close (source : Source) (s : Scanner) : Except LexError Scanner :=
  match s.mode with
  | .idle | .comment => .ok { s with mode := .idle }
  | .string start _ _ => .error ⟨.unclosedString, source, start, s.position⟩
  | .number start read _ => .ok (s.emit source (.ofDigits read.reverse) start s.position)
  | .word start read => .ok (s.emit source (.ofWord read.reverse) start s.position)
  | .lead start first =>
    match first.alone? with
    | some symbol => .ok (s.emit source (.symbol symbol) start s.position)
    | none => .error ⟨.missingEqual, source, start, s.position⟩

def start (source : Source) (s : Scanner) (c : Char) : Except LexError Scanner :=
  match Token.Content.ofChar? c, Lead.ofChar? c with
  | some content, _ =>
    .ok ((s.emit source content s.position s.position.next).enter c .idle)
  | none, some first => .ok (s.enter c (.lead s.position first))
  | none, none =>
    if c = ' ' ∨ c = '\t' ∨ c = '\r' then .ok (s.enter c .idle)
    else if c = '#' then .ok (s.enter c .comment)
    else if c = '"' then .ok (s.enter c (.string s.position [] false))
    else if c.isDigit then .ok (s.enter c (.number s.position [c] false))
    else if c.isAlpha then .ok (s.enter c (.word s.position [c]))
    else .error ⟨.illegalCharacter c, source, s.position, s.position.next⟩

def step (source : Source) (s : Scanner) (c : Char) : Except LexError Scanner :=
  match s.mode with
  | .idle => s.start source c
  | .comment => .ok (s.enter c (if c = '\n' then .idle else .comment))
  | .string start read true => .ok (s.enter c (.string start (unescape c :: read) false))
  | .string start read false =>
    if c = '"' then
      let past := s.enter c .idle
      .ok (past.emit source (.string (String.ofList read.reverse)) start past.position)
    else if c = '\\' then .ok (s.enter c (.string start read true))
    else .ok (s.enter c (.string start (c :: read) false))
  | .number start read dotted =>
    if c.isDigit then .ok (s.enter c (.number start (c :: read) dotted))
    else if c = '.' ∧ !dotted then .ok (s.enter c (.number start (c :: read) true))
    else do (← s.close source).start source c
  | .word start read =>
    if isWordChar c then .ok (s.enter c (.word start (c :: read)))
    else do (← s.close source).start source c
  | .lead start first =>
    if c = first.second then
      let past := s.enter c .idle
      .ok (past.emit source (.symbol first.joined) start past.position)
    else if first.alone?.isNone then
      .error ⟨.missingEqual, source, start, s.position.next⟩
    else do (← s.close source).start source c

def run (source : Source) (s : Scanner) (cs : List Char) : Except LexError Scanner :=
  cs.foldlM (step source) s

theorem run_append (source : Source) (s : Scanner) (cs ds : List Char) :
    s.run source (cs ++ ds) = (s.run source cs).bind (·.run source ds) := by
  simp only [run, List.foldlM_append]; rfl

def finish (source : Source) (s : Scanner) : Except LexError (List Token) := do
  let last ← s.close source
  .ok (⟨.eof, source, last.position, last.position.next⟩ :: last.tokens).reverse

end Scanner

def scan (source : Source) : Except LexError (List Token) := do
  (← Scanner.initial.run source source.text.toList).finish source

end ScriptLang
