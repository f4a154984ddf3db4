import ScriptLang.Node

/-! A cursor over tokens and the rules that move it. A rule either reads something, or fails at a
token and names what could have stood there, or runs out of steps, which no list of tokens that
ends with its end mark can bring about. -/
namespace ScriptLang

/-- What would have been accepted in place of the token that was found. -/
structure Failure where
  expected : List Token.Kind
  found : Token
  /-- How many tokens stand before the one that was found. -/
  index : Nat
  /-- A whole program was read, and something follows it. -/
  trailing : Bool

/-- The token read last (at first, the first token), the next one, and those behind it. -/
structure Cursor where
  previous : Token
  current : Token
  ahead : List Token
  /-- How many tokens stand before the current one. -/
  index : Nat
  /-- Why a tentative reading that began at the current token was given up. -/
  abandoned : Option Failure

namespace Cursor

def ofTokens (first : Token) (rest : List Token) : Cursor := ⟨first, first, rest, 0, none⟩

def kind (c : Cursor) : Token.Kind := c.current.kind

/-- The last token is never passed. -/
def advance (c : Cursor) : Cursor :=
  match c.ahead with
  | [] => ⟨c.current, c.current, [], c.index, none⟩
  | next :: rest => ⟨c.current, next, rest, c.index + 1, none⟩

def mark (c : Cursor) : Mark := ⟨c.current.span, c.index⟩

def failure (c : Cursor) (expected : List Token.Kind) : Failure :=
  ⟨expected, c.current, c.index, false⟩

/-- The failure of the abandoned reading, if it got past the current token: then it tells more
than a complaint about the current token. -/
def deeper (c : Cursor) : Option Failure :=
  c.abandoned.filter (c.current.span.start.offset < ·.found.span.start.offset)

end Cursor

inductive Outcome (α : Type) where
  | done (value : α) (cursor : Cursor)
  | failed (failure : Failure)
  | spent

def Rule (α : Type) : Type := Cursor → Outcome α

namespace Rule

variable {α β : Type}

@[inline] protected def pure (a : α) : Rule α := fun c => .done a c

@[inline] protected def bind (p : Rule α) (f : α → Rule β) : Rule β := fun c =>
  match p c with
  | .done a c' => f a c'
  | .failed e => .failed e
  | .spent => .spent

instance : Monad Rule where
  pure := Rule.pure
  bind := Rule.bind

def spent : Rule α := fun _ => .spent

def throw (e : Failure) : Rule α := fun _ => .failed e

def here : Rule Cursor := fun c => .done c c

def unexpected (expected : List Token.Kind) : Rule α := fun c => .failed (c.failure expected)

def advance : Rule Token := fun c => .done c.current c.advance

def accept (kind : Token.Kind) : Rule Bool := fun c =>
  if c.kind = kind then .done true c.advance else .done false c

def expect (kind : Token.Kind) (expected : List Token.Kind) : Rule Token := fun c =>
  if c.kind = kind then .done c.current c.advance else .failed (c.failure expected)

def keyword (k : Keyword) : Rule Token := expect (.keyword k) [.keyword k]

def symbol (s : Symbol) : Rule Token := expect (.symbol s) [.symbol s]

def name : Rule String := fun c =>
  match c.current.content with
  | .identifier n => .done n c.advance
  | _ => .failed (c.failure [.identifier])

def markFrom (start : Mark) : Rule Mark := fun c => .done (start.upTo c.previous.span) c

/-- Goes back to where `p` began when it fails, and remembers the failure there. -/
def attempt (p : Rule α) : Rule (Option α) := fun c =>
  match p c with
  | .done a c' => .done (some a) c'
  | .failed e => .done none { c with abandoned := some e }
  | .spent => .spent

/-- Names what could begin the construct when `p` fails without getting past its first token. -/
def describing (p : Rule α) (expected : List Token.Kind) : Rule α := fun c =>
  match p c with
  | .failed e => .failed (if e.index = c.index then c.failure expected else e)
  | outcome => outcome

end Rule

end ScriptLang
