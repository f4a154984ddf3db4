/-! Source texts and places in them. Offsets and columns count characters; lines and columns
start at zero. A span covers `start` up to, and without, `stop`. -/
namespace ScriptLang

structure Source where
  name : String
  text : String
  deriving DecidableEq

structure Position where
  offset : Nat
  line : Nat
  column : Nat
  deriving DecidableEq

namespace Position

def origin : Position := ⟨0, 0, 0⟩

def next (p : Position) : Position := ⟨p.offset + 1, p.line, p.column + 1⟩

def advance (p : Position) (c : Char) : Position :=
  if c = '\n' then ⟨p.offset + 1, p.line + 1, 0⟩ else p.next

def advanceAll (p : Position) (cs : List Char) : Position := cs.foldl advance p

@[simp] theorem advanceAll_nil (p : Position) : p.advanceAll [] = p := rfl

@[simp] theorem advanceAll_cons (p : Position) (c : Char) (cs : List Char) :
    p.advanceAll (c :: cs) = (p.advance c).advanceAll cs := rfl

theorem advanceAll_append (p : Position) (cs ds : List Char) :
    p.advanceAll (cs ++ ds) = (p.advanceAll cs).advanceAll ds := by
  simp [advanceAll]

@[simp] theorem offset_advance (p : Position) (c : Char) :
    (p.advance c).offset = p.offset + 1 := by
  unfold advance next; split <;> rfl

theorem offset_advanceAll (p : Position) (cs : List Char) :
    (p.advanceAll cs).offset = p.offset + cs.length := by
  induction cs generalizing p with
  | nil => rfl
  | cons c cs ih => simp [ih]; omega

end Position

/-- The pieces between newlines; a text without one is a single line. -/
def splitLines (cs : List Char) : List (List Char) :=
  cs.foldr (fun c lines => if c = '\n' then [] :: lines else
    match lines with
    | [] => [[c]]
    | line :: rest => (c :: line) :: rest) [[]]

/-- The text of one line without its newline; empty beyond the last line. -/
def Source.line (s : Source) (index : Nat) : String :=
  String.ofList ((splitLines s.text.toList).getD index [])

structure Span where
  source : Source
  start : Position
  stop : Position
  deriving DecidableEq

namespace Span

def through (s t : Span) : Span := { s with stop := t.stop }

def fileName (s : Span) : String := s.source.name

def lineNumber (s : Span) : Nat := s.start.line + 1

def lexeme (s : Span) : String :=
  String.ofList ((s.source.text.toList.drop s.start.offset).take (s.stop.offset - s.start.offset))

/-- The last line an excerpt shows; a span that stops before it starts shows its first line. -/
def lastLine (s : Span) : Nat := max s.stop.line s.start.line

/-- A line without its tabs, and under it carets below the part that the span covers: at least
one, so that an empty span still points somewhere. -/
def underlined (s : Span) (index : Nat) : String :=
  let shown := (s.source.line index).toList.filter (· ≠ '\t')
  let left := if index = s.start.line then s.start.column else 0
  let right := if index = s.lastLine then s.stop.column else shown.length
  String.ofList (shown ++ '\n' :: (List.replicate left ' ' ++
    List.replicate (max (right - left) 1) '^'))

def excerpt (s : Span) : String :=
  "\n".intercalate ((List.range' s.start.line (s.lastLine + 1 - s.start.line)).map s.underlined)

def describe (s : Span) : String :=
  s!"{s.source.name}:{s.start.line + 1}:{s.start.column}..{s.stop.line + 1}:{s.stop.column}"

end Span

end ScriptLang
