import ScriptLang.Fault
import ScriptLang.Frame.Traceback
import ScriptLang.Node.Parse
import ScriptLang.Token.Scan

/-! Errors and how they are shown: a traceback for those raised while running, the file and line
for those found before, then the text concerned with carets under it. -/
namespace ScriptLang

inductive Error where
  | lexical (e : LexError)
  | grammatical (e : SyntaxError)
  | runtime (fault : Fault) (span : Span) (frame : Frame)
  | recursion (limit : Nat) (span : Span) (frame : Frame)

def alternatives : List String → String
  | [] => "something else"
  | [only] => only
  | items => ", ".intercalate items.dropLast ++ " or " ++ items.getLast?.getD ""

/-- The kind of an error, and for those raised while running the frame they were raised in. -/
inductive Diagnostic.Title where
  | illegalCharacter
  | expectedCharacter
  | invalidSyntax (expected : List String)
  | runtime (frame : Frame)
  | recursion (frame : Frame)

def Diagnostic.Title.text : Diagnostic.Title → String
  | illegalCharacter => "Illegal Character"
  | expectedCharacter => "Expected Character"
  | invalidSyntax _ => "Invalid Syntax"
  | runtime _ => "Runtime Error"
  | recursion _ => "Recursion Error"

structure Diagnostic where
  title : Diagnostic.Title
  details : String
  span : Span

namespace Diagnostic

def expecting (expected : List String) (span : Span) : Diagnostic :=
  ⟨.invalidSyntax expected, s!"Expected {alternatives expected}", span⟩

def tooDeep (limit : Nat) (span : Span) (frame : Frame) : Diagnostic :=
  ⟨.recursion frame, s!"maximum call depth of {limit} exceeded", span⟩

/-- The error in one line, unless its details have more. -/
def message (d : Diagnostic) : String := s!"{d.title.text}: {d.details}"

def render (d : Diagnostic) : String :=
  match d.title with
  | .runtime frame | .recursion frame =>
    Traceback.text d.span frame ++ d.message ++ "\n\n" ++ d.span.excerpt
  | _ =>
    d.message ++ s!"\nFile {d.span.fileName}, line {d.span.lineNumber}\n\n" ++ d.span.excerpt

end Diagnostic

def LexError.diagnostic (e : LexError) : Diagnostic :=
  match e.fault with
  | .illegalCharacter c => ⟨.illegalCharacter, s!"'{c}'", e.span⟩
  | .missingEqual => ⟨.expectedCharacter, "'=' (after '!')", e.span⟩
  | .unclosedString => ⟨.expectedCharacter, "'\"' to close string literal", e.span⟩

def SyntaxError.diagnostic (e : SyntaxError) : Diagnostic :=
  let expected := e.expected.map Token.Kind.expectation
  if e.trailing then
    ⟨.invalidSyntax expected, "Token cannot appear after previous tokens", e.span⟩
  else .expecting expected e.span

namespace Error

def diagnostic : Error → Diagnostic
  | lexical e => e.diagnostic
  | grammatical e => e.diagnostic
  | runtime fault span frame => ⟨.runtime frame, fault.message, span⟩
  | recursion limit span frame => .tooDeep limit span frame

def render (e : Error) : String := e.diagnostic.render

end Error

end ScriptLang
