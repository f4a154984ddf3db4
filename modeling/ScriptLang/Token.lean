import ScriptLang.Source
import ScriptLang.Number.Shortest
import ScriptLang.Text.Quoted

/-! The tokens of a program: keywords, symbols, literals and names, separators, and a last token
that marks the end of the text. -/
namespace ScriptLang

inductive Keyword where
  | VAR | AND | OR | NOT | IF | ELIF | ELSE | FOR | TO | STEP | WHILE | FUN | THEN | END
  | RETURN | CONTINUE | BREAK
  deriving DecidableEq

namespace Keyword

def all : List Keyword :=
  [VAR, AND, OR, NOT, IF, ELIF, ELSE, FOR, TO, STEP, WHILE, FUN, THEN, END, RETURN, CONTINUE,
    BREAK]

def text : Keyword → String
  | VAR => "VAR"
  | AND => "AND"
  | OR => "OR"
  | NOT => "NOT"
  | IF => "IF"
  | ELIF => "ELIF"
  | ELSE => "ELSE"
  | FOR => "FOR"
  | TO => "TO"
  | STEP => "STEP"
  | WHILE => "WHILE"
  | FUN => "FUN"
  | THEN => "THEN"
  | END => "END"
  | RETURN => "RETURN"
  | CONTINUE => "CONTINUE"
  | BREAK => "BREAK"

def ofText? (s : String) : Option Keyword := all.find? (·.text = s)

theorem ofText?_text (k : Keyword) : ofText? k.text = some k := by cases k <;> decide

end Keyword

inductive Symbol where
  | plus | minus | star | slash | caret | assign
  | leftParen | rightParen | leftBracket | rightBracket
  | equal | notEqual | less | greater | lessEqual | greaterEqual
  | comma | arrow
  deriving DecidableEq

def Symbol.text : Symbol → String
  | plus => "+"
  | minus => "-"
  | star => "*"
  | slash => "/"
  | caret => "^"
  | assign => "="
  | leftParen => "("
  | rightParen => ")"
  | leftBracket => "["
  | rightBracket => "]"
  | equal => "=="
  | notEqual => "!="
  | less => "<"
  | greater => ">"
  | lessEqual => "<="
  | greaterEqual => ">="
  | comma => ","
  | arrow => "->"

/-- What a token is, without what it says: all that the grammar looks at. -/
inductive Token.Kind where
  | int | float | string | identifier
  | keyword (k : Keyword)
  | symbol (s : Symbol)
  | newline | eof
  deriving DecidableEq

namespace Token.Kind

def text : Kind → String
  | int => "INT"
  | float => "FLOAT"
  | string => "STRING"
  | identifier => "IDENTIFIER"
  | keyword k => k.text
  | symbol s => s.text
  | newline => "NEWLINE"
  | eof => "EOF"

def expectation : Kind → String
  | int => "int"
  | float => "float"
  | string => "string"
  | identifier => "identifier"
  | keyword k => "'" ++ k.text ++ "'"
  | symbol s => "'" ++ s.text ++ "'"
  | newline => "NEWLINE"
  | eof => "EOF"

end Token.Kind

inductive Token.Content where
  | int (value : Int64)
  | float (value : Float)
  | string (value : String)
  | identifier (name : String)
  | keyword (k : Keyword)
  | symbol (s : Symbol)
  | newline | eof

namespace Token.Content

def kind : Content → Kind
  | int _ => .int
  | float _ => .float
  | string _ => .string
  | identifier _ => .identifier
  | keyword k => .keyword k
  | symbol s => .symbol s
  | newline => .newline
  | eof => .eof

def text (c : Content) : String :=
  match c with
  | int n => s!"{c.kind.text}:{n.toInt}"
  | float x => s!"{c.kind.text}:{(Binary.ofFloat x).text}"
  | string s => s!"{c.kind.text}:{Text.quoted s}"
  | identifier name => s!"{c.kind.text}:{name}"
  | _ => c.kind.text

end Token.Content

structure Token where
  content : Token.Content
  span : Span

def Token.kind (t : Token) : Token.Kind := t.content.kind

end ScriptLang
