import ScriptLang.Node.Map
import ScriptLang.Proofs.Phrase
import ScriptLang.Token.Scan

/-! Writing programs down. A tree is written with as few parentheses as the ladder of precedence
allows, except that the inline forms, which read on as far as they can, are only left bare where a
statement of a sequence stands. -/
namespace ScriptLang

/-- The ladder of precedence, from the loosest to the tightest. -/
inductive Rung where
  | expression | logic | comparison | chain | arithmetic | term | factor | power | call | atom
  deriving DecidableEq

def Rung.rank : Rung → Nat
  | expression => 1
  | logic => 2
  | comparison => 3
  | chain => 4
  | arithmetic => 5
  | term => 6
  | factor => 7
  | power => 8
  | call => 9
  | atom => 10

def UnaryOp.rung : UnaryOp → Rung
  | not => .comparison
  | plus | minus => .factor

def UnaryOp.content : UnaryOp → Token.Content
  | not => .keyword .NOT
  | plus => .symbol .plus
  | minus => .symbol .minus

namespace BinaryOp

def rung : BinaryOp → Rung
  | and | or => .logic
  | eq | ne | lt | lte | gt | gte => .chain
  | add | sub => .arithmetic
  | mul | div => .term
  | pow => .power

/-- All operators but the power join from the left. -/
def leftRung : BinaryOp → Rung
  | pow => .call
  | op => op.rung

def rightRung : BinaryOp → Rung
  | and | or => .comparison
  | eq | ne | lt | lte | gt | gte => .arithmetic
  | add | sub => .term
  | mul | div | pow => .factor

end BinaryOp

namespace Node

/-- How tightly a tree holds together: the rank of the rung it is written at, or none for the
inline forms. -/
def strength : Node Unit → Nat
  | assign .. => Rung.expression.rank
  | unary op _ _ => op.rung.rank
  | binary op _ _ _ => op.rung.rank
  | call .. => Rung.call.rank
  | cond arms _ _ => if arms.any Arm.suppress then Rung.atom.rank else 0
  | forLoop _ _ _ _ _ suppress _ => if suppress then Rung.atom.rank else 0
  | whileLoop _ _ suppress _ => if suppress then Rung.atom.rank else 0
  | function _ _ _ auto _ => if auto then 0 else Rung.atom.rank
  | _ => Rung.atom.rank

/-- What is written for a tree where a rung is called for. -/
def enclose (r : Rung) (n : Node Unit) (cs : List Token.Content) : List Token.Content :=
  if r.rank ≤ n.strength then cs else .symbol .leftParen :: (cs ++ [.symbol .rightParen])

open Token.Content (int float identifier keyword symbol newline) in
mutual

def written : Node Unit → List Token.Content
  | .number (.int n) _ => [int n]
  | .number (.float x) _ => [float x]
  | .string s _ => [.string s]
  | .access name _ => [identifier name]
  | .list es _ => symbol .leftBracket :: (writtenRow es ++ [symbol .rightBracket])
  | .assign name v _ =>
    keyword .VAR :: identifier name :: symbol .assign :: enclose .expression v (written v)
  | .unary op v _ => op.content :: enclose op.rung v (written v)
  | .binary op l r _ =>
    enclose op.leftRung l (written l) ++ op.content :: enclose op.rightRung r (written r)
  | .call f args _ => enclose .call f (written f) ++
      symbol .leftParen :: (writtenRow args ++ [symbol .rightParen])
  | .cond arms last _ => keyword .IF :: (writtenArms arms ++ (writtenOtherwise last ++
      if arms.any Arm.suppress then [keyword .END] else []))
  | .forLoop name first last step body suppress _ =>
    keyword .FOR :: identifier name :: symbol .assign ::
      (enclose .expression first (written first) ++
        keyword .TO :: (enclose .expression last (written last) ++
          (writtenStep step ++ keyword .THEN ::
            if suppress then newline :: (written body ++ [keyword .END])
            else enclose .expression body (written body))))
  | .whileLoop c body suppress _ =>
    keyword .WHILE :: (enclose .expression c (written c) ++ keyword .THEN ::
      if suppress then newline :: (written body ++ [keyword .END])
      else enclose .expression body (written body))
  | .breaks _ => [keyword .BREAK]
  | .continues _ => [keyword .CONTINUE]
  | .returns v _ => keyword .RETURN :: writtenValue v
  | .function name params body auto _ =>
    keyword .FUN :: ((name.map identifier).toList ++ symbol .leftParen ::
      (Phrase.names params ++ symbol .rightParen ::
        if auto then symbol .arrow :: enclose .expression body (written body)
        else newline :: (written body ++ [keyword .END])))
  | .block ss _ => writtenLines ss

def writtenRow : List (Node Unit) → List Token.Content
  | [] => []
  | [n] => enclose .expression n (written n)
  | n :: ns => enclose .expression n (written n) ++ symbol .comma :: writtenRow ns

def writtenLines : List (Node Unit) → List Token.Content
  | [] => []
  | n :: ns => written n ++ newline :: writtenLines ns

def writtenArms : List (Arm (Node Unit)) → List Token.Content
  | [] => []
  | [⟨c, b, suppress⟩] => enclose .expression c (written c) ++ keyword .THEN ::
      if suppress then newline :: written b else enclose .expression b (written b)
  | ⟨c, b, suppress⟩ :: arms => enclose .expression c (written c) ++ keyword .THEN ::
      ((if suppress then newline :: written b else enclose .expression b (written b)) ++
        keyword .ELIF :: writtenArms arms)

def writtenOtherwise : Option (Otherwise (Node Unit)) → List Token.Content
  | none => []
  | some ⟨b, suppress⟩ => keyword .ELSE ::
      if suppress then newline :: written b else enclose .expression b (written b)

def writtenStep : Option (Node Unit) → List Token.Content
  | none => []
  | some n => keyword .STEP :: enclose .expression n (written n)

def writtenValue : Option (Node Unit) → List Token.Content
  | none => []
  | some n => enclose .expression n (written n)

end

def operand (r : Rung) (n : Node Unit) : List Token.Content := enclose r n n.written

end Node

def escape : Char → List Char
  | '"' => ['\\', '"']
  | '\\' => ['\\', '\\']
  | '\n' => ['\\', 'n']
  | '\t' => ['\\', 't']
  | c => [c]

namespace Token.Content

def lexeme : Token.Content → List Char
  | int n => Nat.toDigits 10 n.toInt.toNat
  | string s => '"' :: (s.toList.flatMap escape ++ ['"'])
  | identifier name => name.toList
  | keyword k => k.text.toList
  | symbol s => s.text.toList
  | float _ | newline | eof => []

/-- What is written for a token: a line break, or its letters and a blank. -/
def spelling : Token.Content → List Char
  | newline => ['\n']
  | x => x.lexeme ++ [' ']

end Token.Content

def Node.print (n : Node Unit) : String := String.ofList (n.written.flatMap Token.Content.spelling)

/-- A letter, and letters, digits and underscores behind it. -/
def isWord : List Char → Bool
  | [] => false
  | c :: cs => c.isAlpha && cs.all isWordChar

def isName (s : String) : Bool := isWord s.toList && (Keyword.ofText? s).isNone

inductive Role where
  | expression | statement | block
  deriving DecidableEq

def Role.ofBody (block : Bool) : Role := if block then .block else .statement

def Role.ofFunction (auto : Bool) : Role := if auto then .expression else .block

/-- Trees that can be written down: integers are not negative, names are names, and the bodies of
one construct are all inline or all blocks. -/
inductive Canonical : Role → Node Unit → Prop where
  | int {n : Int64} (h : 0 ≤ n) : Canonical .expression (.number (.int n) ())
  | string (s : String) : Canonical .expression (.string s ())
  | access {name : String} (h : isName name) : Canonical .expression (.access name ())
  | list {es : List (Node Unit)} (h : ∀ e ∈ es, Canonical .expression e) :
    Canonical .expression (.list es ())
  | assign {name : String} {v : Node Unit} (named : isName name) (h : Canonical .expression v) :
    Canonical .expression (.assign name v ())
  | unary {op : UnaryOp} {v : Node Unit} (h : Canonical .expression v) :
    Canonical .expression (.unary op v ())
  | binary {op : BinaryOp} {l r : Node Unit} (left : Canonical .expression l)
    (right : Canonical .expression r) : Canonical .expression (.binary op l r ())
  | call {f : Node Unit} {args : List (Node Unit)} (callee : Canonical .expression f)
    (h : ∀ a ∈ args, Canonical .expression a) : Canonical .expression (.call f args ())
  | cond {arms : List (Arm (Node Unit))} {last : Option (Otherwise (Node Unit))} (block : Bool)
    (some : arms ≠ []) (flags : ∀ a ∈ arms, a.suppress = block)
    (conditions : ∀ a ∈ arms, Canonical .expression a.condition)
    (bodies : ∀ a ∈ arms, Canonical (.ofBody block) a.body)
    (flag : ∀ o ∈ last, o.suppress = block) (body : ∀ o ∈ last, Canonical (.ofBody block) o.body) :
    Canonical .expression (.cond arms last ())
  | forLoop {name : String} {first last : Node Unit} {step : Option (Node Unit)}
    {body : Node Unit} {block : Bool} (named : isName name) (start : Canonical .expression first)
    (stop : Canonical .expression last) (increment : ∀ n ∈ step, Canonical .expression n)
    (h : Canonical (.ofBody block) body) :
    Canonical .expression (.forLoop name first last step body block ())
  | whileLoop {c body : Node Unit} {block : Bool} (condition : Canonical .expression c)
    (h : Canonical (.ofBody block) body) : Canonical .expression (.whileLoop c body block ())
  | function {name : Option String} {params : List String} {body : Node Unit} {auto : Bool}
    (named : ∀ s ∈ name, isName s) (names : ∀ s ∈ params, isName s)
    (h : Canonical (.ofFunction auto) body) :
    Canonical .expression (.function name params body auto ())
  | returns : Canonical .statement (.returns none ())
  | returnsValue {v : Node Unit} (h : Canonical .expression v) :
    Canonical .statement (.returns (some v) ())
  | breaks : Canonical .statement (.breaks ())
  | continues : Canonical .statement (.continues ())
  | expression {n : Node Unit} (h : Canonical .expression n) : Canonical .statement n
  | block {ss : List (Node Unit)} (h : ∀ s ∈ ss, Canonical .statement s) :
    Canonical .block (.block ss ())

end ScriptLang
