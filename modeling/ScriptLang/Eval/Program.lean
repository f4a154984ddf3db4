import ScriptLang.Machine

/-! Whole programs: from a text to its tree, and from the signal of the tree to a result. -/
namespace ScriptLang

def globalScope : Nat := 0

def programName : String := "<program>"

def Source.tree (source : Source) : Except Error Tree :=
  match scan source with
  | .error e => .error (.lexical e)
  | .ok tokens =>
    match parse tokens with
    | .error e => .error (.grammatical e)
    | .ok tree => .ok tree

/-- Runs a text in the outermost scope, in a frame of its own. -/
def runSource {σ : Type} (self : Evaluator σ) (source : Source) (m : Machine σ) :
    Option (Except Error Value × Machine σ) :=
  match source.tree with
  | .error e => some (.error e, m)
  | .ok tree =>
    let frame := Frame.root m.frames programName globalScope
    match self tree frame { m with frames := m.frames + 1 } with
    | some (s, m') => some (s.programResult tree.span frame, m')
    | none => none

end ScriptLang
