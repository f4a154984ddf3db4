import ScriptLang.Fault
import ScriptLang.Value

/-! The lists that the built-in functions leave in their first argument. -/
namespace ScriptLang.Value

def append (first element : Value) : Except Fault Value :=
  match first with
  | list vs t => .ok (list (vs ++ [element]) t)
  | _ => .error .firstNotList

/-- A wrong second argument is reported before a wrong first one. -/
def extend (first second : Value) : Except Fault Value :=
  match second.list?, first with
  | none, _ => .error .secondNotList
  | some ws, list vs t => .ok (list (vs ++ ws) t)
  | some _, _ => .error .firstNotList

/-- The element taken out, and the list without it. -/
def pop (first second : Value) : Except Fault (Value × Value) :=
  match second.number?, first with
  | none, _ => .error .secondNotNumber
  | some n, list vs t =>
    match n.toIndex vs.length with
    | none => .error .popOutOfBounds
    | some i =>
      match vs[i]? with
      | none => .error .popOutOfBounds
      | some v => .ok (v, list (vs.eraseIdx i) t)
  | some _, _ => .error .firstNotList

end ScriptLang.Value
