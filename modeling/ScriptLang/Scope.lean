import ScriptLang.Value

/-! Scopes, kept in a store and named by their index in it. A scope looks names up in itself and
then in its parent; new bindings always land in the scope itself. Stores only grow, so a parent
is older than its children. -/
namespace ScriptLang

structure Scope where
  bindings : List (String × Value)
  parent : Option Nat

namespace Scope

def get? (s : Scope) (name : String) : Option Value := s.bindings.lookup name

def binds (s : Scope) (name : String) : Bool := (s.get? name).isSome

def insert (name : String) (v : Value) : List (String × Value) → List (String × Value)
  | [] => [(name, v)]
  | (other, w) :: rest =>
    if name == other then (name, v) :: rest else (other, w) :: insert name v rest

def set (s : Scope) (name : String) (v : Value) : Scope :=
  { s with bindings := insert name v s.bindings }

def names (s : Scope) : List String := s.bindings.map Prod.fst

def describe (s : Scope) : String :=
  "Scope \x7b bindings: " ++ Text.quotedList (s.names.mergeSort (· ≤ ·)) ++ ", has_parent: " ++
    (if s.parent.isSome then "true" else "false") ++ " \x7d"

@[simp] theorem lookup_insert_self (name : String) (v : Value) (bs : List (String × Value)) :
    (insert name v bs).lookup name = some v := by
  induction bs with
  | nil => simp [insert]
  | cons b bs ih =>
    obtain ⟨other, w⟩ := b
    by_cases h : (name == other) = true <;> simp [insert, List.lookup_cons, h, ih]

theorem lookup_insert_ne {name other : String} (h : other ≠ name) (v : Value)
    (bs : List (String × Value)) : (insert name v bs).lookup other = bs.lookup other := by
  induction bs with
  | nil => simp [insert, List.lookup_cons, beq_false_of_ne h]
  | cons b bs ih =>
    obtain ⟨first, w⟩ := b
    by_cases hf : name = first
    · subst hf; simp [insert, List.lookup_cons, beq_false_of_ne h]
    · simp only [insert, beq_false_of_ne hf, List.lookup_cons, Bool.false_eq_true, if_false, ih]

end Scope

structure Store where
  scopes : Array Scope

namespace Store

def empty : Store := ⟨#[]⟩

def size (s : Store) : Nat := s.scopes.size

/-- A new scope, which gets the index `s.size`. -/
def push (s : Store) (parent : Option Nat) : Store := ⟨s.scopes.push ⟨[], parent⟩⟩

/-- Indices of a scope and those around it, innermost first, at most `fuel` of them. -/
def chainFrom (s : Store) : Nat → Nat → List Nat
  | 0, _ => []
  | fuel + 1, id =>
    match s.scopes[id]? with
    | none => []
    | some scope => id :: (scope.parent.map (s.chainFrom fuel)).getD []

/-- All of them: there are no more than `id` scopes older than `id`. -/
def chain (s : Store) (id : Nat) : List Nat := s.chainFrom (id + 1) id

def binds (s : Store) (id : Nat) (name : String) : Bool :=
  (s.scopes[id]?).any (·.binds name)

def resolve? (s : Store) (id : Nat) (name : String) : Option Nat :=
  (s.chain id).find? (s.binds · name)

def get? (s : Store) (id : Nat) (name : String) : Option Value := do
  (← s.scopes[← s.resolve? id name]?).get? name

def set (s : Store) (id : Nat) (name : String) (v : Value) : Store :=
  ⟨s.scopes.modify id (·.set name v)⟩

/-- Binds in the nearest scope that already does; without one there is no new store. -/
def replace? (s : Store) (id : Nat) (name : String) (v : Value) : Option Store :=
  (s.resolve? id name).map (s.set · name v)

def describe (s : Store) (id : Nat) : String := ((s.scopes[id]?).map Scope.describe).getD ""

end Store

def globals : List (String × Value) :=
  [("NULL", .null), ("FALSE", .bool false), ("TRUE", .bool true),
    ("MATH_PI", .number (.float 3.141592653589793) .none)] ++
    Builtin.globals.map fun (name, b) => (name, .builtin b .none)

def Store.pushGlobals (s : Store) : Store := ⟨s.scopes.push ⟨globals, none⟩⟩

end ScriptLang
