import ScriptLang.Machine
import ScriptLang.Proofs.Bare.Value

/-! Stores and machines whose values are bare. Looking names up and binding them commutes with
taking places and frames out. -/
namespace ScriptLang

variable {σ : Type}

namespace Scope

def bareBinding (b : String × Value) : String × Value := (b.1, b.2.bare)

def bare (s : Scope) : Scope := { s with bindings := s.bindings.map bareBinding }

theorem lookup_bare (bs : List (String × Value)) (name : String) :
    (bs.map bareBinding).lookup name = (bs.lookup name).map Value.bare := by
  induction bs with
  | nil => rfl
  | cons b bs ih =>
    obtain ⟨other, w⟩ := b
    simp only [List.map_cons, bareBinding, List.lookup_cons, ih]
    split <;> rfl

theorem insert_bare (name : String) (v : Value) (bs : List (String × Value)) :
    (insert name v bs).map bareBinding = insert name v.bare (bs.map bareBinding) := by
  induction bs with
  | nil => rfl
  | cons b bs ih =>
    simp only [insert, List.map_cons, bareBinding]
    split
    · rfl
    · rw [← ih]; rfl

theorem get?_bare (s : Scope) (name : String) : s.bare.get? name = (s.get? name).map Value.bare :=
  lookup_bare s.bindings name

theorem binds_bare (s : Scope) (name : String) : s.bare.binds name = s.binds name := by
  simp [binds, get?_bare]

theorem set_bare (s : Scope) (name : String) (v : Value) :
    (s.set name v).bare = s.bare.set name v.bare := by
  simp [set, bare, insert_bare]

end Scope

namespace Store

def bare (s : Store) : Store := ⟨s.scopes.map Scope.bare⟩

@[simp] theorem size_bare (s : Store) : s.bare.size = s.size := by simp [bare, size]

theorem push_bare (s : Store) (parent : Option Nat) :
    (s.push parent).bare = s.bare.push parent := by
  simp [push, bare, Scope.bare]

theorem set_bare (s : Store) (id : Nat) (name : String) (v : Value) :
    (s.set id name v).bare = s.bare.set id name v.bare := by
  simp only [set, bare, mk.injEq]
  apply Array.ext_getElem?
  intro i
  simp only [Array.getElem?_map, Array.getElem?_modify]
  by_cases h : id = i
  · simp only [h, if_true, Option.map_map, Function.comp_def, Scope.set_bare]
  · simp only [h, if_false]

theorem chainFrom_bare (s : Store) (fuel id : Nat) :
    s.bare.chainFrom fuel id = s.chainFrom fuel id := by
  induction fuel generalizing id with
  | zero => rfl
  | succ fuel ih =>
    simp only [chainFrom, bare, Array.getElem?_map]
    cases s.scopes[id]? with
    | none => rfl
    | some scope =>
      have same : s.bare.chainFrom fuel = s.chainFrom fuel := funext ih
      exact congrArg (fun f => id :: (scope.parent.map f).getD []) same

theorem binds_bare (s : Store) (id : Nat) (name : String) :
    s.bare.binds id name = s.binds id name := by
  simp only [binds, bare, Array.getElem?_map]
  cases s.scopes[id]? <;> simp [Scope.binds_bare]

theorem resolve?_bare (s : Store) (id : Nat) (name : String) :
    s.bare.resolve? id name = s.resolve? id name := by
  simp only [resolve?, chain, chainFrom_bare, binds_bare]

theorem get?_bare (s : Store) (id : Nat) (name : String) :
    s.bare.get? id name = (s.get? id name).map Value.bare := by
  simp only [get?, resolve?_bare]
  cases s.resolve? id name with
  | none => rfl
  | some found =>
    simp only [bare, Option.bind_eq_bind, Option.bind_some, Array.getElem?_map]
    cases s.scopes[found]? <;> simp [Scope.get?_bare]

theorem replace?_bare (s : Store) (id : Nat) (name : String) (v : Value) :
    (s.replace? id name v).map bare = s.bare.replace? id name v.bare := by
  simp only [replace?, resolve?_bare, Option.map_map, Function.comp_def, set_bare]

end Store

def Machine.bare (m : Machine σ) : Machine σ := { m with store := m.store.bare }

theorem Machine.bare_eq {m n : Machine σ} : m.bare = n.bare ↔ m.store.bare = n.store.bare ∧
    m.host = n.host ∧ m.depth = n.depth ∧ m.frames = n.frames := by
  simp [bare]

end ScriptLang
