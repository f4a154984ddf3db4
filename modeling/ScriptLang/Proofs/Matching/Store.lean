import ScriptLang.Proofs.Matching.Value
import ScriptLang.Scope

/-! Scopes and stores that bind the same names to values that match. Looking names up and binding
them keeps to that. -/
namespace ScriptLang

structure Binding.Matches (exact : Bool) (w : Pairing) (a b : String × Value) : Prop where
  name : a.1 = b.1
  value : a.2.Matches exact w b.2

structure Scope.Matches (exact : Bool) (w : Pairing) (s t : Scope) : Prop where
  parent : s.parent = t.parent
  bindings : List.Forall₂ (Binding.Matches exact w) s.bindings t.bindings

namespace Scope.Matches

variable {exact : Bool} {w w' : Pairing} {s t : Scope}

theorem lookup {bs cs : List (String × Value)} (h : List.Forall₂ (Binding.Matches exact w) bs cs)
    (name : String) : Option.Rel (Value.Matches exact w) (bs.lookup name) (cs.lookup name) := by
  induction h with
  | nil => exact .none
  | @cons b c _ _ head _ ih =>
    obtain ⟨other, v⟩ := b
    obtain ⟨other', u⟩ := c
    obtain rfl : other = other' := head.name
    simp only [List.lookup_cons]
    split
    · exact .some head.value
    · exact ih

theorem insert {bs cs : List (String × Value)} (h : List.Forall₂ (Binding.Matches exact w) bs cs)
    (name : String) {v u : Value} (values : v.Matches exact w u) :
    List.Forall₂ (Binding.Matches exact w) (Scope.insert name v bs) (Scope.insert name u cs) := by
  induction h with
  | nil => exact .cons ⟨rfl, values⟩ .nil
  | @cons b c _ _ head tail ih =>
    obtain ⟨other, v⟩ := b
    obtain ⟨other', u⟩ := c
    obtain rfl : other = other' := head.name
    simp only [Scope.insert]
    split
    · exact .cons ⟨rfl, values⟩ tail
    · exact .cons head ih

theorem carry (h : s.Matches exact w t)
    (kept : ∀ {x y : Nat × Nat}, w.pairs x y → w'.pairs x y) : s.Matches exact w' t :=
  ⟨h.parent, h.bindings.imp fun _ _ b => ⟨b.name, b.value.carry kept⟩⟩

theorem set (h : s.Matches exact w t) (name : String) {v u : Value}
    (values : v.Matches exact w u) : (s.set name v).Matches exact w (t.set name u) :=
  ⟨h.parent, insert h.bindings name values⟩

theorem binds_eq (h : s.Matches exact w t) (name : String) : s.binds name = t.binds name := by
  have found := lookup h.bindings name
  unfold Scope.binds Scope.get?
  generalize s.bindings.lookup name = a at found ⊢
  generalize t.bindings.lookup name = b at found ⊢
  cases found <;> rfl

theorem older (h : s.Matches exact w t) : ∀ b ∈ s.bindings, b.2.Older w.left := by
  have bindings := h.bindings
  generalize s.bindings = bs at bindings ⊢
  generalize t.bindings = cs at bindings
  induction bindings with
  | nil => simp
  | cons head _ ih =>
    intro b mem
    rcases List.mem_cons.1 mem with rfl | mem
    · exact head.value.older
    · exact ih b mem

end Scope.Matches

structure Store.Matches (exact : Bool) (w : Pairing) (s t : Store) : Prop where
  size : s.size = t.size
  scopes : ∀ i : Nat, Option.Rel (Scope.Matches exact w) s.scopes[i]? t.scopes[i]?

/-- Every function in the store was made in a frame before `k`. -/
def Store.Older (k : Nat) (s : Store) : Prop :=
  ∀ scope ∈ s.scopes, ∀ b ∈ scope.bindings, b.2.Older k

namespace Store.Matches

variable {exact : Bool} {w w' : Pairing} {s t : Store}

theorem carry (h : s.Matches exact w t)
    (kept : ∀ {x y : Nat × Nat}, w.pairs x y → w'.pairs x y) : s.Matches exact w' t := by
  refine ⟨h.size, fun i => ?_⟩
  have scope := h.scopes i
  generalize s.scopes[i]? = a at scope ⊢
  generalize t.scopes[i]? = b at scope ⊢
  cases scope with
  | none => exact .none
  | some scopes => exact .some (scopes.carry kept)

theorem mono (h : s.Matches exact w t) (le : w.Le w') : s.Matches exact w' t := h.carry le.kept

theorem push (h : s.Matches exact w t) (parent : Option Nat) :
    (s.push parent).Matches exact w (t.push parent) := by
  have size : s.scopes.size = t.scopes.size := h.size
  refine ⟨by simp only [Store.push, Store.size, Array.size_push, size], fun i => ?_⟩
  simp only [Store.push, Array.getElem?_push, size]
  split
  · exact .some ⟨rfl, .nil⟩
  · exact h.scopes i

theorem set (h : s.Matches exact w t) (id : Nat) (name : String) {v u : Value}
    (values : v.Matches exact w u) : (s.set id name v).Matches exact w (t.set id name u) := by
  refine ⟨by simpa only [Store.set, Store.size, Array.size_modify] using h.size, fun i => ?_⟩
  have scope := h.scopes i
  simp only [Store.set, Array.getElem?_modify]
  generalize s.scopes[i]? = a at scope ⊢
  generalize t.scopes[i]? = b at scope ⊢
  split
  · cases scope with
    | none => exact .none
    | some scopes => exact .some (scopes.set name values)
  · exact scope

theorem chainFrom_eq (h : s.Matches exact w t) (fuel id : Nat) :
    s.chainFrom fuel id = t.chainFrom fuel id := by
  induction fuel generalizing id with
  | zero => rfl
  | succ fuel ih =>
    have scope := h.scopes id
    simp only [Store.chainFrom]
    generalize s.scopes[id]? = a at scope ⊢
    generalize t.scopes[id]? = b at scope ⊢
    cases scope with
    | none => rfl
    | some scopes =>
      have same : s.chainFrom fuel = t.chainFrom fuel := funext ih
      simp only [scopes.parent, same]

theorem binds_eq (h : s.Matches exact w t) (id : Nat) (name : String) :
    s.binds id name = t.binds id name := by
  have scope := h.scopes id
  unfold Store.binds
  generalize s.scopes[id]? = a at scope ⊢
  generalize t.scopes[id]? = b at scope ⊢
  cases scope with
  | none => rfl
  | some scopes => exact scopes.binds_eq name

theorem resolve?_eq (h : s.Matches exact w t) (id : Nat) (name : String) :
    s.resolve? id name = t.resolve? id name := by
  simp only [Store.resolve?, Store.chain, h.chainFrom_eq, h.binds_eq]

theorem get? (h : s.Matches exact w t) (id : Nat) (name : String) :
    Option.Rel (Value.Matches exact w) (s.get? id name) (t.get? id name) := by
  unfold Store.get?
  rw [h.resolve?_eq]
  cases t.resolve? id name with
  | none => exact .none
  | some found =>
    have scope := h.scopes found
    simp only [Option.bind_eq_bind, Option.bind_some]
    generalize s.scopes[found]? = a at scope ⊢
    generalize t.scopes[found]? = b at scope ⊢
    cases scope with
    | none => exact .none
    | some scopes => exact Scope.Matches.lookup scopes.bindings name

theorem replace (h : s.Matches exact w t) (id : Nat) (name : String) {v u : Value}
    (values : v.Matches exact w u) :
    ((s.replace? id name v).getD s).Matches exact w ((t.replace? id name u).getD t) := by
  unfold Store.replace?
  rw [h.resolve?_eq]
  cases t.resolve? id name with
  | none => exact h
  | some found => exact h.set found name values

theorem ofOlder {k left right : Nat} (hl : k ≤ left) (hr : k ≤ right) (older : s.Older k) :
    s.Matches exact (.itself k hl hr) s := by
  refine ⟨rfl, fun i => ?_⟩
  cases found : s.scopes[i]? with
  | none => exact .none
  | some scope =>
    have held := older scope (Array.mem_of_getElem? found)
    refine .some ⟨rfl, List.forall₂_same.2 fun b mem => ⟨rfl, .ofOlder hl hr (held b mem)⟩⟩

theorem older (h : s.Matches exact w t) : s.Older w.left := by
  intro scope mem
  obtain ⟨i, lt, rfl⟩ := Array.mem_iff_getElem.1 mem
  have scopes := h.scopes i
  rw [Array.getElem?_eq_getElem lt] at scopes
  generalize t.scopes[i]? = other at scopes
  cases scopes with
  | some matched => exact matched.older

end Store.Matches

end ScriptLang
