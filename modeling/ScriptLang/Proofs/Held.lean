import ScriptLang.Eval.Call

/-! The functions that values and stores hold. No operation on values makes a function: whatever
is true of all functions in its operands is true of all functions in its result. -/
namespace ScriptLang

variable {σ : Type}

variable {Q : Function → Prop}

/-- All functions in the value are in `Q`. -/
inductive Value.Holds (Q : Function → Prop) : Value → Prop where
  | number (n : Number) (t : Stamp) : Holds Q (.number n t)
  | string (s : String) (t : Stamp) : Holds Q (.string s t)
  | list {vs : List Value} (elements : ∀ v ∈ vs, Holds Q v) (t : Stamp) : Holds Q (.list vs t)
  | function {f : Function} (h : Q f) (t : Stamp) : Holds Q (.function f t)
  | builtin (b : Builtin) (t : Stamp) : Holds Q (.builtin b t)

namespace Value.Holds

theorem restamp {v : Value} (h : v.Holds Q) (t : Stamp) : (v.restamp t).Holds Q := by
  cases h with
  | number n _ => exact .number n t
  | string s _ => exact .string s t
  | list elements _ => exact .list elements t
  | function h _ => exact .function h t
  | builtin b _ => exact .builtin b t

theorem place {v : Value} (h : v.Holds Q) (span : Span) (frame : Frame) :
    (v.place span frame).Holds Q :=
  h.restamp _

theorem null : Value.null.Holds Q := .number _ _

theorem elements {vs : List Value} {t : Stamp} (h : (Value.list vs t).Holds Q) :
    ∀ v ∈ vs, v.Holds Q := by
  cases h with
  | list elements _ => exact elements

theorem cons {v : Value} {vs : List Value} (first : v.Holds Q) (rest : ∀ w ∈ vs, w.Holds Q) :
    ∀ w ∈ v :: vs, w.Holds Q :=
  List.forall_mem_cons.2 ⟨first, rest⟩

theorem append {vs ws : List Value} (left : ∀ v ∈ vs, v.Holds Q) (right : ∀ w ∈ ws, w.Holds Q) :
    ∀ v ∈ vs ++ ws, v.Holds Q :=
  List.forall_mem_append.2 ⟨left, right⟩

theorem eraseIdx {vs : List Value} (h : ∀ v ∈ vs, v.Holds Q) (i : Nat) :
    ∀ v ∈ vs.eraseIdx i, v.Holds Q :=
  fun v mem => h v (List.mem_of_mem_eraseIdx mem)

section Operators

variable {a b v : Value}

theorem onNumbers {f : Number → Number → Number} (eq : Value.onNumbers f a b = .ok v) :
    v.Holds Q := by
  unfold Value.onNumbers at eq
  split at eq
  · cases eq
    exact .number _ _
  · cases eq

theorem add (ha : a.Holds Q) (hb : b.Holds Q) (eq : a.add b = .ok v) : v.Holds Q := by
  unfold Value.add at eq
  split at eq
  · cases eq
    exact .number _ _
  · cases eq
    exact .string _ _
  · cases eq
    exact .list (append ha.elements (List.forall_mem_singleton.2 hb)) _
  · cases eq

theorem sub (ha : a.Holds Q) (eq : a.sub b = .ok v) : v.Holds Q := by
  unfold Value.sub at eq
  split at eq
  · cases eq
    exact .number _ _
  · split at eq
    · cases eq
      exact .list (eraseIdx ha.elements _) _
    · cases eq
  · cases eq

theorem mul (ha : a.Holds Q) (hb : b.Holds Q) (eq : a.mul b = .ok v) : v.Holds Q := by
  unfold Value.mul at eq
  split at eq
  · cases eq
    exact .number _ _
  · split at eq
    · cases eq
      exact .string _ _
    · cases eq
  · cases eq
    exact .list (append ha.elements hb.elements) _
  · cases eq

theorem div (ha : a.Holds Q) (eq : a.div b = .ok v) : v.Holds Q := by
  unfold Value.div at eq
  split at eq
  · split at eq
    · cases eq
    · cases eq
      exact .number _ _
  · split at eq
    · next found =>
      cases eq
      have ⟨i, _, at_i⟩ := Option.bind_eq_some_iff.1 found
      exact ha.elements _ (List.mem_of_getElem? at_i)
    · cases eq
  · cases eq

theorem apply {op : BinaryOp} (ha : a.Holds Q) (hb : b.Holds Q) (eq : op.apply a b = .ok v) :
    v.Holds Q := by
  cases op with
  | add => exact ha.add hb eq
  | sub => exact ha.sub eq
  | mul => exact ha.mul hb eq
  | div => exact ha.div eq
  | eq | ne =>
    cases eq
    exact .number _ _
  | pow | lt | lte | gt | gte | and | or => exact onNumbers eq

theorem apply_unary {op : UnaryOp} (ha : a.Holds Q) (eq : op.apply a = .ok v) : v.Holds Q := by
  cases op with
  | plus =>
    cases eq
    exact ha
  | minus | not =>
    cases ha <;> cases eq
    exact .number _ _

theorem of_append (ha : a.Holds Q) (hb : b.Holds Q) (eq : a.append b = .ok v) : v.Holds Q := by
  unfold Value.append at eq
  split at eq
  · cases eq
    exact .list (append ha.elements (List.forall_mem_singleton.2 hb)) _
  · cases eq

theorem of_extend (ha : a.Holds Q) (hb : b.Holds Q) (eq : a.extend b = .ok v) : v.Holds Q := by
  cases hb <;> cases ha <;> cases eq
  exact .list (append ‹_› ‹_›) _

theorem of_pop {taken rest : Value} (ha : a.Holds Q) (eq : a.pop b = .ok (taken, rest)) :
    taken.Holds Q ∧ rest.Holds Q := by
  unfold Value.pop at eq
  split at eq
  · cases eq
  · split at eq
    · cases eq
    · split at eq
      · cases eq
      · next found =>
        cases eq
        exact ⟨ha.elements _ (List.mem_of_getElem? found), .list (eraseIdx ha.elements _) _⟩
  · cases eq

end Operators

end Value.Holds

def Store.Holds (Q : Function → Prop) (s : Store) : Prop :=
  ∀ scope ∈ s.scopes, ∀ b ∈ scope.bindings, b.2.Holds Q

namespace Store.Holds

variable {s : Store}

theorem globals : Store.empty.pushGlobals.Holds Q := by
  intro scope mem b held
  obtain rfl : scope = ⟨ScriptLang.globals, none⟩ := by
    simpa only [Store.pushGlobals, Store.empty, Array.mem_push, Array.not_mem_empty, false_or]
      using mem
  rcases List.mem_append.1 held with constant | builtin
  · simp only [List.mem_cons, List.not_mem_nil, or_false] at constant
    rcases constant with rfl | rfl | rfl | rfl <;> exact .number _ _
  · obtain ⟨c, -, rfl⟩ := List.mem_map.1 builtin
    exact .builtin _ _

theorem push (h : s.Holds Q) (parent : Option Nat) : (s.push parent).Holds Q := by
  intro scope mem
  rcases Array.mem_push.1 mem with old | rfl
  · exact h scope old
  · exact nofun

theorem insert {bs : List (String × Value)} (h : ∀ b ∈ bs, b.2.Holds Q) (name : String)
    {v : Value} (hv : v.Holds Q) : ∀ b ∈ Scope.insert name v bs, b.2.Holds Q := by
  induction bs with
  | nil => exact List.forall_mem_singleton.2 hv
  | cons b bs ih =>
    have ⟨first, rest⟩ := List.forall_mem_cons.1 h
    unfold Scope.insert
    split
    · exact List.forall_mem_cons.2 ⟨hv, rest⟩
    · exact List.forall_mem_cons.2 ⟨first, ih rest⟩

theorem set (h : s.Holds Q) (id : Nat) (name : String) {v : Value} (hv : v.Holds Q) :
    (s.set id name v).Holds Q := by
  intro scope mem
  have ⟨i, at_i⟩ := Array.mem_iff_getElem?.1 mem
  rw [Store.set, Array.getElem?_modify] at at_i
  split at at_i
  · have ⟨old, found, eq⟩ := Option.map_eq_some_iff.1 at_i
    subst eq
    exact insert (h old (Array.mem_of_getElem? found)) name hv
  · exact h scope (Array.mem_of_getElem? at_i)

theorem replace (h : s.Holds Q) (id : Nat) (name : String) {v : Value} (hv : v.Holds Q) :
    ((s.replace? id name v).getD s).Holds Q := by
  unfold Store.replace?
  cases s.resolve? id name with
  | none => exact h
  | some found => exact h.set found name hv

theorem lookup {bs : List (String × Value)} (h : ∀ b ∈ bs, b.2.Holds Q) {name : String}
    {v : Value} (found : bs.lookup name = some v) : v.Holds Q := by
  have ⟨before, after, split, _⟩ := List.lookup_eq_some_iff.1 found
  apply h (name, v)
  rw [split]
  exact List.mem_append_right _ (.head _)

theorem get (h : s.Holds Q) {id : Nat} {name : String} {v : Value}
    (found : s.get? id name = some v) : v.Holds Q := by
  have ⟨_, _, inner⟩ := Option.bind_eq_some_iff.1 found
  have ⟨scope, at_scope, bound⟩ := Option.bind_eq_some_iff.1 inner
  exact lookup (h scope (Array.mem_of_getElem? at_scope)) bound

end Store.Holds

end ScriptLang
