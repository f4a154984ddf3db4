import Mathlib.Logic.Relation
import ScriptLang.Proofs.WriteBack

/-! Scopes inside scopes. A name means what the nearest scope outwards binds it to. A binding made
in one scope is seen by the scopes that come to it without another binding of that name on their
way, and by no others; replacing a binding does this to the scope where the name is found. -/
namespace ScriptLang

namespace Store

/-- Stores that come from nothing by the operations on scopes. Neither looking a name up nor a
replacement that fails changes a store. -/
inductive Forest : Store → Prop where
  | empty : Forest .empty
  | root {s : Store} (before : Forest s) : Forest (s.push none)
  | child {s : Store} {id : Nat} (before : Forest s) (there : id < s.size) :
    Forest (s.push (some id))
  | set {s : Store} {id : Nat} (before : Forest s) (there : id < s.size) (name : String)
    (v : Value) : Forest (s.set id name v)
  | replace {s s' : Store} {id : Nat} {name : String} {v : Value} (before : Forest s)
    (replaced : s.replace? id name v = some s') : Forest s'

def parent? (s : Store) (id : Nat) : Option Nat := ((s.scopes[id]?).map Scope.parent).join

/-- A scope and those around it, up to one with nothing around. -/
inductive Outward (s : Store) : Nat → List Nat → Prop where
  | root {id : Nat} (there : id < s.size) (outermost : s.parent? id = none) : Outward s id [id]
  | inside {id p : Nat} {ids : List Nat} (around : s.parent? id = some p)
    (outer : Outward s p ids) : Outward s id (id :: ids)

/-- The scope `r` is come to outwards, and none before that binds the name. -/
inductive Seen (s : Store) (name : String) (r : Nat) : Nat → Prop where
  | here : Seen s name r r
  | outward {id p : Nat} (unbound : s.binds id name = false) (around : s.parent? id = some p)
    (seen : Seen s name r p) : Seen s name r id

variable {s s' : Store} {id : Nat} {name : String} {v : Value}

theorem parent?_push (s : Store) (parent : Option Nat) (id : Nat) :
    (s.push parent).parent? id = if id = s.size then parent else s.parent? id := by
  simp only [parent?, push, size, Array.getElem?_push]
  by_cases new : id = s.scopes.size <;> simp [new]

theorem SameShape.parent? (h : s.SameShape s') (id : Nat) : s'.parent? id = s.parent? id :=
  congrArg Option.join (h id)

@[simp] theorem size_push (s : Store) (parent : Option Nat) : (s.push parent).size = s.size + 1 :=
  Array.size_push ..

@[simp] theorem size_set (s : Store) (id : Nat) (name : String) (v : Value) :
    (s.set id name v).size = s.size :=
  Array.size_modify

theorem lt_size_of_parent? {p : Nat} (around : s.parent? id = some p) : id < s.size := by
  obtain ⟨scope, there, -⟩ := Option.map_eq_some_iff.1 (Option.join_eq_some_iff.1 around)
  exact (Array.getElem?_eq_some_iff.1 there).1

theorem binds_eq_false : s.binds id name = false ↔ s.bound? id name = none := by
  rw [binds_eq, Option.isSome_eq_false_iff, Option.isNone_iff_eq_none]

theorem replace?_eq_some : s.replace? id name v = some s' ↔
    ∃ r, s.resolve? id name = some r ∧ s.set r name v = s' :=
  Option.map_eq_some_iff

theorem isSome_replace? (id : Nat) (name : String) (v : Value) :
    (s.replace? id name v).isSome = (s.get? id name).isSome := by
  cases found : s.resolve? id name with
  | none => simp [replace?, Store.get?, found]
  | some r =>
    have bound := binds_of_resolve? found
    rw [binds_eq] at bound
    rw [replace?, get?_of_resolve? found, found, bound, Option.map_some, Option.isSome_some]

theorem binds_of_replace? (replaced : s.replace? id name v = some s') (t : Nat) (other : String) :
    s'.binds t other = s.binds t other := by
  obtain ⟨r, found, rfl⟩ := replace?_eq_some.1 replaced
  have bound := binds_of_resolve? found
  exact (rebound_set (lt_size_of_binds bound) name v).binds bound t other

theorem Forest.parent_lt (forest : s.Forest) {id p : Nat} (around : s.parent? id = some p) :
    p < id := by
  induction forest generalizing id p with
  | empty => cases around
  | root before ih =>
    rw [parent?_push] at around
    split at around
    · cases around
    · exact ih around
  | child before there ih =>
    rw [parent?_push] at around
    split at around
    · next new =>
      cases around
      exact new ▸ there
    · exact ih around
  | set before there name v ih =>
    rw [(rebound_set there name v).shape.parent?] at around
    exact ih around
  | replace before replaced ih =>
    obtain ⟨r, found, rfl⟩ := replace?_eq_some.1 replaced
    have there := lt_size_of_binds (binds_of_resolve? found)
    rw [(rebound_set there _ _).shape.parent?] at around
    exact ih around

theorem chainFrom_succ (s : Store) (fuel id : Nat) : s.chainFrom (fuel + 1) id =
    if id < s.size then id :: ((s.parent? id).map (s.chainFrom fuel)).getD [] else [] := by
  unfold chainFrom parent? size
  by_cases there : id < s.scopes.size
  · rw [Array.getElem?_eq_getElem there, if_pos there]
    rfl
  · rw [Array.getElem?_eq_none (Nat.le_of_not_lt there), if_neg there]

namespace Forest

variable (forest : s.Forest)
include forest

theorem chainFrom_eq {fuel : Nat} (enough : id < fuel) : s.chainFrom fuel id = s.chain id := by
  -- a scope is younger than the one around it, so it has fuel to spare for all further out
  induction id using Nat.strongRecOn generalizing fuel with
  | ind id ih =>
    obtain ⟨fuel, rfl⟩ := Nat.exists_eq_add_one_of_ne_zero (Nat.ne_zero_of_lt enough)
    rw [chain, chainFrom_succ, chainFrom_succ]
    cases around : s.parent? id with
    | none => rfl
    | some p =>
      have older := forest.parent_lt around
      simp only [Option.map_some, ih p older older,
        ih p older (Nat.lt_of_lt_of_le older (Nat.le_of_lt_succ enough))]

theorem chain_eq (id : Nat) :
    s.chain id = if id < s.size then id :: ((s.parent? id).map s.chain).getD [] else [] := by
  rw [chain, chainFrom_succ]
  cases around : s.parent? id with
  | none => rfl
  | some p => simp only [Option.map_some, forest.chainFrom_eq (forest.parent_lt around)]

theorem outward_chain (there : id < s.size) : s.Outward id (s.chain id) := by
  induction id using Nat.strongRecOn with
  | ind id ih =>
    rw [forest.chain_eq, if_pos there]
    cases around : s.parent? id with
    | none => exact .root there around
    | some p =>
      have older := forest.parent_lt around
      exact .inside around (ih p older (Nat.lt_trans older there))

theorem le_of_outward {ids : List Nat} (outward : s.Outward id ids) : ∀ j ∈ ids, j ≤ id := by
  induction outward with
  | root there outermost => simp
  | inside around outer ih =>
    have older := forest.parent_lt around
    have outside := fun j mem => Nat.le_trans (ih j mem) (Nat.le_of_lt older)
    simpa using outside

theorem nodup_of_outward {ids : List Nat} (outward : s.Outward id ids) : ids.Nodup := by
  induction outward with
  | root there outermost => simp
  | inside around outer ih =>
    have older := forest.parent_lt around
    refine List.nodup_cons.2 ⟨fun again => ?_, ih⟩
    exact Nat.not_le_of_lt older (forest.le_of_outward outer _ again)

theorem acyclic (id : Nat) : ¬ Relation.TransGen (fun i p => s.parent? i = some p) id id := by
  have older {j : Nat} (h : Relation.TransGen (fun i p => s.parent? i = some p) id j) : j < id := by
    induction h with
    | single around => exact forest.parent_lt around
    | tail _ around ih => exact Nat.lt_trans (forest.parent_lt around) ih
  exact fun loop => Nat.lt_irrefl id (older loop)

theorem resolve?_eq (id : Nat) (name : String) : s.resolve? id name =
    if s.binds id name then some id else (s.parent? id).bind (s.resolve? · name) := by
  have step : s.resolve? id name =
      if id < s.size then
        if s.binds id name then some id else (s.parent? id).bind (s.resolve? · name)
      else none := by
    rw [resolve?, forest.chain_eq]
    split
    · rw [List.find?_cons]
      cases s.binds id name with
      | true => rfl
      | false => cases s.parent? id <;> rfl
    · rfl
  rw [step]
  split
  · rfl
  · next absent =>
    have unbound : s.binds id name = false :=
      Bool.eq_false_iff.2 fun bound => absent (lt_size_of_binds bound)
    have outermost : s.parent? id = none :=
      Option.eq_none_iff_forall_ne_some.2 fun p around => absent (lt_size_of_parent? around)
    simp [unbound, outermost]

theorem resolve?_eq_some {r : Nat} :
    s.resolve? id name = some r ↔ s.Seen name r id ∧ s.binds r name = true := by
  constructor
  · intro found
    refine ⟨?_, binds_of_resolve? found⟩
    induction id using Nat.strongRecOn with
    | ind id ih =>
      rw [forest.resolve?_eq] at found
      split at found
      · cases found
        exact .here
      · next unbound =>
        obtain ⟨p, around, outside⟩ := Option.bind_eq_some_iff.1 found
        exact .outward (Bool.eq_false_iff.2 unbound) around
          (ih p (forest.parent_lt around) outside)
  · rintro ⟨seen, bound⟩
    induction seen with
    | here => rw [forest.resolve?_eq, if_pos bound]
    | outward unbound around seen ih =>
      rw [forest.resolve?_eq, unbound, around]
      exact ih

theorem get?_eq (id : Nat) (name : String) :
    s.get? id name = (s.bound? id name).or ((s.parent? id).bind (s.get? · name)) := by
  have value (id : Nat) : s.get? id name = (s.resolve? id name).bind (s.bound? · name) := rfl
  rw [value, forest.resolve?_eq, binds_eq]
  cases bound : s.bound? id name with
  | some v => simp [bound]
  | none =>
    cases s.parent? id with
    | none => rfl
    | some p => simp [value]

theorem get?_eq_some {w : Value} :
    s.get? id name = some w ↔ ∃ r, s.Seen name r id ∧ s.bound? r name = some w := by
  constructor
  · intro got
    obtain ⟨r, found, bound⟩ := Option.bind_eq_some_iff.1 got
    exact ⟨r, (forest.resolve?_eq_some.1 found).1, bound⟩
  · rintro ⟨r, seen, bound⟩
    have binds : s.binds r name = true := by rw [binds_eq, bound, Option.isSome_some]
    rw [get?_of_resolve? (forest.resolve?_eq_some.2 ⟨seen, binds⟩), bound]

theorem get?_set_of_seen (there : id < s.size) (v : Value) {t : Nat} (seen : s.Seen name id t) :
    (s.set id name v).get? t name = some v := by
  have rebound := rebound_set there name v
  have forest' := forest.set there name v
  induction seen with
  | here => rw [forest'.get?_eq, rebound.bound, if_pos ⟨rfl, rfl⟩, Option.some_or]
  | @outward t p unbound around seen ih =>
    rw [forest'.get?_eq, rebound.bound, rebound.shape.parent?]
    by_cases same : t = id
    · rw [if_pos ⟨same, rfl⟩, Option.some_or]
    · rw [if_neg fun both => same both.1, binds_eq_false.1 unbound, around]
      exact ih

theorem get?_set_of_not_seen (there : id < s.size) (v : Value) {t : Nat} {other : String}
    (hidden : ¬ (other = name ∧ s.Seen name id t)) :
    (s.set id name v).get? t other = s.get? t other := by
  have rebound := rebound_set there name v
  have forest' := forest.set there name v
  induction t using Nat.strongRecOn with
  | ind t ih =>
    -- the binding is not the one that is written, so it is what it was; without one, go on outwards
    have elsewhere : ¬ (t = id ∧ other = name) := fun both => hidden ⟨both.2, both.1 ▸ .here⟩
    rw [forest'.get?_eq, forest.get?_eq, rebound.bound, if_neg elsewhere, rebound.shape.parent?]
    cases bound : s.bound? t other with
    | some w => rfl
    | none =>
      cases around : s.parent? t with
      | none => rfl
      | some p =>
        refine ih p (forest.parent_lt around) fun both => hidden ⟨both.1, ?_⟩
        exact .outward (binds_eq_false.2 (both.1 ▸ bound)) around both.2

theorem get?_of_replace? (replaced : s.replace? id name v = some s') (t : Nat) (other : String) :
    s'.get? t other =
      if other = name ∧ s.resolve? t name = s.resolve? id name then some v else s.get? t other := by
  obtain ⟨r, found, rfl⟩ := replace?_eq_some.1 replaced
  have bound := binds_of_resolve? found
  have same : s.resolve? t name = s.resolve? id name ↔ s.Seen name r t := by
    rw [found, forest.resolve?_eq_some, and_iff_left bound]
  split
  · next both =>
    obtain ⟨rfl, nearest⟩ := both
    exact forest.get?_set_of_seen (lt_size_of_binds bound) v (same.1 nearest)
  · next elsewhere =>
    exact forest.get?_set_of_not_seen (lt_size_of_binds bound) v fun both =>
      elsewhere ⟨both.1, same.2 both.2⟩

end Forest

theorem set_push (s : Store) (bs : List (String × Value)) (name : String) (v : Value) :
    (⟨s.scopes.push ⟨bs, none⟩⟩ : Store).set s.size name v =
      ⟨s.scopes.push ⟨Scope.insert name v bs, none⟩⟩ := by
  have modified : (s.scopes.push ⟨bs, none⟩).modify s.scopes.size (·.set name v) =
      s.scopes.push ⟨Scope.insert name v bs, none⟩ := by
    refine Array.ext_getElem? fun i => ?_
    simp only [Array.getElem?_modify, Array.getElem?_push]
    by_cases new : i = s.scopes.size
    · simp [new, Scope.set]
    · simp [new, Ne.symm new]
  exact congrArg Store.mk modified

def install (s : Store) (id : Nat) (bs : List (String × Value)) : Store :=
  bs.foldl (fun s' b => s'.set id b.1 b.2) s

theorem install_push (s : Store) (bs acc : List (String × Value)) :
    (⟨s.scopes.push ⟨acc, none⟩⟩ : Store).install s.size bs =
      ⟨s.scopes.push ⟨bs.foldl (fun acc b => Scope.insert b.1 b.2 acc) acc, none⟩⟩ := by
  induction bs generalizing acc with
  | nil => rfl
  | cons b bs ih =>
    rw [List.foldl_cons, ← ih, ← set_push]
    rfl

theorem pushGlobals_eq (s : Store) : s.pushGlobals = (s.push none).install s.size globals :=
  (install_push s globals []).symm

theorem Forest.install (forest : s.Forest) (there : id < s.size) (bs : List (String × Value)) :
    (s.install id bs).Forest := by
  induction bs generalizing s with
  | nil => exact forest
  | cons b bs ih => exact ih (forest.set there b.1 b.2) (by simpa using there)

theorem Forest.pushGlobals (forest : s.Forest) : s.pushGlobals.Forest := by
  rw [pushGlobals_eq]
  exact forest.root.install (by simp) globals

/-- In a store made by the operations on scopes: the way out of every scope ends, and comes nowhere
twice. A name is looked up in the nearest scope that binds it. A name that can be looked up can be
replaced, and then has the new value wherever it was found in the same place; nothing else changes,
and no scope has more or fewer names. Other names cannot be replaced. What a scope itself is given
is seen from where the scope is come to without another binding of the name before. -/
theorem Forest.resolves_outward (forest : s.Forest) :
    (∀ id < s.size, s.Outward id (s.chain id) ∧ (s.chain id).Nodup) ∧
    (∀ id, ¬ Relation.TransGen (fun i p => s.parent? i = some p) id id) ∧
    (∀ id name r, s.resolve? id name = some r ↔ s.Seen name r id ∧ s.binds r name = true) ∧
    (∀ id name w, s.get? id name = some w ↔
      ∃ r, s.Seen name r id ∧ s.bound? r name = some w) ∧
    (∀ id name v, (s.replace? id name v).isSome = (s.get? id name).isSome) ∧
    (∀ id name v s', s.replace? id name v = some s' →
      (∀ t other, s'.get? t other =
        if other = name ∧ s.resolve? t name = s.resolve? id name then some v
        else s.get? t other) ∧
      ∀ t other, s'.binds t other = s.binds t other) ∧
    (∀ id name v, s.get? id name = none → (s.replace? id name v).getD s = s) ∧
    ∀ id < s.size, ∀ name v t,
      (s.Seen name id t → (s.set id name v).get? t name = some v) ∧
      ∀ other, ¬ (other = name ∧ s.Seen name id t) →
        (s.set id name v).get? t other = s.get? t other := by
  refine ⟨fun id there => ?_, forest.acyclic, fun id name r => forest.resolve?_eq_some,
    fun id name w => forest.get?_eq_some, isSome_replace?, fun id name v s' replaced => ?_,
    fun id name v absent => ?_, fun id there name v t => ?_⟩
  · have outward := forest.outward_chain there
    exact ⟨outward, forest.nodup_of_outward outward⟩
  · exact ⟨forest.get?_of_replace? replaced, binds_of_replace? replaced⟩
  · have failed : (s.replace? id name v).isSome = false := by rw [isSome_replace?, absent]; rfl
    rw [Option.isNone_iff_eq_none.1 (Option.isSome_eq_false_iff.1 failed), Option.getD_none]
  · exact ⟨forest.get?_set_of_seen there v, fun other => forest.get?_set_of_not_seen there v⟩

/-- Two scopes of the global one bind nothing themselves; the scope around the first hides what the
second sees. -/
theorem Forest.resolves_outward_shadowed : ∃ s : Store, s.Forest ∧ s.chain 2 = [2, 1, 0] ∧
    s.chain 3 = [3, 0] ∧ (∃ s', s.replace? 2 "x" (.int 5) = some s' ∧
      s'.get? 1 "x" = some (.int 5) ∧ s'.get? 3 "x" = some (.int 1)) ∧
    (s.set 0 "x" .null).get? 3 "x" = some .null ∧ (s.replace? 3 "y" .null).getD s = s := by
  let s₀ : Store := Store.empty.pushGlobals.set 0 "x" (.int 1)
  let s : Store := (((s₀.push (some 0)).push (some 1)).push (some 0)).set 1 "x" (.int 2)
  have forest : s.Forest :=
    ((((empty.pushGlobals.set (by decide) _ _).child (by decide)).child (by decide)).child
      (by decide)).set (by decide) _ _
  obtain ⟨-, -, -, -, -, replaced, missing, set⟩ := forest.resolves_outward
  have seen : s.Seen "x" 0 3 := .outward (by decide +kernel) rfl .here
  refine ⟨s, forest, by decide +kernel, by decide +kernel, ⟨_, rfl, ?_, ?_⟩,
    (set 0 (by decide) "x" .null 3).1 seen, missing 3 "y" .null rfl⟩
  · rw [(replaced 2 "x" _ _ rfl).1, if_pos (by decide +kernel)]
  · rw [(replaced 2 "x" _ _ rfl).1, if_neg (by decide +kernel)]
    rfl

end Store
end ScriptLang
