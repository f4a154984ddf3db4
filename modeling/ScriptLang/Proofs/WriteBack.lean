import ScriptLang.Host.Memory
import ScriptLang.Proofs.ListFunction
import ScriptLang.Proofs.ScopeFrame

/-! Writing back. `APPEND`, `EXTEND` and `POP` work on a copy of a list; the changed copy becomes
the value of the variable that the list was read from, in the nearest scope that binds it, and
nothing else is bound to anything else by the call. -/
namespace ScriptLang

variable {σ : Type}

open Eval

/-- What a function makes of the list `first`, with `result` as the value of its call. -/
inductive Builtin.Changes : Builtin → (first second result changed : Value) → Prop where
  | append (vs : List Value) (t : Stamp) (v : Value) :
    Changes .append (.list vs t) v .null (.list (vs ++ [v]) t)
  | extend (vs ws : List Value) (t u : Stamp) :
    Changes .extend (.list vs t) (.list ws u) .null (.list (vs ++ ws) t)
  | pop {vs : List Value} {n taken : Value} {i : Nat} (t : Stamp)
    (named : n.toIndex vs.length = some i) (there : vs[i]? = some taken) :
    Changes .pop (.list vs t) n taken (.list (vs.eraseIdx i) t)

theorem Value.eq_list_of_bare {v : Value} {vs : List Value} {t : Stamp}
    (same : v.bare = (list vs t).bare) :
    ∃ vs' t', v = list vs' t' ∧ vs'.map bare = vs.map bare := by
  cases v with
  | list vs' t' => exact ⟨vs', t', rfl, by simpa using same⟩
  | number | string | function | builtin => simp at same

theorem Builtin.Changes.of_bare {b : Builtin} {v v' u r w : Value} (h : b.Changes v u r w)
    (same : v'.bare = v.bare) : ∃ r' w', b.Changes v' u r' w' ∧ w'.bare = w.bare := by
  cases h with
  | append vs t =>
    obtain ⟨vs', t', rfl, elements⟩ := Value.eq_list_of_bare same
    exact ⟨_, _, .append vs' t' u, by simp [elements]⟩
  | extend vs ws t u =>
    obtain ⟨vs', t', rfl, elements⟩ := Value.eq_list_of_bare same
    exact ⟨_, _, .extend vs' ws t' u, by simp [elements]⟩
  | pop t named there =>
    obtain ⟨vs', t', rfl, elements⟩ := Value.eq_list_of_bare same
    have length := congrArg List.length elements
    rw [List.length_map, List.length_map] at length
    rw [← length] at named
    have there' := List.getElem?_eq_getElem (Value.toIndex_lt named)
    refine ⟨_, _, .pop t' named there', ?_⟩
    rw [Value.bare_list, Value.bare_list, ← List.eraseIdx_map, ← List.eraseIdx_map, elements]

theorem execute_mutating {b : Builtin} (mutating : b.mutates = true) (fuel : Nat)
    (self : Evaluator σ) (v₀ v₁ : Value) (site : Span) (frame : Frame)
    (m : Machine σ) :
    (∃ r w, b.Changes v₀ v₁ r w ∧
      execute fuel self b [v₀, v₁] site frame m = .done (r, some w) m) ∨
    ∃ fault, (∀ r w, ¬ b.Changes v₀ v₁ r w) ∧
      execute fuel self b [v₀, v₁] site frame m = fail fault site frame m := by
  cases b with
  | append =>
    cases v₀ with
    | list vs t => exact .inl ⟨_, _, .append vs t v₁, rfl⟩
    | number | string | function | builtin => exact .inr ⟨_, nofun, rfl⟩
  | extend =>
    cases v₁ with
    | list ws u =>
      cases v₀ with
      | list vs t => exact .inl ⟨_, _, .extend vs ws t u, rfl⟩
      | number | string | function | builtin => exact .inr ⟨_, nofun, rfl⟩
    | number | string | function | builtin => exact .inr ⟨_, nofun, rfl⟩
  | pop =>
    rw [execute_pop]
    cases v₀ with
    | list vs t =>
      cases named : v₁.toIndex vs.length with
      | some i =>
        have within := Value.toIndex_lt named
        rw [Value.pop_of_toIndex named within]
        exact .inl ⟨_, _, .pop t named (List.getElem?_eq_getElem within), rfl⟩
      | none =>
        obtain ⟨⟨fault, popped⟩, -⟩ := Value.errors_of_toIndex_eq_none (t := t) named
        rw [popped]
        refine .inr ⟨fault, fun r w changes => ?_, rfl⟩
        cases changes with
        | pop t found there => simp [named] at found
    | number | string | function | builtin =>
      refine .inr ?_
      cases v₁ <;> exact ⟨_, nofun, rfl⟩
  | _ => cases mutating

namespace Store

def bound? (s : Store) (id : Nat) (name : String) : Option Value :=
  (s.scopes[id]?).bind (·.get? name)

def SameShape (s s' : Store) : Prop :=
  ∀ id : Nat, (s'.scopes[id]?).map Scope.parent = (s.scopes[id]?).map Scope.parent

/-- The same scopes with the same bindings, but for the one of `x` in the scope `id`. -/
structure Rebound (s : Store) (id : Nat) (x : String) (w : Value) (s' : Store) : Prop where
  shape : s.SameShape s'
  bound : ∀ j y, s'.bound? j y = if j = id ∧ y = x then some w else s.bound? j y

variable {s s' : Store} {id : Nat} {x : String} {w : Value}

theorem binds_eq (s : Store) (id : Nat) (x : String) : s.binds id x = (s.bound? id x).isSome := by
  unfold binds bound?
  cases s.scopes[id]? <;> rfl

theorem binds_of_resolve? {start : Nat} (found : s.resolve? start x = some id) :
    s.binds id x = true :=
  List.find?_some (p := (s.binds · x)) found

theorem lt_size_of_binds (bound : s.binds id x = true) : id < s.size := by
  obtain ⟨scope, there, -⟩ := (Option.any_eq_true _ _).1 bound
  exact (Array.getElem?_eq_some_iff.1 there).1

theorem rebound_set (there : id < s.size) (x : String) (w : Value) :
    s.Rebound id x w (s.set id x w) := by
  constructor
  · intro j
    rw [ScopesKept.scopes_set]
    split
    · rw [Option.map_map]
      rfl
    · rfl
  · intro j y
    unfold bound?
    rw [ScopesKept.scopes_set]
    by_cases here : id = j
    · subst here
      rw [Array.getElem?_eq_getElem there]
      by_cases same : y = x
      · subst same
        simp [Scope.get?_set_self]
      · simp [Scope.get?_set_ne, same]
    · simp [here, Ne.symm here]

theorem SameShape.chainFrom (h : s.SameShape s') (fuel id : Nat) :
    s'.chainFrom fuel id = s.chainFrom fuel id := by
  induction fuel generalizing id with
  | zero => rfl
  | succ fuel ih =>
    have here := h id
    have rest : s'.chainFrom fuel = s.chainFrom fuel := funext ih
    unfold Store.chainFrom
    rw [rest]
    cases left : s'.scopes[id]? <;> cases right : s.scopes[id]? <;> simp_all

theorem Rebound.binds (h : s.Rebound id x w s') (bound : s.binds id x = true) (j : Nat)
    (y : String) : s'.binds j y = s.binds j y := by
  rw [binds_eq, binds_eq, h.bound]
  split
  · next same =>
    obtain ⟨rfl, rfl⟩ := same
    rw [← binds_eq, bound, Option.isSome_some]
  · rfl

theorem get?_of_resolve? {start : Nat} (found : s.resolve? start x = some id) :
    s.get? start x = s.bound? id x := by
  unfold Store.get?
  rw [found]
  rfl

theorem Rebound.get? (h : s.Rebound id x w s') {start : Nat}
    (found : s.resolve? start x = some id) : s'.get? start x = some w := by
  have still : s'.resolve? start x = some id := by
    unfold resolve? chain at found ⊢
    rw [h.shape.chainFrom, ← found]
    congr 1
    funext j
    exact h.binds (binds_of_resolve? found) j x
  rw [get?_of_resolve? still, h.bound, if_pos ⟨rfl, rfl⟩]

theorem mem_chainFrom (kept : ∀ (id : Nat) scope, s.scopes[id]? = some scope →
      ∃ scope', s'.scopes[id]? = some scope' ∧ scope'.parent = scope.parent)
    {fuel start id : Nat} (mem : id ∈ s.chainFrom fuel start) : id ∈ s'.chainFrom fuel start := by
  induction fuel generalizing start with
  | zero => cases mem
  | succ fuel ih =>
    unfold chainFrom at mem ⊢
    cases there : s.scopes[start]? with
    | none => simp [there] at mem
    | some scope =>
      obtain ⟨scope', there', same⟩ := kept start scope there
      rw [there, List.mem_cons] at mem
      rw [there', List.mem_cons, same]
      refine mem.imp_right fun outer => ?_
      cases parent : scope.parent with
      | none => simp [parent] at outer
      | some p =>
        rw [parent] at outer
        exact ih outer

end Store

theorem ScopesKept.resolve? {own start id : Nat} {new : List Written}
    {m m' : Machine (σ × List Written)} {x : String} (kept : ScopesKept own new m m')
    (found : m.store.resolve? start x = some id) :
    ∃ id', m'.store.resolve? start x = some id' := by
  have around : id ∈ m'.store.chain start := by
    refine Store.mem_chainFrom (fun j scope there => ?_) (List.mem_of_find?_eq_some found)
    obtain ⟨scope', there', same, -⟩ := kept.scopes j scope there
    exact ⟨scope', there', same.parent⟩
  have bound : m'.store.binds id x = true := by
    have before := Store.binds_of_resolve? found
    unfold Store.binds at before ⊢
    obtain ⟨scope, there, named⟩ := (Option.any_eq_true _ _).1 before
    obtain ⟨scope', there', same, -⟩ := kept.scopes id scope there
    rw [there', Option.any_some]
    exact same.binds x named
  exact Option.isSome_iff_exists.1 (List.find?_isSome.2 ⟨id, around, bound⟩)

section Calls

variable {limit fuel : Nat} {self : Evaluator σ} {b : Builtin}

theorem callBuiltin_mutating (mutating : b.mutates = true) (callee v₀ v₁ : Value)
    (nodes : List Tree) (site : Span) (caller : Frame) (m : Machine σ) :
    (∃ e m',
      callBuiltin limit fuel self b callee [v₀, v₁] nodes site caller m = .exit (.failed e) m' ∧
      m'.store = m.store ∧ (limit ≤ m.depth ∨ ∀ r w, ¬ b.Changes v₀ v₁ r w)) ∨
    ∃ r w m', callBuiltin limit fuel self b callee [v₀, v₁] nodes site caller m = .done r m' ∧
      b.Changes v₀ v₁ r w ∧
      m'.store = ((target? nodes).bind (m.store.replace? caller.scope · w)).getD m.store := by
  have two : b.params.length = 2 := by cases b <;> first | rfl | cases mutating
  have checked : checkCall limit callee b.params.length [v₀, v₁].length site caller m =
      if limit ≤ m.depth then .exit (.failed (.recursion limit site caller)) m else .done () m := by
    unfold checkCall
    rw [two]
    rfl
  simp only [callBuiltin, bind, Eval.bind, checked]
  by_cases full : limit ≤ m.depth
  · rw [if_pos full]
    exact .inl ⟨_, _, rfl, rfl, .inl full⟩
  · rw [if_neg full]
    simp only [plainFrame, nested]
    rcases execute_mutating mutating fuel self v₀ v₁ site
        (.call m.frames b.name caller.scope site caller)
        { m with depth := m.depth + 1, frames := m.frames + 1 } with
      ⟨r, w, changes, ran⟩ | ⟨fault, none, ran⟩
    · rw [ran]
      refine .inr ⟨r, w, ?_⟩
      cases target? nodes with
      | none => exact ⟨_, rfl, changes, rfl⟩
      | some name => exact ⟨_, rfl, changes, rfl⟩
    · rw [ran]
      exact .inl ⟨_, _, rfl, rfl, .inr none⟩

theorem eval_call_builtin {fuel : Nat} {callee : Tree} {args : List Tree} {mark : Mark}
    {frame : Frame} {m m₁ m₂ : Machine σ} {t : Stamp} {values : List Value}
    (called : eval limit fuel callee frame m = .done (.builtin b t) m₁)
    (given : evalAll (evaluate limit fuel) frame args m₁ = .done values m₂) :
    eval limit (fuel + 1) (.call callee args mark) frame m =
      Eval.bind (callBuiltin limit fuel (evaluate limit fuel) b
        ((Value.builtin b t).place mark.span frame) values args mark.span frame) (fun v => pure (v.place mark.span frame)) m₂ := by
  rw [eval_succ]
  change evalCall limit fuel (evaluate limit fuel) callee args mark.span frame m = _
  unfold evalCall
  simp only [bind, Eval.bind, show unwind _ m = _ from called, given]
  rfl

theorem eval_call_mutating {fuel : Nat} {callee first second : Tree} {frame : Frame}
    {m m₁ m₂ : Machine σ} {t : Stamp} {v₀ v₁ : Value} (mutating : b.mutates = true)
    (called : eval limit fuel callee frame m = .done (.builtin b t) m₁)
    (given : evalAll (evaluate limit fuel) frame [first, second] m₁ = .done [v₀, v₁] m₂)
    (mark : Mark) :
    (∃ e m', eval limit (fuel + 1) (.call callee [first, second] mark) frame m =
        .exit (.failed e) m' ∧ m'.store = m₂.store ∧
        (limit ≤ m₂.depth ∨ ∀ r w, ¬ b.Changes v₀ v₁ r w)) ∨
      ∃ r w m', eval limit (fuel + 1) (.call callee [first, second] mark) frame m =
          .done (r.place mark.span frame) m' ∧ b.Changes v₀ v₁ r w ∧
        m'.store = ((target? [first, second]).bind (m₂.store.replace? frame.scope · w)).getD
          m₂.store := by
  rw [eval_call_builtin called given, Eval.bind]
  rcases callBuiltin_mutating mutating ((Value.builtin b t).place mark.span frame) v₀ v₁
      [first, second] mark.span frame m₂ with
    ⟨e, m', ran, same, why⟩ | ⟨r, w, m', ran, changes, store⟩
  · rw [ran]
    exact .inl ⟨e, m', rfl, same, why⟩
  · rw [ran]
    exact .inr ⟨r, w, m', rfl, changes, store⟩

theorem evalAll_of_call {fuel : Nat} {callee : Tree} {args : List Tree} {mark : Mark}
    {frame : Frame} {m m₁ m' : Machine σ} {f r : Value}
    (called : eval limit fuel callee frame m = .done f m₁)
    (ran : eval limit (fuel + 1) (.call callee args mark) frame m = .done r m') :
    ∃ values m₂, evalAll (evaluate limit fuel) frame args m₁ = .done values m₂ := by
  rw [eval_succ] at ran
  change evalCall limit fuel (evaluate limit fuel) callee args mark.span frame m = .done r m' at ran
  rw [evalCall, bind_eq_done] at ran
  obtain ⟨f', m₁', called', rest⟩ := ran
  rw [show unwind _ m = _ from called] at called'
  cases called'
  obtain ⟨values, m₂, given, -⟩ := bind_eq_done.1 rest
  exact ⟨values, m₂, given⟩

theorem eval_access {fuel : Nat} {x : String} {mark : Mark} {frame : Frame} {m m' : Machine σ}
    {v : Value} (h : eval limit fuel (.access x mark) frame m = .done v m') :
    m' = m ∧ ∃ old, m.store.get? frame.scope x = some old ∧ v = old.place mark.span frame := by
  cases fuel with
  | zero => cases h
  | succ fuel =>
    rw [eval_succ] at h
    simp only [evalNode, bind, Eval.bind, lookup] at h
    cases held : m.store.get? frame.scope x with
    | none =>
      rw [held] at h
      cases h
    | some old =>
      rw [held] at h
      cases h
      exact ⟨rfl, old, rfl, rfl⟩

theorem evalAll_pair {first second : Tree} {frame : Frame} {m m₂ : Machine σ} {values : List Value}
    (h : evalAll self frame [first, second] m = .done values m₂) :
    ∃ v₀ v₁ m₁, values = [v₀, v₁] ∧ unwind (self first frame) m = .done v₀ m₁ ∧
      unwind (self second frame) m₁ = .done v₁ m₂ := by
  simp only [evalAll, bind_eq_done, pure_eq_done] at h
  obtain ⟨v₀, m₁, one, _, _, ⟨v₁, _, two, _, _, ⟨rfl, rfl⟩, rfl, rfl⟩, rfl, rfl⟩ := h
  exact ⟨v₀, v₁, m₁, rfl, one, two⟩

theorem rebound_of_replace? {fuel : Nat} {x : String} {place : Mark} {second : Tree}
    {frame : Frame} {m m₁ m₂ m' : Machine σ} {v₀ v₁ w : Value}
    (first : eval limit fuel (.access x place) frame m = .done v₀ m₁)
    (last : eval limit fuel second frame m₁ = .done v₁ m₂)
    (store : m'.store = (m₂.store.replace? frame.scope x w).getD m₂.store) :
    ∃ id, m₂.store.resolve? frame.scope x = some id ∧ m₂.store.Rebound id x w m'.store := by
  obtain ⟨rfl, old, held, -⟩ := eval_access first
  obtain ⟨id, found, -⟩ := Option.bind_eq_some_iff.1 held
  obtain ⟨written, -, -, kept⟩ := ScopesKept.eval limit fuel second frame m₁
  rw [last] at kept
  obtain ⟨id', found'⟩ : ∃ id', m₂.store.resolve? frame.scope x = some id' := kept.resolve? found
  refine ⟨id', found', ?_⟩
  rw [store, Store.replace?, found', Option.map_some, Option.getD_some]
  exact Store.rebound_set (Store.lt_size_of_binds (Store.binds_of_resolve? found')) x w

end Calls

/-- However a call of `APPEND`, `EXTEND` or `POP` with two arguments ends, from the machine `m₂`
that these left: it fails and every scope binds what it did, or one binding may be another, that
of the variable which the first argument is, in the nearest scope that binds it. -/
theorem mutation_rebinds_only_variable {limit fuel : Nat} {b : Builtin}
    {callee first second : Tree} {frame : Frame} {m m₁ m₂ : Machine σ} {t : Stamp} {v₀ v₁ : Value}
    (mutating : b.mutates = true)
    (called : eval limit fuel callee frame m = .done (.builtin b t) m₁)
    (given : evalAll (evaluate limit fuel) frame [first, second] m₁ = .done [v₀, v₁] m₂)
    (mark : Mark) :
    (∃ e m', eval limit (fuel + 1) (.call callee [first, second] mark) frame m =
        .exit (.failed e) m' ∧ m'.store = m₂.store ∧
        (limit ≤ m₂.depth ∨ ∀ r w, ¬ b.Changes v₀ v₁ r w)) ∨
      ∃ r w m', eval limit (fuel + 1) (.call callee [first, second] mark) frame m =
          .done (r.place mark.span frame) m' ∧ b.Changes v₀ v₁ r w ∧
        (∀ x place, first = .access x place →
          ∃ id, m₂.store.resolve? frame.scope x = some id ∧ m₂.store.Rebound id x w m'.store) ∧
        ((∀ x place, first ≠ .access x place) → m'.store = m₂.store) := by
  rcases eval_call_mutating mutating called given mark with
    failed | ⟨r, w, m', ran, changes, store⟩
  · exact .inl failed
  · refine .inr ⟨r, w, m', ran, changes, ?_, ?_⟩
    · rintro x place rfl
      obtain ⟨_, _, m₃, ⟨⟩, one, two⟩ := evalAll_pair given
      exact rebound_of_replace? one two store
    · intro other
      have plain : target? [first, second] = none := by
        cases first <;> first | rfl | exact absurd rfl (other _ _)
      simpa [plain] using store

/-- `POP(x, -1)` in a function; `x` and `y` are outside of it and hold the same list. -/
theorem mutation_rebinds_only_variable_outer :
    ∃ (mark : Mark) (frame : Frame) (m m' : Machine Memory)
    (r : Value) (vs : List Value), frame.scope = 1 ∧ m.store.bound? 1 "x" = none ∧
    m.store.bound? 0 "x" = some (.list vs .none) ∧ m.store.bound? 0 "y" = some (.list vs .none) ∧
    eval 10 2 (.call (.access "POP" mark) [.access "x" mark, .number (.int (-1)) mark] mark) frame
      m = .done r m' ∧
    (m'.store.bound? 0 "x").map Value.bare = some (.list [.int 1] .none) ∧
    m'.store.bound? 0 "y" = some (.list vs .none) := by
  let mark : Mark := ⟨⟨⟨"<stdin>", ""⟩, .origin, .origin⟩, 0⟩
  let vs : List Value := [.int 1, .int 2]
  let m : Machine Memory := ⟨⟨#[⟨[("x", .list vs .none), ("y", .list vs .none),
    ("POP", .builtin .pop .none)], none⟩, ⟨[], some 0⟩]⟩, .memory [] [], 0, 0⟩
  let frame : Frame := .root 0 programName 1
  have called : eval 10 1 (.access "POP" mark) frame m =
      .done (.builtin .pop ⟨some mark.span, some frame⟩) m := rfl
  have given : evalAll (evaluate 10 1) frame [.access "x" mark, .number (.int (-1)) mark] m =
      .done [(Value.list vs .none).place mark.span frame, (Value.int (-1)).place mark.span frame]
        m := rfl
  rcases mutation_rebinds_only_variable rfl called given mark with
    ⟨e, m', ran, -⟩ | ⟨r, w, m', ran, changes, rebinds, -⟩
  · cases ran
  · obtain ⟨id, found, rebound⟩ := rebinds "x" mark rfl
    cases found
    refine ⟨mark, frame, m, m', _, vs, rfl, rfl, rfl, rfl, ran, ?_, ?_⟩
    · rw [rebound.bound]
      cases changes with
      | pop t named there =>
        cases named
        rfl
    · rw [rebound.bound]
      rfl

/-- What a variable holds after a call of `APPEND`, `EXTEND` or `POP` on it that succeeds: the
list it held when the first argument was evaluated, changed by the function. Up to places and
frames that is the list it held when the function began, unless the second argument changed it;
what the second argument did to other bindings stays. -/
theorem variable_holds_changed_copy {limit fuel : Nat} {b : Builtin} {callee second : Tree}
    {x : String} {place mark : Mark} {frame : Frame} {m m₁ m' : Machine σ} {t : Stamp} {r : Value}
    (mutating : b.mutates = true)
    (called : eval limit fuel callee frame m = .done (.builtin b t) m₁)
    (succeeded : eval limit (fuel + 1) (.call callee [.access x place, second] mark) frame m =
      .done r m') :
    ∃ old v₁ m₂ taken w now id, m₁.store.get? frame.scope x = some old ∧
      eval limit fuel second frame m₁ = .done v₁ m₂ ∧
      b.Changes (old.place place.span frame) v₁ taken w ∧ r = taken.place mark.span frame ∧
      m'.store.get? frame.scope x = some w ∧
      m₂.store.get? frame.scope x = some now ∧
      (now.bare = old.bare → ∃ taken' w', b.Changes now v₁ taken' w' ∧ w'.bare = w.bare) ∧
      m₂.store.resolve? frame.scope x = some id ∧
      ∀ j y, ¬ (j = id ∧ y = x) → m'.store.bound? j y = m₂.store.bound? j y := by
  obtain ⟨values, m₂, given⟩ := evalAll_of_call called succeeded
  obtain ⟨v₀, v₁, m₃, rfl, one, two⟩ := evalAll_pair given
  rcases eval_call_mutating mutating called given mark with
    ⟨e, m'', failed, -⟩ | ⟨taken, w, m'', ran, changes, store⟩
  · rw [failed] at succeeded
    cases succeeded
  · rw [ran] at succeeded
    cases succeeded
    obtain ⟨id, found, rebound⟩ := rebound_of_replace? one two store
    obtain ⟨rfl, old, held, rfl⟩ := eval_access one
    obtain ⟨now, current⟩ : ∃ now, m₂.store.get? frame.scope x = some now := by
      rw [← Option.isSome_iff_exists, Store.get?_of_resolve? found, ← Store.binds_eq]
      exact Store.binds_of_resolve? found
    refine ⟨old, v₁, m₂, taken, w, now, id, held, two, changes, rfl, rebound.get? found, current,
      fun same => ?_, found, fun j y other => ?_⟩
    · exact changes.of_bare (by simpa using same)
    · rw [rebound.bound, if_neg other]

/-- `APPEND(x, APPEND(x, 1))`, where `x` is an empty list: afterwards `x` holds one element. -/
theorem variable_holds_changed_copy_nested : ∃ (mark : Mark) (frame : Frame) (m m' : Machine Memory)
    (r : Value), m.store.get? frame.scope "x" = some (.list [] .none) ∧
    eval 10 3 (.call (.access "APPEND" mark) [.access "x" mark, .call (.access "APPEND" mark)
      [.access "x" mark, .number (.int 1) mark] mark] mark) frame m = .done r m' ∧
    (m'.store.get? frame.scope "x").map Value.bare = some (.list [.null] .none) := by
  let mark : Mark := ⟨⟨⟨"<stdin>", ""⟩, .origin, .origin⟩, 0⟩
  let frame : Frame := .root 0 programName globalScope
  let m : Machine Memory :=
    ⟨⟨#[⟨[("x", .list [] .none), ("APPEND", .builtin .append .none)], none⟩]⟩,
    .memory [] [], 0, 0⟩
  have called : eval 10 2 (.access "APPEND" mark) frame m =
      .done (.builtin .append ⟨some mark.span, some frame⟩) m := rfl
  obtain ⟨r, m', ran⟩ : ∃ r m', eval 10 3 (.call (.access "APPEND" mark) [.access "x" mark,
      .call (.access "APPEND" mark) [.access "x" mark, .number (.int 1) mark] mark] mark) frame m =
        .done r m' := ⟨_, _, rfl⟩
  obtain ⟨old, v₁, m₂, taken, w, now, id, held, two, changes, -, holds, -⟩ :=
    variable_holds_changed_copy rfl called ran
  cases held
  cases two
  cases changes
  refine ⟨mark, frame, m, m', r, rfl, ran, ?_⟩
  rw [holds]
  rfl

/-- `APPEND(x, APPEND(x, 1))`, where `x` is an empty list. -/
theorem update_in_argument_overwritten :
    ¬ ∀ (limit fuel : Nat) (b : Builtin) (callee second : Tree) (x : String) (place mark : Mark)
      (frame : Frame) (m m₁ m₂ m' : Machine Memory) (t : Stamp) (v₁ r now : Value),
      b.mutates = true → eval limit fuel callee frame m = .done (.builtin b t) m₁ →
      eval limit fuel second frame m₁ = .done v₁ m₂ →
      eval limit (fuel + 1) (.call callee [.access x place, second] mark) frame m = .done r m' →
      m₂.store.get? frame.scope x = some now →
      ∃ taken w held, b.Changes now v₁ taken w ∧ m'.store.get? frame.scope x = some held ∧
        held.bare = w.bare := by
  intro all
  let mark : Mark := ⟨⟨⟨"<stdin>", ""⟩, .origin, .origin⟩, 0⟩
  let m : Machine Memory :=
    ⟨⟨#[⟨[("x", .list [] .none), ("APPEND", .builtin .append .none)], none⟩]⟩,
    .memory [] [], 0, 0⟩
  obtain ⟨taken, w, held, changes, holds, same⟩ := all 10 2 .append (.access "APPEND" mark)
    (.call (.access "APPEND" mark) [.access "x" mark, .number (.int 1) mark] mark) "x" mark mark
    (.root 0 programName globalScope) m _ _ _ _ _ _ _ rfl rfl rfl rfl rfl
  cases holds
  cases changes
  simp at same

end ScriptLang
