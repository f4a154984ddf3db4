import ScriptLang.Proofs.Effect
import ScriptLang.Proofs.Noting

/-! Which scopes a run can reach. A run binds names in the scope of its own frame, and in the
global scope if it loads a script; in any other scope that was there before, only what built-in
functions write back is new. -/
namespace ScriptLang

variable {σ : Type}

def Written.Proper (w : Written) : Prop :=
  w.builtin ∈ [.append, .pop, .extend] ∧ ∃ vs t, w.value = .list vs t

theorem Builtin.mem_of_mutates (b : Builtin) : b.mutates = true → b ∈ [.append, .pop, .extend] := by
  cases b <;> decide

namespace Scope

/-- The same place in the tree of scopes, and no name is lost. -/
structure Kept (s s' : Scope) : Prop where
  parent : s'.parent = s.parent
  binds : ∀ name, s.binds name → s'.binds name

/-- No new names, and a value that is not the old one was written back. -/
def OnlyWritten (written : List Written) (id : Nat) (s s' : Scope) : Prop :=
  ∀ name, s'.get? name = s.get? name ∨
    (s.binds name ∧ ∃ w ∈ written, w.scope = id ∧ w.name = name ∧ s'.get? name = some w.value)

theorem Kept.refl (s : Scope) : s.Kept s := ⟨rfl, fun _ h => h⟩

theorem Kept.trans {s₁ s₂ s₃ : Scope} (a : s₁.Kept s₂) (b : s₂.Kept s₃) : s₁.Kept s₃ :=
  ⟨b.parent.trans a.parent, fun name h => b.binds name (a.binds name h)⟩

theorem OnlyWritten.refl (written : List Written) (id : Nat) (s : Scope) :
    OnlyWritten written id s s := fun _ => .inl rfl

theorem OnlyWritten.trans {old new : List Written} {id : Nat} {s₁ s₂ s₃ : Scope}
    (a : OnlyWritten old id s₁ s₂) (b : OnlyWritten new id s₂ s₃) :
    OnlyWritten (new ++ old) id s₁ s₃ := by
  intro name
  rcases b name with same | ⟨bound, w, mem, here, named, value⟩
  · rw [same]
    rcases a name with same | ⟨bound, w, mem, written⟩
    · exact .inl same
    · exact .inr ⟨bound, w, List.mem_append_right _ mem, written⟩
  · refine .inr ⟨?_, w, List.mem_append_left _ mem, here, named, value⟩
    rcases a name with same | ⟨bound', -⟩
    · unfold binds at bound ⊢; rwa [same] at bound
    · exact bound'

theorem get?_set_self (s : Scope) (name : String) (v : Value) :
    (s.set name v).get? name = some v :=
  lookup_insert_self name v s.bindings

theorem get?_set_ne (s : Scope) {name other : String} (h : other ≠ name) (v : Value) :
    (s.set name v).get? other = s.get? other :=
  lookup_insert_ne h v s.bindings

theorem kept_set (s : Scope) (name : String) (v : Value) : s.Kept (s.set name v) := by
  refine ⟨rfl, fun other bound => ?_⟩
  by_cases h : other = name
  · subst h; simp [binds, get?_set_self]
  · simpa only [binds, get?_set_ne s h] using bound

theorem onlyWritten_set {s : Scope} {w : Written} (bound : s.binds w.name) :
    OnlyWritten [w] w.scope s (s.set w.name w.value) := by
  intro other
  by_cases h : other = w.name
  · subst h; exact .inr ⟨bound, w, List.mem_singleton_self w, rfl, rfl, get?_set_self ..⟩
  · exact .inl (get?_set_ne s h _)

end Scope

def Machine.Loaded (m m' : Machine σ) : Prop :=
  ∃ new path, m'.host.events = new ++ m.host.events ∧ .load path ∈ new

/-- The host of the machine never looks at the notes. -/
def Host.Operations.Discreet (ops : Host.Operations (σ × List Written)) : Prop :=
  ∀ h h' : Host (σ × List Written), h.operations = ops →
    (h.Asks h' ∨ ∃ path, h' = (h.load path).2) → h'.state.2 = h.state.2

theorem Host.Operations.beside_discreet (ops : Host.Operations σ) :
    (ops.beside : Host.Operations (σ × List Written)).Discreet := by
  rintro h h' eq (asked | ⟨path, rfl⟩)
  · cases asked with
    | line text => simp [Host.writeLine, Host.after, eq, Host.Operations.beside]
    | read => simp [Host.readLine, eq, Host.Operations.beside]
    | clear => simp [Host.clear, Host.after, eq, Host.Operations.beside]
  · simp [Host.load, eq, Host.Operations.beside]

/-- What a run in the scope `own` does to the scopes there were, with `new` noted on the way. -/
structure ScopesKept (own : Nat) (new : List Written) (m m' : Machine (σ × List Written)) :
    Prop where
  operations : m'.host.operations = m.host.operations
  events : m.host.events <:+ m'.host.events
  notes : m'.host.state.2 = new ++ m.host.state.2
  proper : ∀ w ∈ new, w.Proper
  scopes : ∀ id s, m.store.scopes[id]? = some s → ∃ s', m'.store.scopes[id]? = some s' ∧
    s.Kept s' ∧ (id = own ∨ (id = globalScope ∧ m.Loaded m') ∨ Scope.OnlyWritten new id s s')

namespace ScopesKept

variable {own : Nat} {old new : List Written} {m m₁ m₂ m₃ : Machine (σ × List Written)}

theorem loaded_left {m₁ m₂ m₃ : Machine σ} (h : m₁.Loaded m₂)
    (later : m₂.host.events <:+ m₃.host.events) : m₁.Loaded m₃ := by
  obtain ⟨new, path, hnew, mem⟩ := h
  obtain ⟨more, hmore⟩ := later
  exact ⟨more ++ new, path, by rw [← hmore, hnew, List.append_assoc], by simp [mem]⟩

theorem loaded_right {m₁ m₂ m₃ : Machine σ} (earlier : m₁.host.events <:+ m₂.host.events)
    (h : m₂.Loaded m₃) : m₁.Loaded m₃ := by
  obtain ⟨new, path, hnew, mem⟩ := h
  obtain ⟨more, hmore⟩ := earlier
  exact ⟨new ++ more, path, by rw [hnew, ← hmore, List.append_assoc], by simp [mem]⟩

theorem trans (a : ScopesKept own old m₁ m₂) (b : ScopesKept own new m₂ m₃) :
    ScopesKept own (new ++ old) m₁ m₃ := by
  refine ⟨b.operations.trans a.operations, a.events.trans b.events, ?_, ?_, fun id s hs => ?_⟩
  · rw [b.notes, a.notes, List.append_assoc]
  · intro w mem
    exact (List.mem_append.1 mem).elim (b.proper w) (a.proper w)
  obtain ⟨s₂, hs₂, kept, reach⟩ := a.scopes id s hs
  obtain ⟨s₃, hs₃, kept', reach'⟩ := b.scopes id s₂ hs₂
  refine ⟨s₃, hs₃, kept.trans kept', ?_⟩
  rcases reach with here | ⟨isGlobal, load⟩ | written
  · exact .inl here
  · exact .inr (.inl ⟨isGlobal, loaded_left load b.events⟩)
  · rcases reach' with here | ⟨isGlobal, load⟩ | written'
    · exact .inl here
    · exact .inr (.inl ⟨isGlobal, loaded_right a.events load⟩)
    · exact .inr (.inr (written.trans written'))

theorem of_store_eq (operations : m₂.host.operations = m₁.host.operations)
    (events : m₁.host.events <:+ m₂.host.events) (notes : m₂.host.state.2 = m₁.host.state.2)
    (store : m₂.store = m₁.store) : ScopesKept own [] m₁ m₂ :=
  ⟨operations, events, notes, nofun, fun _ s hs =>
    ⟨s, by rw [store]; exact hs, .refl s, .inr (.inr (.refl _ _ s))⟩⟩

theorem scopes_set (store : Store) (id id' : Nat) (name : String) (v : Value) :
    (store.set id name v).scopes[id']? =
      if id = id' then store.scopes[id']?.map (·.set name v) else store.scopes[id']? :=
  Array.getElem?_modify

theorem of_set (name : String) (v : Value) :
    ScopesKept own [] m { m with store := m.store.set own name v } := by
  refine ⟨rfl, List.suffix_rfl, rfl, nofun, fun id s hs => ?_⟩
  rw [scopes_set, hs]
  by_cases h : own = id
  · rw [if_pos h]
    exact ⟨s.set name v, rfl, s.kept_set name v, .inl h.symm⟩
  · rw [if_neg h]
    exact ⟨s, rfl, .refl s, .inr (.inr (.refl _ _ s))⟩

theorem of_written {w : Written} (proper : w.Proper) (bound : m.store.binds w.scope w.name) :
    ScopesKept own [w] m { m with
      store := m.store.set w.scope w.name w.value
      host.state.2 := w :: m.host.state.2 } := by
  refine ⟨rfl, List.suffix_rfl, rfl, by simpa using proper, fun id s hs => ?_⟩
  rw [scopes_set, hs]
  by_cases h : w.scope = id
  · subst h
    have bound' : s.binds w.name := by simpa [Store.binds, hs] using bound
    rw [if_pos rfl]
    exact ⟨_, rfl, s.kept_set w.name _, .inr (.inr (Scope.onlyWritten_set bound'))⟩
  · rw [if_neg h]
    exact ⟨s, rfl, .refl s, .inr (.inr (.refl _ _ s))⟩

theorem of_call {outer : Nat} {m' : Machine (σ × List Written)}
    (h : ScopesKept m.store.size new
      { m with store := m.store.push (some outer), frames := m.frames + 1 } m') :
    ScopesKept own new m m' := by
  refine ⟨h.operations, h.events, h.notes, h.proper, fun id s hs => ?_⟩
  have old : id < m.store.scopes.size := (Array.getElem?_eq_some_iff.1 hs).1
  have pushed : (m.store.push (some outer)).scopes[id]? = some s := by
    rw [← hs]; simp [Store.push, Array.getElem?_push, Nat.ne_of_lt old]
  obtain ⟨s', hs', kept, reach⟩ := h.scopes id s pushed
  refine ⟨s', hs', kept, .inr ?_⟩
  rcases reach with here | rest
  · exact absurd here (Nat.ne_of_lt old)
  · exact rest

theorem of_run {path : String} {m' : Machine (σ × List Written)}
    (quiet : (m.host.load path).2.state.2 = m.host.state.2)
    (h : ScopesKept globalScope new { m with host := (m.host.load path).2 } m') :
    ScopesKept own new m m' := by
  have load : m.Loaded { m with host := (m.host.load path).2 } :=
    ⟨[.load path], path, rfl, by simp⟩
  refine ⟨h.operations, (List.suffix_cons _ _).trans h.events, h.notes.trans (by rw [← quiet]),
    h.proper, fun id s hs => ?_⟩
  obtain ⟨s', hs', kept, reach⟩ := h.scopes id s hs
  refine ⟨s', hs', kept, .inr ?_⟩
  rcases reach with isGlobal | ⟨isGlobal, -⟩ | written
  · exact .inl ⟨isGlobal, loaded_left load h.events⟩
  · exact .inl ⟨isGlobal, loaded_left load h.events⟩
  · exact .inr written

def effect : Effect (σ × List Written) := fun own m m' =>
  m.host.operations.Discreet → ∃ new, ScopesKept own new m m'

theorem of_asks {h : Host (σ × List Written)} (discreet : m.host.operations.Discreet)
    (asked : m.host.Asks h) : ScopesKept own [] m { m with host := h } := by
  have quiet := discreet _ _ rfl (.inl asked)
  cases asked with
  | line text =>
    refine of_store_eq rfl ?_ quiet rfl
    dsimp only [Host.writeLine, Host.after]
    split
    · exact List.suffix_cons _ _
    · exact List.suffix_rfl
  | read => exact of_store_eq rfl List.suffix_rfl quiet rfl
  | clear =>
    refine of_store_eq rfl ?_ quiet rfl
    dsimp only [Host.clear, Host.after]
    split
    · exact List.suffix_cons _ _
    · exact List.suffix_rfl

theorem local_effect : (effect : Effect (σ × List Written)).Local where
  refl _ _ _ := ⟨[], of_store_eq rfl List.suffix_rfl rfl rfl⟩
  trans first second discreet := by
    obtain ⟨old, kept⟩ := first discreet
    obtain ⟨new, kept'⟩ := second (kept.operations ▸ discreet)
    exact ⟨new ++ old, kept.trans kept'⟩
  assign _ name v _ _ := ⟨[], of_set name v⟩
  host _ _ _ asked discreet := ⟨[], of_asks discreet asked⟩
  frame _ _ _ := ⟨[], of_store_eq rfl List.suffix_rfl rfl rfl⟩
  call _ _ _ _ h discreet := (h discreet).imp fun _ => of_call
  nested _ _ _ h discreet :=
    (h discreet).imp fun _ kept =>
      ⟨kept.operations, kept.events, kept.notes, kept.proper, kept.scopes⟩
  run _ path m _ h discreet :=
    (h discreet).imp fun _ => of_run (discreet _ _ rfl (.inr ⟨path, rfl⟩))

theorem allowsBack : (effect : Effect (σ × List Written)).AllowsBack .noting := by
  intro b frame name vs t mutates m
  change Step.Leaves _ (Eval.bind (Eval.note b frame name (.list vs t)) _ m)
  unfold Eval.bind Eval.note
  cases found : m.store.resolve? frame.scope name with
  | none =>
    intro _
    exact ⟨[], of_store_eq rfl List.suffix_rfl rfl (by simp [Store.replace?, found])⟩
  | some id =>
    intro _
    have proper : Written.Proper ⟨b, id, name, .list vs t⟩ := ⟨b.mem_of_mutates mutates, vs, t, rfl⟩
    have bound : m.store.binds id name :=
      List.find?_some (p := (m.store.binds · name)) found
    have kept : ScopesKept frame.scope _ m _ := of_written proper bound
    refine ⟨[⟨b, id, name, .list vs t⟩], ?_⟩
    simpa only [Store.replace?, found, Option.map_some, Option.getD_some] using kept

theorem eval (limit fuel : Nat) (node : Tree) (frame : Frame) (m : Machine σ) :
    ∃ written : List Written,
      unwind (evaluateWith .noting limit fuel node frame) (m.beside []) =
        (eval limit fuel node frame m).beside written ∧
      (∀ w ∈ written, w.Proper) ∧
      (eval limit fuel node frame m).Leaves fun m' =>
        ScopesKept frame.scope written (m.beside []) (m'.beside written) := by
  obtain ⟨written, same⟩ := Eval.Notes.evaluate limit fuel node frame m []
  have kept := local_effect.evaluateWith allowsBack limit fuel node frame (m.beside [])
  replace kept : (Step.beside written (ScriptLang.eval limit fuel node frame m)).Leaves
      (effect frame.scope (m.beside [])) := same ▸ kept
  have ended {m' : Machine σ} (h : effect frame.scope (m.beside []) (m'.beside written)) :
      ScopesKept frame.scope written (m.beside []) (m'.beside written) := by
    obtain ⟨new, kept⟩ := h m.host.operations.beside_discreet
    obtain rfl : written = new := kept.notes.trans (List.append_nil new)
    exact kept
  rw [same]
  change ∃ w, Step.beside written (ScriptLang.eval limit fuel node frame m) = _ ∧ _
  generalize ScriptLang.eval limit fuel node frame m = x at kept ⊢
  cases x with
  | done v m' => exact ⟨written, rfl, (ended kept).proper, ended kept⟩
  | exit e m' => exact ⟨written, rfl, (ended kept).proper, ended kept⟩
  | spent => exact ⟨[], rfl, nofun, trivial⟩

end ScopesKept

/-- The scopes there were before an evaluation, however it ends: each keeps its parent and its
names; the scope of the frame, and the global scope when a script was loaded, get new names and
values; in any other one a value is as it was, or it is a list that `APPEND`, `POP` or `EXTEND`
has written back to that variable on the way. What is written back is noted by an evaluation that
is the same but for the notes. -/
theorem eval_scopes_kept (limit fuel : Nat) (node : Tree) (frame : Frame) (m : Machine σ) :
    ∃ written : List Written,
      unwind (evaluateWith .noting limit fuel node frame) (m.beside []) =
        (eval limit fuel node frame m).beside written ∧
      (∀ w ∈ written, w.builtin ∈ [.append, .pop, .extend] ∧ ∃ vs t, w.value = .list vs t) ∧
      (eval limit fuel node frame m).Leaves fun m' =>
        ∀ id s, m.store.scopes[id]? = some s → ∃ s', m'.store.scopes[id]? = some s' ∧
          s'.parent = s.parent ∧ (∀ name, s.binds name → s'.binds name) ∧
          (id = frame.scope ∨ (id = globalScope ∧ m.Loaded m') ∨
            ∀ name, s'.get? name = s.get? name ∨ (s.binds name ∧ ∃ w ∈ written,
              w.scope = id ∧ w.name = name ∧ s'.get? name = some w.value)) := by
  obtain ⟨written, noted, proper, left⟩ := ScopesKept.eval limit fuel node frame m
  refine ⟨written, noted, proper, left.mono fun m' kept id s hs => ?_⟩
  obtain ⟨s', hs', same, reach⟩ := kept.scopes id s hs
  exact ⟨s', hs', same.parent, same.binds, reach⟩

end ScriptLang
