import ScriptLang.Node.Parse
import ScriptLang.Proofs.Bare.Tree
import ScriptLang.Proofs.Token.Order

/-! Reading does not look at places. Two lists of tokens that say the same, wherever their tokens
stand, are read to trees that are the same without places, or are both refused for want of the
same tokens. Cursors compare offsets to tell which of two failures lies deeper; as the tokens of a
text stand in order, this compares their numbers. -/
namespace ScriptLang

/-- Two lists of tokens that differ in nothing but places. -/
structure Token.Twin (ts us : List Token) : Prop where
  contents : ts.map Token.content = us.map Token.content
  left : Ascending ts
  right : Ascending us

def Failure.At (ts : List Token) (e : Failure) : Prop := ts[e.index]? = some e.found

structure Cursor.At (ts : List Token) (c : Cursor) : Prop where
  current : ts[c.index]? = some c.current
  ahead : ts.drop (c.index + 1) = c.ahead
  abandoned : ∀ e ∈ c.abandoned, e.At ts

structure Failure.Alike (ts us : List Token) (e f : Failure) : Prop where
  left : e.At ts
  right : f.At us
  expected : e.expected = f.expected
  index : e.index = f.index
  trailing : e.trailing = f.trailing

def Failure.bare (e : Failure) : List Token.Kind × Nat × Bool := (e.expected, e.index, e.trailing)

structure Cursor.Alike (ts us : List Token) (c d : Cursor) : Prop where
  left : c.At ts
  right : d.At us
  index : c.index = d.index
  abandoned : c.abandoned.map Failure.bare = d.abandoned.map Failure.bare

/-- Readings that end in the same way, with values related by `V`. -/
inductive Outcome.Alike {α : Type} (ts us : List Token) (V : α → α → Prop) :
    Outcome α → Outcome α → Prop where
  | done {a b : α} {c d : Cursor} (value : V a b) (cursor : c.Alike ts us d) :
    Alike ts us V (.done a c) (.done b d)
  | failed {e f : Failure} (failure : e.Alike ts us f) : Alike ts us V (.failed e) (.failed f)
  | spent : Alike ts us V .spent .spent

def Rule.Alike {α : Type} (ts us : List Token) (V : α → α → Prop) (p q : Rule α) : Prop :=
  ∀ c d : Cursor, c.Alike ts us d → (p c).Alike ts us V (q d)

namespace Cursor.Alike

variable {ts us : List Token} {c d : Cursor}

theorem content (twin : Token.Twin ts us) (h : c.Alike ts us d) :
    c.current.content = d.current.content := by
  have same : (ts.map Token.content)[c.index]? = (us.map Token.content)[c.index]? := by
    rw [twin.contents]
  rw [List.getElem?_map, List.getElem?_map, h.left.current, h.index, h.right.current] at same
  exact Option.some.inj same

theorem kind (twin : Token.Twin ts us) (h : c.Alike ts us d) : c.kind = d.kind :=
  congrArg Token.Content.kind (h.content twin)

theorem mark (h : c.Alike ts us d) : c.mark.bare = d.mark.bare := Mark.bare_eq.2 h.index

theorem failure (h : c.Alike ts us d) (expected : List Token.Kind) :
    (c.failure expected).Alike ts us (d.failure expected) :=
  ⟨h.left.current, h.right.current, rfl, h.index, rfl⟩

end Cursor.Alike

theorem Cursor.At.advance {ts : List Token} {c : Cursor} (h : c.At ts) : c.advance.At ts := by
  unfold Cursor.advance
  have ahead := h.ahead
  split
  · next empty =>
    rw [empty] at ahead
    exact ⟨h.current, ahead, by simp⟩
  · next next rest cons =>
    rw [cons] at ahead
    refine ⟨?_, ?_, by simp⟩
    · simpa using congrArg List.head? ahead
    · simpa using congrArg List.tail ahead

theorem Cursor.advance_index {ts : List Token} {c : Cursor} (h : c.At ts) :
    c.advance.index = if c.index + 1 < ts.length then c.index + 1 else c.index := by
  unfold Cursor.advance
  have length := congrArg List.length h.ahead
  rw [List.length_drop] at length
  split
  · next empty =>
    rw [empty] at length
    rw [if_neg (by simp at length; omega)]
  · next cons =>
    rw [cons] at length
    rw [if_pos (by simp at length; omega)]

theorem Cursor.advance_abandoned (c : Cursor) : c.advance.abandoned = none := by
  unfold Cursor.advance
  split <;> rfl

theorem Cursor.Alike.advance {ts us : List Token} {c d : Cursor} (twin : Token.Twin ts us)
    (h : c.Alike ts us d) : c.advance.Alike ts us d.advance := by
  refine ⟨h.left.advance, h.right.advance, ?_, ?_⟩
  · have length : ts.length = us.length := by
      simpa using congrArg List.length twin.contents
    rw [advance_index h.left, advance_index h.right, h.index, length]
  · rw [advance_abandoned, advance_abandoned]

theorem Token.Ascending.offset_lt_iff {ts : List Token} (h : Ascending ts) {i j : Nat}
    {t u : Token} (ht : ts[i]? = some t) (hu : ts[j]? = some u) :
    t.span.start.offset < u.span.start.offset ↔ i < j := by
  obtain ⟨hi, rfl⟩ := List.getElem?_eq_some_iff.1 ht
  obtain ⟨hj, rfl⟩ := List.getElem?_eq_some_iff.1 hu
  have mono := List.pairwise_iff_getElem.1 h
  refine ⟨fun lt => ?_, fun lt => mono i j hi hj lt⟩
  rcases Nat.lt_trichotomy i j with less | rfl | more
  · exact less
  · omega
  · have := mono j i hj hi more
    omega

theorem Cursor.At.deeper_eq {ts : List Token} {c : Cursor} (h : c.At ts)
    (ascending : Token.Ascending ts) : c.deeper = c.abandoned.filter (c.index < ·.index) := by
  unfold Cursor.deeper
  cases abandoned : c.abandoned with
  | none => rfl
  | some e =>
    have at_ : e.At ts := h.abandoned e (by simp [abandoned])
    have iff := ascending.offset_lt_iff h.current at_
    simp only [Option.filter_some, iff]

theorem Cursor.Alike.deeper {ts us : List Token} {c d : Cursor} (twin : Token.Twin ts us)
    (h : c.Alike ts us d) : (c.deeper = none ∧ d.deeper = none) ∨
      ∃ e f, c.deeper = some e ∧ d.deeper = some f ∧ e.Alike ts us f := by
  rw [h.left.deeper_eq twin.left, h.right.deeper_eq twin.right]
  have same := h.abandoned
  cases left : c.abandoned with
  | none =>
    rw [left] at same
    have right : d.abandoned = none := by simpa using same.symm
    exact .inl ⟨rfl, by rw [right]; rfl⟩
  | some e =>
    rw [left] at same
    obtain ⟨f, right, bare⟩ := Option.map_eq_some_iff.1 same.symm
    simp only [Failure.bare, Prod.mk.injEq] at bare
    obtain ⟨expected, index, trailing⟩ := bare
    simp only [right, Option.filter_some, h.index, index]
    by_cases lt : d.index < e.index
    · refine .inr ⟨e, f, by simp [lt], by simp [lt], ?_⟩
      exact ⟨h.left.abandoned e (by simp [left]), h.right.abandoned f (by simp [right]),
        expected.symm, index.symm, trailing.symm⟩
    · exact .inl ⟨by simp [lt], by simp [lt]⟩

namespace Rule.Alike

variable {ts us : List Token} {α β : Type} {V : α → α → Prop} {W : β → β → Prop}

theorem pure {a b : α} (h : V a b) :
    Rule.Alike ts us V (Pure.pure a : Rule α) (Pure.pure b) :=
  fun _ _ cursors => .done h cursors

theorem spent : Rule.Alike ts us V (Rule.spent : Rule α) Rule.spent := fun _ _ _ => .spent

theorem bind {p q : Rule α} {f g : α → Rule β} (hp : Rule.Alike ts us V p q)
    (hf : ∀ a b, V a b → Rule.Alike ts us W (f a) (g b)) :
    Rule.Alike ts us W (p >>= f) (q >>= g) := by
  intro c d cursors
  change Outcome.Alike ts us W (Rule.bind p f c) (Rule.bind q g d)
  unfold Rule.bind
  have ends := hp c d cursors
  generalize p c = left at ends ⊢
  generalize q d = right at ends ⊢
  cases ends with
  | done value cursor => exact hf _ _ value _ _ cursor
  | failed failure => exact .failed failure
  | spent => exact .spent

theorem fromHere {f g : Cursor → Rule β}
    (h : ∀ c d : Cursor, c.Alike ts us d → Rule.Alike ts us W (f c) (g d)) :
    Rule.Alike ts us W (here >>= f) (here >>= g) :=
  fun c d cursors => h c d cursors c d cursors

theorem unexpected (expected : List Token.Kind) :
    Rule.Alike ts us V (Rule.unexpected expected : Rule α) (Rule.unexpected expected) :=
  fun _ _ cursors => .failed (cursors.failure expected)

theorem thrown {e f : Failure} (h : e.Alike ts us f) :
    Rule.Alike ts us V (Rule.throw e : Rule α) (Rule.throw f) :=
  fun _ _ _ => .failed h

theorem advance (twin : Token.Twin ts us) :
    Rule.Alike ts us (fun _ _ => True) Rule.advance Rule.advance :=
  fun _ _ cursors => .done trivial (cursors.advance twin)

theorem accept (twin : Token.Twin ts us) (kind : Token.Kind) :
    Rule.Alike ts us Eq (Rule.accept kind) (Rule.accept kind) := by
  intro c d cursors
  unfold Rule.accept
  rw [cursors.kind twin]
  split
  · exact .done rfl (cursors.advance twin)
  · exact .done rfl cursors

theorem ifAccept (twin : Token.Twin ts us) (kind : Token.Kind) {p q p' q' : Rule β}
    (yes : Rule.Alike ts us W p q) (no : Rule.Alike ts us W p' q') :
    Rule.Alike ts us W (do if ← Rule.accept kind then p else p')
      (do if ← Rule.accept kind then q else q') := by
  refine (accept twin kind).bind ?_
  rintro read _ rfl
  split
  · exact yes
  · exact no

theorem expect (twin : Token.Twin ts us) (kind : Token.Kind) (expected : List Token.Kind) :
    Rule.Alike ts us (fun _ _ => True) (Rule.expect kind expected)
      (Rule.expect kind expected) := by
  intro c d cursors
  unfold Rule.expect
  rw [cursors.kind twin]
  split
  · exact .done trivial (cursors.advance twin)
  · exact .failed (cursors.failure expected)

theorem name (twin : Token.Twin ts us) : Rule.Alike ts us Eq Rule.name Rule.name := by
  intro c d cursors
  unfold Rule.name
  rw [cursors.content twin]
  split
  · exact .done rfl (cursors.advance twin)
  · exact .failed (cursors.failure _)

theorem markFrom {m n : Mark} (h : m.bare = n.bare) :
    Rule.Alike ts us (fun a b => a.bare = b.bare) (Rule.markFrom m) (Rule.markFrom n) :=
  fun _ _ cursors => .done (by simpa using h) cursors

theorem attempt {p q : Rule α} (hp : Rule.Alike ts us V p q) :
    Rule.Alike ts us (Option.Rel V) (Rule.attempt p) (Rule.attempt q) := by
  intro c d cursors
  unfold Rule.attempt
  have ends := hp c d cursors
  generalize p c = left at ends ⊢
  generalize q d = right at ends ⊢
  cases ends with
  | done value cursor => exact .done (.some value) cursor
  | spent => exact .spent
  | failed failure =>
    refine .done .none ⟨⟨cursors.left.current, cursors.left.ahead, ?_⟩,
      ⟨cursors.right.current, cursors.right.ahead, ?_⟩, cursors.index, ?_⟩
    · simpa using failure.left
    · simpa using failure.right
    · simp [Failure.bare, failure.expected, failure.index, failure.trailing]

theorem describing {p q : Rule α} (hp : Rule.Alike ts us V p q) (expected : List Token.Kind) :
    Rule.Alike ts us V (Rule.describing p expected) (Rule.describing q expected) := by
  intro c d cursors
  unfold Rule.describing
  have ends := hp c d cursors
  generalize p c = left at ends ⊢
  generalize q d = right at ends ⊢
  cases ends with
  | done value cursor => exact .done value cursor
  | spent => exact .spent
  | failed failure =>
    dsimp only
    rw [failure.index, cursors.index]
    refine .failed ?_
    split
    · exact cursors.failure expected
    · exact failure

end Rule.Alike

end ScriptLang
