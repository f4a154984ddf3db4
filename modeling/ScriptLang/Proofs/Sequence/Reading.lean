import ScriptLang.Proofs.Matching.Value
import ScriptLang.Proofs.Sequence.CutOff

/-! Reading part of a list of tokens as if it were the whole. The tokens of a text stand in those
of a longer one, but for their end mark, in place of which a separator may stand. A rule reads both
in the same way, or what it reads in the shorter text is lost: nothing that contains it can be read
to the end of that text. -/
namespace ScriptLang

open Grammar

/-- The tokens `part` stand in `whole` from `shift` on; at the places of `Ended` the part ends, and
a separator stands in the whole. -/
structure Seam where
  part : List Token
  whole : List Token
  shift : Nat
  Ended : Nat → Prop
  ends : EndMarked part Ended
  ascending : Token.Ascending whole
  same : ∀ {i : Nat} {t u : Token}, part[i]? = some t → whole[i + shift]? = some u → ¬ Ended i →
    t.content = u.content
  separated : ∀ {i : Nat} {u : Token}, Ended i → whole[i + shift]? = some u → u.content = .newline
  goesOn : ∀ {i : Nat}, i < part.length → ¬ Ended i →
    (i + 1 < part.length ↔ i + shift + 1 < whole.length)

namespace Seam

variable (J : Seam)

/-- The literals of the part are those of the whole, further on. -/
def labels : Labelling where
  rel a b := b = a + J.shift ∧ a < J.part.length
  unique := by
    rintro a _ c _ ⟨rfl, -⟩ ⟨rfl, -⟩
    omega

abbrev Trees (t u : Tree) : Prop := t.Matches (Mark.Matches false J.labels) u

end Seam

structure Failure.Follows (J : Seam) (e f : Failure) : Prop where
  left : e.At J.part
  right : f.At J.whole
  index : f.index = e.index + J.shift

structure Cursor.Follows (J : Seam) (c d : Cursor) : Prop where
  left : c.At J.part
  right : d.At J.whole
  index : d.index = c.index + J.shift
  abandoned : Option.Rel (Failure.Follows J) c.abandoned d.abandoned

/-- The part is read as the whole is, with values related by `V`, or what is read of it is lost,
and at best ends at a cursor of `D`. -/
inductive Outcome.Follows {α β : Type} (J : Seam) (D : Cursor → Prop) (V : α → β → Prop) :
    Outcome α → Outcome β → Prop where
  | done {a : α} {b : β} {c d : Cursor} (value : V a b) (cursors : c.Follows J d) :
    Follows J D V (.done a c) (.done b d)
  | failed {e f : Failure} (failures : e.Follows J f) : Follows J D V (.failed e) (.failed f)
  | lost {o : Outcome α} (h : o.Lost J.part J.Ended D) (o' : Outcome β) : Follows J D V o o'

/-- Rules that read a part and the whole alike, as long as the part goes on. -/
def Rule.Follows {α β : Type} (J : Seam) (D : Cursor → Prop) (V : α → β → Prop) (p : Rule α)
    (q : Rule β) : Prop :=
  ∀ c d : Cursor, c.Follows J d → (p c).Follows J D V (q d)

abbrev Nowhere : Cursor → Prop := fun _ => False

namespace Cursor.Follows

variable {J : Seam} {c d : Cursor}

theorem content (h : c.Follows J d) (inner : ¬ J.Ended c.index) :
    c.current.content = d.current.content :=
  J.same h.left.current (h.index ▸ h.right.current) inner

theorem kind (h : c.Follows J d) (inner : ¬ J.Ended c.index) : c.kind = d.kind :=
  congrArg Token.Content.kind (h.content inner)

theorem ended (h : c.Follows J d) (ended : J.Ended c.index) :
    c.current.content = .eof ∧ d.current.content = .newline :=
  ⟨J.ends.mark ended h.left.current, J.separated ended (h.index ▸ h.right.current)⟩

theorem not_ended (h : c.Follows J d) (other : c.kind ≠ .eof) : ¬ J.Ended c.index :=
  fun ended => other (congrArg Token.Content.kind (h.ended ended).1)

theorem mark (h : c.Follows J d) : c.mark.Matches false J.labels d.mark :=
  ⟨⟨h.index, (List.getElem?_eq_some_iff.1 h.left.current).1⟩, nofun⟩

theorem failure (h : c.Follows J d) (expected expected' : List Token.Kind) :
    (c.failure expected).Follows J (d.failure expected') :=
  ⟨h.left.current, h.right.current, h.index⟩

theorem advance (h : c.Follows J d) (inner : ¬ J.Ended c.index) :
    c.advance.Follows J d.advance := by
  refine ⟨h.left.advance, h.right.advance, ?_, ?_⟩
  · have inside : c.index < J.part.length := (List.getElem?_eq_some_iff.1 h.left.current).1
    have iff := J.goesOn inside inner
    rw [advance_index h.left, advance_index h.right, h.index]
    by_cases more : c.index + 1 < J.part.length
    · rw [if_pos more, if_pos (iff.1 more)]
      omega
    · rw [if_neg more, if_neg fun further => more (iff.2 further)]
  · rw [advance_abandoned, advance_abandoned]
    exact .none

theorem deeper (h : c.Follows J d) : (c.deeper = none ∧ d.deeper = none) ∨
    ∃ e f, c.deeper = some e ∧ d.deeper = some f ∧ e.Follows J f := by
  rw [h.left.deeper_eq J.ends.ascending, h.right.deeper_eq J.ascending, h.index]
  have same := h.abandoned
  generalize c.abandoned = x at same ⊢
  generalize d.abandoned = y at same ⊢
  cases same with
  | none => exact .inl ⟨rfl, rfl⟩
  | @some e f failures =>
    simp only [Option.filter_some, failures.index, Nat.add_lt_add_iff_right]
    by_cases lt : c.index < e.index
    · exact .inr ⟨e, f, by simp [lt], by simp [lt], failures⟩
    · exact .inl ⟨by simp [lt], by simp [lt]⟩

theorem givenUp (h : c.Follows J d) {e f : Failure} (failures : e.Follows J f) :
    Cursor.Follows J { c with abandoned := some e } { d with abandoned := some f } where
  left := ⟨h.left.current, h.left.ahead, by simpa using failures.left⟩
  right := ⟨h.right.current, h.right.ahead, by simpa using failures.right⟩
  index := h.index
  abandoned := .some failures

end Cursor.Follows

theorem Mark.Matches.ofIndex {L : Labelling} {m n : Mark} (h : L.rel m.index n.index) :
    m.Matches false L n :=
  ⟨h, fun exact => absurd exact Bool.false_ne_true⟩

theorem Mark.Matches.upTo {L : Labelling} {m n : Mark} (h : m.Matches false L n) (s t : Span) :
    (m.upTo s).Matches false L (n.upTo t) :=
  .ofIndex h.index

theorem Mark.Matches.through {L : Labelling} {m n : Mark} (h : m.Matches false L n) (s t : Mark) :
    (m.through s).Matches false L (n.through t) :=
  h.upTo s.span t.span

namespace Outcome.Follows

variable {J : Seam} {α α' β β' : Type} {D E : Cursor → Prop} {V : α → α' → Prop}
variable {W : β → β' → Prop} {c d : Cursor}

theorem bind {p : Rule α} {q : Rule α'} {f : α → Rule β} {g : α' → Rule β'}
    (hp : (p c).Follows J D V (q d)) (hf : ∀ a b, V a b → Rule.Follows J E W (f a) (g b))
    (stray : ∀ a c, D c → (f a c).Lost J.part J.Ended E) :
    ((p >>= f) c).Follows J E W ((q >>= g) d) := by
  change (Rule.bind p f c).Follows J E W (Rule.bind q g d)
  have lost (h : (p c).Lost J.part J.Ended D) : (Rule.bind p f c).Lost J.part J.Ended E :=
    h.bind stray
  unfold Rule.bind at lost ⊢
  generalize p c = left at hp lost ⊢
  generalize q d = right at hp ⊢
  cases hp with
  | done value cursors => exact hf _ _ value _ _ cursors
  | failed failures => exact .failed failures
  | lost h => exact .lost (lost h) _

theorem advance {f : Token → Rule β} {g : Token → Rule β'} (h : c.Follows J d)
    (inner : ¬ J.Ended c.index) (hf : ∀ t u, Rule.Follows J E W (f t) (g u)) :
    ((Rule.advance >>= f) c).Follows J E W ((Rule.advance >>= g) d) :=
  hf _ _ _ _ (h.advance inner)

theorem attempt {p : Rule α} {q : Rule α'} (h : c.Follows J d) (hp : (p c).Follows J D V (q d))
    (strayed : ∀ c, D c → E c)
    (gaveUp : ∀ e, p c = .failed e → e.CutOff J.part J.Ended → E { c with abandoned := some e }) :
    (Rule.attempt p c).Follows J E (Option.Rel V) (Rule.attempt q d) := by
  unfold Rule.attempt
  generalize p c = left at hp gaveUp ⊢
  generalize q d = right at hp ⊢
  cases hp with
  | done value cursors => exact .done (.some value) cursors
  | failed failures => exact .done .none (h.givenUp failures)
  | lost lost o =>
    refine .lost ?_ _
    cases left with
    | done a c' => exact strayed c' lost
    | failed e => exact gaveUp e rfl lost
    | spent => trivial

end Outcome.Follows

namespace Rule.Follows

variable {J : Seam} {α α' β β' : Type} {D E : Cursor → Prop} {V : α → α' → Prop}
variable {W : β → β' → Prop}

theorem spent (q : Rule α') : Rule.Follows J D V (Rule.spent : Rule α) q :=
  fun _ _ _ => .lost (o := .spent) trivial _

theorem pure {a : α} {b : α'} (h : V a b) :
    Rule.Follows J D V (Pure.pure a : Rule α) (Pure.pure b) :=
  fun _ _ cursors => .done h cursors

theorem bind {p : Rule α} {q : Rule α'} {f : α → Rule β} {g : α' → Rule β'}
    (hp : Rule.Follows J D V p q) (hf : ∀ a b, V a b → Rule.Follows J E W (f a) (g b))
    (stray : ∀ a c, D c → (f a c).Lost J.part J.Ended E) :
    Rule.Follows J E W (p >>= f) (q >>= g) :=
  fun c d cursors => (hp c d cursors).bind hf stray

theorem andThen {p : Rule α} {q : Rule α'} {f : α → Rule β} {g : α' → Rule β'}
    (hp : Rule.Follows J Nowhere V p q) (hf : ∀ a b, V a b → Rule.Follows J E W (f a) (g b)) :
    Rule.Follows J E W (p >>= f) (q >>= g) :=
  hp.bind hf fun _ _ never => never.elim

theorem fromHere {f : Cursor → Rule β} {g : Cursor → Rule β'}
    (h : ∀ c d : Cursor, c.Follows J d → (f c c).Follows J E W (g d d)) :
    Rule.Follows J E W (Rule.here >>= f) (Rule.here >>= g) :=
  fun c d cursors => h c d cursors

theorem unexpected (expected : List Token.Kind) :
    Rule.Follows J D V (Rule.unexpected expected : Rule α) (Rule.unexpected expected) :=
  fun _ _ cursors => .failed (cursors.failure _ _)

theorem ifAccept {x : Token.Kind} (other : x ≠ .newline ∧ x ≠ .eof) {p p' : Rule β}
    {q q' : Rule β'} (yes : Rule.Follows J E W p q) (no : Rule.Follows J E W p' q') :
    Rule.Follows J E W (do if ← Rule.accept x then p else p')
      (do if ← Rule.accept x then q else q') := by
  intro c d cursors
  by_cases end_ : J.Ended c.index
  · obtain ⟨eof, newline⟩ := cursors.ended end_
    have left : c.kind ≠ x := fun is => other.2 (is.symm.trans (congrArg Token.Content.kind eof))
    have right : d.kind ≠ x :=
      fun is => other.1 (is.symm.trans (congrArg Token.Content.kind newline))
    rw [bind_done (accept_neg left), bind_done (accept_neg right)]
    exact no c d cursors
  · have same := cursors.kind end_
    by_cases is : c.kind = x
    · rw [bind_done (accept_pos is), bind_done (accept_pos (same ▸ is))]
      exact yes _ _ (cursors.advance end_)
    · rw [bind_done (accept_neg is), bind_done (accept_neg (same ▸ is))]
      exact no _ _ cursors

theorem ifNewline {p p' : Rule β} {q q' : Rule β'}
    (yes : Rule.Follows J E W p q) (no : Rule.Follows J E W p' q')
    (ended : ∀ c : Cursor, c.At J.part → J.Ended c.index → (p' c).Lost J.part J.Ended E) :
    Rule.Follows J E W (do if ← Rule.accept .newline then p else p')
      (do if ← Rule.accept .newline then q else q') := by
  intro c d cursors
  by_cases end_ : J.Ended c.index
  · have left : c.kind ≠ .newline := fun is => nomatch is.symm.trans
      (congrArg Token.Content.kind (cursors.ended end_).1)
    rw [bind_done (accept_neg left)]
    exact .lost (ended c cursors.left end_) _
  · have same := cursors.kind end_
    by_cases is : c.kind = .newline
    · rw [bind_done (accept_pos is), bind_done (accept_pos (same ▸ is))]
      exact yes _ _ (cursors.advance end_)
    · rw [bind_done (accept_neg is), bind_done (accept_neg (same ▸ is))]
      exact no _ _ cursors

theorem expect {x : Token.Kind} (other : x ≠ .newline ∧ x ≠ .eof) (expected : List Token.Kind) :
    Rule.Follows J Nowhere (fun _ _ => True) (Rule.expect x expected)
      (Rule.expect x expected) := by
  intro c d cursors
  unfold Rule.expect
  by_cases end_ : J.Ended c.index
  · obtain ⟨eof, newline⟩ := cursors.ended end_
    rw [if_neg fun is => other.2 (is.symm.trans (congrArg Token.Content.kind eof)),
      if_neg fun is => other.1 (is.symm.trans (congrArg Token.Content.kind newline))]
    exact .failed (cursors.failure _ _)
  · rw [cursors.kind end_]
    split
    · exact .done trivial (cursors.advance end_)
    · exact .failed (cursors.failure _ _)

theorem name : Rule.Follows J Nowhere Eq Rule.name Rule.name := by
  intro c d cursors
  unfold Rule.name
  by_cases end_ : J.Ended c.index
  · obtain ⟨left, right⟩ := cursors.ended end_
    rw [left, right]
    exact .failed (cursors.failure _ _)
  · rw [cursors.content end_]
    split
    · exact .done rfl (cursors.advance end_)
    · exact .failed (cursors.failure _ _)

theorem markFrom {m n : Mark} (h : m.Matches false J.labels n) :
    Rule.Follows J Nowhere (Mark.Matches false J.labels) (Rule.markFrom m) (Rule.markFrom n) :=
  fun _ _ cursors => .done (h.upTo _ _) cursors

theorem describing {p : Rule α} {q : Rule α'} (hp : Rule.Follows J D V p q)
    (expected : List Token.Kind) :
    Rule.Follows J D V (Rule.describing p expected) (Rule.describing q expected) := by
  intro c d cursors
  have ends := hp c d cursors
  have lost (h : (p c).Lost J.part J.Ended D) := h.described cursors.left expected
  unfold Rule.describing at lost ⊢
  generalize p c = left at ends lost ⊢
  generalize q d = right at ends ⊢
  cases ends with
  | done value cursors => exact .done value cursors
  | lost h => exact .lost (lost h) _
  | failed failures =>
    dsimp only
    simp only [failures.index, cursors.index, Nat.add_right_cancel_iff]
    refine .failed ?_
    split
    · exact cursors.failure _ _
    · exact failures

end Rule.Follows

end ScriptLang
