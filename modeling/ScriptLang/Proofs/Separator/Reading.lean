import ScriptLang.Proofs.Origin.Reading
import ScriptLang.Proofs.Progress.Grammar

/-! Reading with and without a separator that can be spared. Two cursors go over the same tokens,
but for one separator that the second does not find. They stand at the same number before it and
one apart behind it; only a run of separators takes one of them past it without the other. While
the cursors are at the separator, the one sees it and the other what follows. Only where a body
begins or ends do rules tell these apart, so it is enough that none does so there. -/
namespace ScriptLang

open Grammar Rule

def Token.LineStart (xs : List Token.Content) : Prop := xs = [] ∨ xs.getLast? = some .newline

def Token.closers : List Token.Kind := [.keyword .END, .keyword .ELIF, .keyword .ELSE]

def Token.ends : List Token.Kind := .eof :: closers

/-- A body is to begin behind the tokens, or they end with the statement of a body on one line,
which would take an `END` that follows for its own. -/
inductive Token.BodyOpen (front : List Token.Content) : Prop where
  | begins {k : Keyword} (head : k ∈ [.THEN, .ELSE]) (behind : [.keyword k] <:+ front)
  | inline {k : Keyword} {line : List Token.Content} {n : Node Unit} (head : k ∈ [.THEN, .ELSE])
    (behind : .keyword k :: line <:+ front) (statement : Phrase.Statement line n)
  | function (name : Option String) (params : List String)
    (behind : .keyword .FUN :: (name.map Token.Content.identifier).toList ++ .symbol .leftParen ::
      Phrase.names params ++ [.symbol .rightParen] <:+ front)

/-- A separator between `front` and `back` that can be spared. It stands at the beginning of a line,
or before what ends the statements that it is behind. -/
structure Spare where
  front : List Token.Content
  back : List Token.Content
  inner : .eof ∉ front
  closed : Token.Closed back
  /-- Expressions that begin before the separator end before `top`. -/
  top : Nat
  le_top : front.length ≤ top
  top_le : top ≤ front.length + 1
  start : top = front.length → Token.LineStart front
  final : ∀ {x : Token.Content}, top = front.length + 1 → x ∈ back.head? → x.kind ∈ Token.ends
  free : ∀ {x : Token.Content}, top = front.length + 1 → x ∈ back.head? → x.kind ≠ .eof →
    ¬ Token.BodyOpen front

theorem Token.not_passed {x : Token.Kind} (h : x ∉ .newline :: Token.ends) :
    x ∉ [.newline, .eof] := by
  rintro (_ | ⟨_, _ | ⟨_, ⟨⟩⟩⟩) <;> exact h (by decide)

theorem Token.LineStart.separated {xs ys : List Token.Content} (h : LineStart xs) {i : Nat}
    (last : i + 1 = xs.length) : (xs ++ ys)[i]? = some .newline := by
  rcases h with rfl | newline
  · cases last
  · rwa [List.getElem?_append_left (by omega), show i = xs.length - 1 by omega,
      ← List.getLast?_eq_getElem?]

namespace Spare

variable (J : Spare)

def place : Nat := J.front.length

abbrev long : List Token.Content := J.front ++ .newline :: J.back

abbrev short : List Token.Content := J.front ++ J.back

def Starts : Prop := ∃ x ∈ J.back.head?, x.kind ∈ statementStart

/-- The literals of the one list are those of the other. The place of the separator marks nothing
but an empty sequence that begins there, and then no statement follows. -/
def labels : Labelling where
  rel a b := (a < J.place ∧ b = a) ∨ (a = J.place ∧ b = a ∧ ¬ J.Starts) ∨
    (J.place < a ∧ b + 1 = a ∧ (b = J.place → J.Starts))
  unique := by
    intro a b c d first second
    by_cases starts : J.Starts
    · simp only [starts, not_true, and_false, false_or, implies_true, and_true] at first second
      omega
    · simp only [starts, not_false_iff, and_true, imp_false] at first second
      omega

theorem labels_before {a : Nat} (lt : a < J.place) : J.labels.rel a a := .inl ⟨lt, rfl⟩

theorem labels_place (idle : ¬ J.Starts) : J.labels.rel J.place J.place :=
  .inr (.inl ⟨rfl, rfl, idle⟩)

theorem labels_behind {b : Nat} (le : J.place ≤ b) (starts : b = J.place → J.Starts) :
    J.labels.rel (b + 1) b :=
  .inr (.inr ⟨Nat.lt_succ_of_le le, rfl, starts⟩)

abbrev Trees (t u : Tree) : Prop := t.Matches (Mark.Matches false J.labels) u

theorem closed_append {xs ys : List Token.Content} (inner : .eof ∉ xs) (closed : Token.Closed ys) :
    Token.Closed (xs ++ ys) := by
  induction xs with
  | nil => exact closed
  | cons x xs ih =>
    have rest := ih fun mem => inner (by simp [mem])
    have first : x ≠ .eof := fun eq => inner (by simp [eq])
    rw [List.cons_append]
    cases eq : xs ++ ys with
    | nil => rw [eq] at rest; exact rest.elim
    | cons y zs => rw [eq] at rest; exact ⟨first, rest⟩

theorem long_closed : Token.Closed J.long := by
  refine closed_append J.inner ?_
  cases eq : J.back with
  | nil => have closed := J.closed; rw [eq] at closed; exact closed.elim
  | cons x xs => exact ⟨nofun, eq ▸ J.closed⟩

theorem short_closed : Token.Closed J.short := closed_append J.inner J.closed

theorem long_front {i : Nat} (lt : i < J.place) : J.long[i]? = J.front[i]? :=
  List.getElem?_append_left lt

theorem long_place : J.long[J.place]? = some .newline := by simp [place]

theorem long_back (i : Nat) : J.long[J.place + 1 + i]? = J.back[i]? := by
  rw [place, List.getElem?_append_right (by omega),
    show J.front.length + 1 + i - J.front.length = i + 1 by omega]
  rfl

theorem short_front {i : Nat} (lt : i < J.place) : J.short[i]? = J.front[i]? :=
  List.getElem?_append_left lt

theorem short_back (i : Nat) : J.short[J.place + i]? = J.back[i]? := by
  rw [place, List.getElem?_append_right (by omega), Nat.add_sub_cancel_left]

theorem place_le : J.place ≤ J.top := J.le_top

theorem top_le_place : J.top ≤ J.place + 1 := J.top_le

theorem separated {i : Nat} (last : i + 1 = J.top) : J.long[i]? = some .newline := by
  by_cases here : J.top = J.place
  · exact (J.start here).separated (last.trans here)
  · have le := J.place_le
    have le' := J.top_le_place
    rw [show i = J.place by omega, J.long_place]

end Spare

def Cursor.Reads (xs : List Token.Content) (c : Cursor) : Prop := xs.drop c.index = c.rest

namespace Cursor.Reads

variable {xs : List Token.Content} {c : Cursor}

theorem content (h : c.Reads xs) : xs[c.index]? = some c.current.content := by
  have first := congrArg List.head? h
  rwa [List.head?_drop] at first

theorem closed (h : c.Reads xs) (all : Token.Closed xs) : Token.Closed c.rest :=
  h ▸ all.drop (List.getElem?_eq_some_iff.1 h.content).1

theorem advance (h : c.Reads xs) (all : Token.Closed xs) (more : c.kind ≠ .eof) :
    c.advance.Reads xs ∧ c.advance.index = c.index + 1 := by
  have rest := h.closed all
  obtain ⟨eq, -⟩ := Cursor.rest_advance rest more
  have index : c.advance.index = c.index + 1 := by
    unfold Cursor.rest at rest
    unfold Cursor.advance
    cases ahead : c.ahead with
    | nil => rw [ahead] at rest; exact absurd (congrArg Token.Content.kind rest) more
    | cons t ts => rfl
  refine ⟨?_, index⟩
  unfold Cursor.Reads at h ⊢
  rw [index, ← List.tail_drop, h, eq]
  rfl

theorem index_le {d : Cursor} (h : c.Reads xs) (h' : d.Reads xs) {cs : List Token.Content}
    (read : c.rest = cs ++ d.rest) : c.index ≤ d.index := by
  have within := (List.getElem?_eq_some_iff.1 h.content).1
  have lengths := congrArg List.length read
  rw [← h, ← h', List.length_append, List.length_drop, List.length_drop] at lengths
  omega

theorem ofTokens (t : Token) (ts : List Token) :
    (Cursor.ofTokens t ts).Reads ((t :: ts).map Token.content) := rfl

end Cursor.Reads

/-- Cursors of the two lists that stand at the same number, before `e`, or both behind the
separator. -/
structure Cursor.Abreast (J : Spare) (e : Nat) (c d : Cursor) : Prop where
  left : c.Reads J.long
  right : d.Reads J.short
  index : (c.index = d.index ∧ c.index < e) ∨ (c.index = d.index + 1 ∧ J.place ≤ d.index)

structure Cursor.Opening (J : Spare) (c d : Cursor) : Prop extends c.Abreast J (J.place + 1) d where
  further : c.index = d.index + 1 → J.place < d.index

/-- The one cursor is at the separator, the other at what follows it. -/
structure Cursor.Met (J : Spare) (c d : Cursor) : Prop where
  left : c.index = J.place
  right : d.index = J.place

abbrev Cursor.Within (J : Spare) : Cursor → Cursor → Prop := Cursor.Abreast J J.top

abbrev Cursor.Clear (J : Spare) : Cursor → Cursor → Prop := Cursor.Abreast J J.place

/-- Cursors that are at the separator only if the tokens end with it. -/
structure Cursor.Settled (J : Spare) (c d : Cursor) : Prop extends c.Abreast J J.top d where
  ended : c.Met J d → d.kind = .eof

structure Cursor.Past (J : Spare) (k : Keyword) (c d : Cursor) : Prop
    extends c.Abreast J J.top d where
  behind : c.index = d.index →
    ∃ lead line, J.front = lead ++ .keyword k :: line ∧ c.index = lead.length + 1

/-- Readings that end in the same way, with values related by `V` at cursors related by `S`. -/
inductive Outcome.Abreast {α β : Type} (S : Cursor → Cursor → Prop) (V : α → β → Prop) :
    Outcome α → Outcome β → Prop where
  | done {a : α} {b : β} {c d : Cursor} (value : V a b) (cursors : S c d) :
    Abreast S V (.done a c) (.done b d)
  | failed (e f : Failure) : Abreast S V (.failed e) (.failed f)
  | spent (o : Outcome β) : Abreast S V .spent o

def Rule.Abreast {α β : Type} (R S : Cursor → Cursor → Prop) (V : α → β → Prop) (p : Rule α)
    (q : Rule β) : Prop :=
  ∀ c d : Cursor, R c d → (p c).Abreast S V (q d)

namespace Cursor.Abreast

variable {J : Spare} {e e' : Nat} {c d : Cursor}

theorem mono (h : c.Abreast J e d) (le : e ≤ e') : c.Abreast J e' d :=
  ⟨h.left, h.right, by have := h.index; omega⟩

theorem lt_place (h : c.Abreast J e d) (off : ¬ c.Met J d) (le : e ≤ J.place + 1)
    (same : c.index = d.index) : c.index < J.place := by
  have other : c.index ≠ J.place := fun eq => off ⟨eq, same ▸ eq⟩
  have index := h.index
  omega

theorem clear (h : c.Abreast J e d) (off : ¬ c.Met J d) (le : e ≤ J.place + 1) : c.Clear J d := by
  refine ⟨h.left, h.right, ?_⟩
  rcases h.index with ⟨same, -⟩ | behind
  · exact .inl ⟨same, h.lt_place off le same⟩
  · exact .inr behind

theorem off (h : c.Clear J d) : ¬ c.Met J d := by
  rintro ⟨left, right⟩
  have index := h.index
  omega

theorem givenUp (h : c.Abreast J e d) (x y : Option Failure) :
    Cursor.Abreast J e { c with abandoned := x } { d with abandoned := y } :=
  ⟨h.left, h.right, h.index⟩

theorem content (h : c.Abreast J e d) (off : ¬ c.Met J d) (le : e ≤ J.place + 1) :
    c.current.content = d.current.content := by
  have left := h.left.content
  have right := h.right.content
  rcases h.index with ⟨same, -⟩ | ⟨apart, behind⟩
  · have lt := h.lt_place off le same
    rw [J.long_front lt] at left
    rw [← same, J.short_front lt] at right
    exact Option.some.inj (left.symm.trans right)
  · obtain ⟨i, eq⟩ := Nat.exists_eq_add_of_le behind
    rw [apart, show d.index + 1 = J.place + 1 + i by omega, J.long_back] at left
    rw [eq, J.short_back] at right
    exact Option.some.inj (left.symm.trans right)

theorem kind (h : c.Abreast J e d) (off : ¬ c.Met J d) (le : e ≤ J.place + 1) : c.kind = d.kind :=
  congrArg Token.Content.kind (h.content off le)

theorem met_kind (h : c.Abreast J e d) (met : c.Met J d) : c.kind = .newline := by
  have left := h.left.content
  rw [met.left, J.long_place] at left
  exact Cursor.kind_of_content (Option.some.inj left).symm

theorem met_next (h : c.Abreast J e d) (met : c.Met J d) : d.current.content ∈ J.back.head? := by
  have right := h.right.content
  rw [met.right, ← Nat.add_zero J.place, J.short_back] at right
  rwa [List.head?_eq_getElem?]

theorem off_of_kind (h : c.Abreast J e d) (other : c.kind ≠ .newline) : ¬ c.Met J d :=
  fun met => other (h.met_kind met)

theorem advance_of (h : c.Abreast J e d) (off : ¬ c.Met J d) (le : e ≤ J.place + 1)
    (more : c.kind ≠ .eof) (before : c.index = d.index → c.index + 1 < e') :
    c.advance.Abreast J e' d.advance := by
  obtain ⟨left, index⟩ := h.left.advance J.long_closed more
  obtain ⟨right, index'⟩ := h.right.advance J.short_closed (h.kind off le ▸ more)
  refine ⟨left, right, ?_⟩
  rcases h.index with ⟨same, -⟩ | ⟨apart, behind⟩
  · exact .inl ⟨by omega, by have := before same; omega⟩
  · exact .inr ⟨by omega, by omega⟩

theorem pass (h : c.Abreast J e d) (met : c.Met J d) : c.advance.Abreast J e' d := by
  obtain ⟨left, index⟩ := h.left.advance J.long_closed (by rw [h.met_kind met]; nofun)
  refine ⟨left, h.right, .inr ⟨?_, Nat.le_of_eq met.right.symm⟩⟩
  rw [index, met.left, met.right]

theorem pass_kind (h : c.Abreast J e d) (met : c.Met J d) : c.advance.kind = d.kind := by
  have passed : c.advance.Clear J d := h.pass met
  exact passed.kind passed.off (Nat.le_succ _)

theorem opening (h : c.Abreast J e d) (off : ¬ c.Met J d) (le : e ≤ J.place + 1)
    (sep : c.kind = .newline) : c.advance.Opening J d.advance := by
  have more : c.kind ≠ .eof := by rw [sep]; nofun
  refine ⟨h.advance_of off le more fun same => ?_, fun apart => ?_⟩
  · exact Nat.succ_lt_succ (h.lt_place off le same)
  · have index := (h.left.advance J.long_closed more).2
    have index' := (h.right.advance J.short_closed (h.kind off le ▸ more)).2
    have := h.index
    omega

theorem mark (h : c.Abreast J e d) (le : e ≤ J.place + 1) (start : c.kind ∈ statementStart) :
    c.mark.Matches false J.labels d.mark := by
  refine .ofIndex ?_
  have off : ¬ c.Met J d := h.off_of_kind fun eq => by rw [eq] at start; revert start; decide
  change J.labels.rel c.index d.index
  rcases h.index with ⟨same, -⟩ | ⟨apart, behind⟩
  · rw [← same]
    exact J.labels_before (h.lt_place off le same)
  · rw [apart]
    refine J.labels_behind behind fun place => ?_
    have right := h.right.content
    rw [place, ← Nat.add_zero J.place, J.short_back, ← List.head?_eq_getElem?] at right
    refine ⟨_, right, ?_⟩
    rw [← h.content off le]
    exact start

end Cursor.Abreast

namespace Cursor

variable {J : Spare} {k : Keyword} {c d c' d' : Cursor}

theorem Abreast.top_eq (h : c.Within J d) (met : c.Met J d) : J.top = J.place + 1 := by
  have le := J.top_le_place
  have index := h.index
  have left := met.left
  have right := met.right
  omega

theorem Abreast.met_ends (h : c.Within J d) (met : c.Met J d) : d.kind ∈ Token.ends :=
  J.final (h.top_eq met) (h.met_next met)

theorem Abreast.advance (h : c.Within J d) (more : c.kind ∉ [.newline, .eof]) :
    c.advance.Within J d.advance := by
  simp only [List.mem_cons, List.not_mem_nil, or_false, not_or] at more
  refine h.advance_of (h.off_of_kind more.1) J.top_le_place more.2 fun same => ?_
  have other : c.index + 1 ≠ J.top := by
    intro eq
    have sep := h.left.content.symm.trans (J.separated eq)
    exact more.1 (kind_of_content (Option.some.inj sep))
  have := h.index
  omega

theorem Abreast.kind_iff (h : c.Within J d) {x : Token.Kind} (other : x ∉ .newline :: Token.ends) :
    c.kind = x ↔ d.kind = x := by
  by_cases met : c.Met J d
  · constructor
    · intro is
      exact absurd (by simp [← is, h.met_kind met]) other
    · intro is
      exact absurd (by simp [← is, h.met_ends met]) other
  · rw [h.kind met J.top_le_place]

theorem Abreast.settled (h : c.Clear J d) : c.Settled J d :=
  ⟨h.mono J.place_le, fun met => absurd met h.off⟩

theorem Abreast.past (h : c.Within J d) (is : c.kind = .keyword k) :
    c.advance.Past J k d.advance := by
  have off := h.off_of_kind (is ▸ nofun)
  have more : c.kind ≠ .eof := is ▸ nofun
  refine ⟨h.advance (by rw [is]; simp), fun same => ?_⟩
  have index := (h.left.advance J.long_closed more).2
  have index' := (h.right.advance J.short_closed (h.kind off J.top_le_place ▸ more)).2
  have lt := h.lt_place off J.top_le_place (by omega)
  have found : J.front[c.index]? = some (.keyword k) := by
    rw [← J.long_front lt, h.left.content]
    exact congrArg some (Token.Content.eq_keyword is)
  obtain ⟨within, get⟩ := List.getElem?_eq_some_iff.1 found
  refine ⟨J.front.take c.index, J.front.drop (c.index + 1), ?_, ?_⟩
  · rw [← get, List.getElem_cons_drop within, List.take_append_drop]
  · rw [index, List.length_take, Nat.min_eq_left (Nat.le_of_lt within)]

/-- What is read behind a keyword does not reach the separator if a body would be open there. -/
theorem Past.settled (h : c.Past J k d) (within : c'.Within J d') {cs : List Token.Content}
    (read : c.rest = cs ++ c'.rest)
    (opened : .keyword k :: cs <:+ J.front → Token.BodyOpen J.front) : c'.Settled J d' := by
  refine ⟨within, fun met => Decidable.byContradiction fun more => ?_⟩
  refine J.free (within.top_eq met) (within.met_next met) more (opened ?_)
  have same : c.index = d.index := by
    have le := h.left.index_le within.left read
    have := h.index
    have := met.left
    omega
  obtain ⟨lead, line, front, index⟩ := h.behind same
  have rest : line ++ .newline :: J.back = cs ++ .newline :: J.back := by
    have ahead : J.long.drop J.place = .newline :: J.back := List.drop_left
    calc
      line ++ .newline :: J.back = J.long.drop c.index := by
        rw [index, Spare.long, front, List.append_assoc, List.cons_append, List.drop_append]
        simp
      _ = cs ++ c'.rest := h.left.trans read
      _ = cs ++ .newline :: J.back := by rw [← within.left, met.left, ahead]
  obtain rfl := List.append_cancel_right rest
  exact ⟨lead, front.symm⟩

theorem Past.begins (h : c.Past J k d) (head : k ∈ [.THEN, .ELSE]) : c.Settled J d :=
  h.settled h.toAbreast (List.nil_append _).symm (.begins head)

end Cursor

namespace Outcome.Abreast

variable {α α' β β' : Type} {R S T : Cursor → Cursor → Prop} {V : α → α' → Prop}
variable {W : β → β' → Prop} {c d : Cursor}

theorem bind {p : Rule α} {q : Rule α'} {f : α → Rule β} {g : α' → Rule β'}
    (hp : (p c).Abreast S V (q d))
    (hf : ∀ a b c' d', p c = .done a c' → q d = .done b d' → V a b → S c' d' →
      (f a c').Abreast T W (g b d')) :
    ((p >>= f) c).Abreast T W ((q >>= g) d) := by
  change (Rule.bind p f c).Abreast T W (Rule.bind q g d)
  unfold Rule.bind
  generalize p c = left at hp hf ⊢
  generalize q d = right at hp hf ⊢
  cases hp with
  | done value cursors => exact hf _ _ _ _ rfl rfl value cursors
  | failed => exact .failed _ _
  | spent => exact .spent _

theorem advance {J : Spare} {f : Token → Rule β} {g : Token → Rule β'} (cursors : c.Within J d)
    (more : c.kind ∉ [.newline, .eof])
    (hf : ∀ t u, Rule.Abreast (Cursor.Within J) T W (f t) (g u)) :
    ((Rule.advance >>= f) c).Abreast T W ((Rule.advance >>= g) d) :=
  hf _ _ _ _ (cursors.advance more)

theorem attempt {p : Rule α} {q : Rule α'} (hp : (p c).Abreast S V (q d)) :
    Rule.attempt p c = .spent ∨
    (∃ a b c' d', Rule.attempt p c = .done (some a) c' ∧ Rule.attempt q d = .done (some b) d' ∧
      V a b ∧ S c' d') ∨
    ∃ e f, Rule.attempt p c = .done none { c with abandoned := some e } ∧
      Rule.attempt q d = .done none { d with abandoned := some f } := by
  unfold Rule.attempt
  generalize p c = left at hp ⊢
  generalize q d = right at hp ⊢
  cases hp with
  | done value cursors => exact .inr (.inl ⟨_, _, _, _, rfl, rfl, value, cursors⟩)
  | failed e f => exact .inr (.inr ⟨e, f, rfl, rfl⟩)
  | spent => exact .inl rfl

theorem ifAccept {J : Spare} {x : Token.Kind} {p p' : Rule β} {q q' : Rule β'}
    (cursors : c.Within J d) (other : x ∉ .newline :: Token.ends)
    (yes : Rule.Abreast (Cursor.Within J) T W p q) (no : (p' c).Abreast T W (q' d)) :
    ((do if ← Rule.accept x then p else p') c).Abreast T W
      ((do if ← Rule.accept x then q else q') d) := by
  have same := cursors.kind_iff other
  by_cases is : c.kind = x
  · rw [bind_done (accept_pos is), bind_done (accept_pos (same.1 is))]
    exact yes _ _ (cursors.advance (is ▸ Token.not_passed other))
  · rw [bind_done (accept_neg is), bind_done (accept_neg fun there => is (same.2 there))]
    exact no

theorem ifNewline {J : Spare} {p p' : Rule β} {q q' : Rule β'} (cursors : c.Settled J d)
    (yes : Rule.Abreast (Cursor.Opening J) T W p q) (no : (p' c).Abreast T W (q' d))
    (ended : ∀ c d : Cursor, c.kind = .eof → d.kind = .eof → (p c).Abreast T W (q' d)) :
    ((do if ← Rule.accept .newline then p else p') c).Abreast T W
      ((do if ← Rule.accept .newline then q else q') d) := by
  by_cases met : c.Met J d
  · have last := cursors.ended met
    rw [bind_done (accept_pos (cursors.met_kind met)),
      bind_done (accept_neg (show d.kind ≠ .newline by rw [last]; nofun))]
    exact ended _ _ ((cursors.pass_kind met).trans last) last
  · have same := cursors.kind met J.top_le_place
    by_cases is : c.kind = .newline
    · rw [bind_done (accept_pos is), bind_done (accept_pos (same ▸ is))]
      exact yes _ _ (cursors.opening met J.top_le_place is)
    · rw [bind_done (accept_neg is), bind_done (accept_neg (same ▸ is))]
      exact no

theorem settled {J : Spare} {k : Keyword} {P : List Token.Content → α → Prop} {p : Rule α}
    {q : Rule α'} (past : c.Past J k d) (sound : p.SoundAt P c)
    (reads : (p c).Abreast (Cursor.Within J) V (q d))
    (opened : ∀ cs a, P cs a → .keyword k :: cs <:+ J.front → Token.BodyOpen J.front) :
    (p c).Abreast (Cursor.Settled J) V (q d) := by
  have sound := sound (past.left.closed J.long_closed)
  generalize p c = left at reads sound ⊢
  generalize q d = right at reads ⊢
  cases reads with
  | done value cursors =>
    obtain ⟨-, cs, read, spelt⟩ := sound _ _ rfl
    exact .done value (past.settled cursors read (opened cs _ spelt))
  | failed => exact .failed _ _
  | spent => exact .spent _

end Outcome.Abreast

namespace Rule.Abreast

variable {J : Spare} {α α' β β' : Type} {R S T : Cursor → Cursor → Prop} {V : α → α' → Prop}
variable {W : β → β' → Prop}

theorem spent (q : Rule α') : Rule.Abreast R S V (Rule.spent : Rule α) q :=
  fun _ _ _ => .spent _

theorem pure {a : α} {b : α'} (h : V a b) :
    Rule.Abreast R R V (Pure.pure a : Rule α) (Pure.pure b) :=
  fun _ _ cursors => .done h cursors

theorem unexpectedInSequence (b b' : Bool) (x : List Token.Kind) :
    Rule.Abreast R S V (Grammar.unexpectedInSequence b x : Rule α)
      (Grammar.unexpectedInSequence b' x) := by
  intro c d _
  rw [unexpectedInSequence_eq, unexpectedInSequence_eq]
  exact .failed _ _

theorem ofPast {k : Keyword} {p : Rule α} {q : Rule α'}
    (h : Rule.Abreast (Cursor.Within J) S V p q) : Rule.Abreast (Cursor.Past J k) S V p q :=
  fun c d past => h c d past.toAbreast

theorem ofSettled {p : Rule α} {q : Rule α'} (h : Rule.Abreast (Cursor.Within J) S V p q) :
    Rule.Abreast (Cursor.Settled J) S V p q :=
  fun c d cursors => h c d cursors.toAbreast

theorem ofClear {p : Rule α} {q : Rule α'} (h : Rule.Abreast (Cursor.Settled J) S V p q) :
    Rule.Abreast (Cursor.Clear J) S V p q :=
  fun c d cursors => h c d cursors.settled

theorem bind {p : Rule α} {q : Rule α'} {f : α → Rule β} {g : α' → Rule β'}
    (hp : Rule.Abreast R S V p q) (hf : ∀ a b, V a b → Rule.Abreast S T W (f a) (g b)) :
    Rule.Abreast R T W (p >>= f) (q >>= g) :=
  fun c d cursors => (hp c d cursors).bind fun a b _ _ _ _ value => hf a b value _ _

theorem ofSame {p : Rule β} {q : Rule β'}
    (refused : ∀ c d : Cursor, c.kind = .newline → d.kind ∈ Token.ends →
      (p c).Abreast T W (q d))
    (same : ∀ c d : Cursor, c.Within J d → c.current.content = d.current.content →
      (p c).Abreast T W (q d)) :
    Rule.Abreast (Cursor.Within J) T W p q := by
  intro c d cursors
  by_cases met : c.Met J d
  · exact refused c d (cursors.met_kind met) (cursors.met_ends met)
  · exact same c d cursors (cursors.content met J.top_le_place)

theorem ifAccept {x : Token.Kind} (other : x ∉ .newline :: Token.ends) {p p' : Rule β}
    {q q' : Rule β'} (yes : Rule.Abreast (Cursor.Within J) T W p q)
    (no : Rule.Abreast (Cursor.Within J) T W p' q') :
    Rule.Abreast (Cursor.Within J) T W (do if ← Rule.accept x then p else p')
      (do if ← Rule.accept x then q else q') :=
  fun c d cursors => .ifAccept cursors other yes (no c d cursors)

theorem ifKeyword {k : Keyword} {p p' : Rule β} {q q' : Rule β'}
    (yes : Rule.Abreast (Cursor.Past J k) T W p q)
    (no : Rule.Abreast (Cursor.Settled J) T W p' q') :
    Rule.Abreast (Cursor.Settled J) T W (do if ← Rule.accept (.keyword k) then p else p')
      (do if ← Rule.accept (.keyword k) then q else q') := by
  intro c d cursors
  have same : c.kind = .keyword k ↔ d.kind = .keyword k := by
    by_cases met : c.Met J d
    · rw [cursors.met_kind met, cursors.ended met]
      exact ⟨nofun, nofun⟩
    · rw [cursors.kind met J.top_le_place]
  by_cases is : c.kind = .keyword k
  · rw [bind_done (accept_pos is), bind_done (accept_pos (same.1 is))]
    exact yes _ _ (cursors.past is)
  · rw [bind_done (accept_neg is), bind_done (accept_neg fun there => is (same.2 there))]
    exact no _ _ cursors

theorem expect {x : Token.Kind} (other : x ∉ .newline :: Token.ends) (expected : List Token.Kind)
    (goes : ∀ c d : Cursor, c.Within J d → c.kind = x → S c.advance d.advance) :
    Rule.Abreast (Cursor.Within J) S (fun _ _ => True) (Rule.expect x expected)
      (Rule.expect x expected) := by
  intro c d cursors
  have same := cursors.kind_iff other
  unfold Rule.expect
  by_cases is : c.kind = x
  · rw [if_pos is, if_pos (same.1 is)]
    exact .done trivial (goes c d cursors is)
  · rw [if_neg is, if_neg fun there => is (same.2 there)]
    exact .failed _ _

theorem expectSymbol (x : Symbol) (expected : List Token.Kind) :
    Rule.Abreast (Cursor.Within J) (Cursor.Within J) (fun _ _ => True)
      (Rule.expect (.symbol x) expected) (Rule.expect (.symbol x) expected) :=
  .expect (by simp [Token.ends, Token.closers]) expected fun _ _ cursors is =>
    cursors.advance (by simp [is])

theorem expectKeyword {k : Keyword} (other : .keyword k ∉ Token.ends) (expected : List Token.Kind) :
    Rule.Abreast (Cursor.Within J) (Cursor.Past J k) (fun _ _ => True)
      (Rule.expect (.keyword k) expected) (Rule.expect (.keyword k) expected) :=
  .expect (by simpa using other) expected fun _ _ cursors is => cursors.past is

theorem name :
    Rule.Abreast (Cursor.Within J) (Cursor.Within J) Eq Rule.name Rule.name := by
  intro c d cursors
  unfold Rule.name
  by_cases met : c.Met J d
  · have left := cursors.met_kind met
    have right := cursors.met_ends met
    split
    · next is => cases (Cursor.kind_of_content is).symm.trans left
    · split
      · next is =>
        rw [Cursor.kind_of_content is] at right
        simp [Token.ends, Token.closers, Token.Content.kind] at right
      · exact .failed _ _
  · have same := cursors.content met J.top_le_place
    rw [← same]
    split
    · next is =>
      refine .done rfl (cursors.advance ?_)
      rw [Cursor.kind_of_content is]
      simp [Token.Content.kind]
    · exact .failed _ _

theorem markFrom {m n : Mark} (h : m.Matches false J.labels n) :
    Rule.Abreast R R (Mark.Matches false J.labels) (Rule.markFrom m) (Rule.markFrom n) :=
  fun _ _ cursors => .done (h.upTo _ _) cursors

theorem describing {p : Rule α} {q : Rule α'} (hp : Rule.Abreast R S V p q)
    (x y : List Token.Kind) :
    Rule.Abreast R S V (Rule.describing p x) (Rule.describing q y) := by
  intro c d cursors
  have reads := hp c d cursors
  unfold Rule.describing
  generalize p c = left at reads ⊢
  generalize q d = right at reads ⊢
  cases reads with
  | done value cursors => exact .done value cursors
  | failed => exact .failed _ _
  | spent => exact .spent _

end Rule.Abreast

end ScriptLang
