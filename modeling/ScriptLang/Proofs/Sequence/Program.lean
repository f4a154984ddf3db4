import ScriptLang.Proofs.Phrase.Sound
import ScriptLang.Proofs.Sequence.Grammar

/-! Two programs one behind the other. If the tokens of two programs are joined by separators in
place of the first end mark, then the statements that are read from them are those of the first
program and after them those of the second. -/
namespace ScriptLang

open Grammar Rule

/-- The tokens of two programs and those of both, with separators between them. -/
structure Join where
  front : List Token.Content
  back : List Token.Content
  /-- How many separators there are besides the first. -/
  gap : Nat
  first : List Token
  second : List Token
  whole : List Token
  first_eq : first.map Token.content = front ++ [.eof]
  second_eq : second.map Token.content = back ++ [.eof]
  whole_eq : whole.map Token.content =
    front ++ (List.replicate (gap + 1) .newline ++ (back ++ [.eof]))
  inner : .eof ∉ front
  first_ascending : Token.Ascending first
  second_ascending : Token.Ascending second
  whole_ascending : Token.Ascending whole

namespace Join

variable (P : Join)

def shift : Nat := P.front.length + (P.gap + 1)

theorem first_length : P.first.length = P.front.length + 1 := by
  simpa using congrArg List.length P.first_eq

theorem second_length : P.second.length = P.back.length + 1 := by
  simpa using congrArg List.length P.second_eq

theorem whole_length : P.whole.length = P.shift + P.second.length := by
  have length := congrArg List.length P.whole_eq
  simp only [List.length_map, List.length_append, List.length_replicate, List.length_cons,
    List.length_nil] at length
  rw [length, second_length, shift]
  omega

theorem first_content {i : Nat} {t : Token} (h : P.first[i]? = some t) :
    (P.front ++ [.eof])[i]? = some t.content := by
  rw [← P.first_eq, List.getElem?_map, h]
  rfl

theorem second_content {i : Nat} {t : Token} (h : P.second[i]? = some t) :
    (P.back ++ [.eof])[i]? = some t.content := by
  rw [← P.second_eq, List.getElem?_map, h]
  rfl

theorem whole_content {i : Nat} {t : Token} (h : P.whole[i]? = some t) :
    (P.front ++ (List.replicate (P.gap + 1) .newline ++ (P.back ++ [.eof])))[i]? =
      some t.content := by
  rw [← P.whole_eq, List.getElem?_map, h]
  rfl

theorem separator {i : Nat} {t : Token} (h : P.whole[i]? = some t) (le : P.front.length ≤ i)
    (lt : i < P.shift) : t.content = .newline := by
  have content := P.whole_content h
  unfold shift at lt
  rw [List.getElem?_append_right le, List.getElem?_append_left (by simp; omega),
    List.getElem?_replicate_of_lt (by omega)] at content
  exact (Option.some.inj content).symm

theorem past_separator {c : Cursor} (place : c.At P.whole) (le : P.front.length ≤ c.index)
    (lt : c.index < P.shift) : c.kind = .newline ∧ c.advance.index = c.index + 1 := by
  refine ⟨Cursor.kind_of_content (P.separator place.current le lt), ?_⟩
  rw [Cursor.advance_index place, if_pos]
  rw [P.whole_length, P.second_length]
  omega

def left : Seam where
  part := P.first
  whole := P.whole
  shift := 0
  Ended i := i + 1 = P.first.length
  ends :=
    { ascending := P.first_ascending
      mark := by
        intro i t last found
        have content := P.first_content found
        rw [first_length] at last
        obtain rfl : i = P.front.length := by omega
        simpa using content.symm
      last := id }
  ascending := P.whole_ascending
  same := by
    intro i t u ht hu inner
    have inside := (List.getElem?_eq_some_iff.1 ht).1
    have left := P.first_content ht
    have right := P.whole_content hu
    rw [first_length] at inside inner
    rw [Nat.add_zero, List.getElem?_append_left (by omega)] at right
    rw [List.getElem?_append_left (by omega)] at left
    exact Option.some.inj (left.symm.trans right)
  separated := by
    intro i u last hu
    rw [first_length] at last
    exact P.separator hu (by omega) (by unfold shift; omega)
  goesOn := by
    intro i inside inner
    rw [first_length] at inside inner
    rw [first_length, whole_length, shift]
    omega

def right : Seam where
  part := P.second
  whole := P.whole
  shift := P.shift
  Ended _ := False
  ends := { ascending := P.second_ascending, mark := nofun, last := nofun }
  ascending := P.whole_ascending
  same := by
    intro i t u ht hu _
    have left := P.second_content ht
    have right := P.whole_content hu
    unfold shift at right
    rw [List.getElem?_append_right (by omega), List.getElem?_append_right (by simp; omega)] at right
    rw [show i + (P.front.length + (P.gap + 1)) - P.front.length -
      (List.replicate (P.gap + 1) Token.Content.newline).length = i by simp; omega] at right
    exact Option.some.inj (left.symm.trans right)
  separated := nofun
  goesOn := by
    intro i _ _
    rw [whole_length]
    omega

end Join

theorem Rule.bind_eq_done {α β : Type} {p : Rule α} {f : α → Rule β} {c c' : Cursor} {b : β}
    (h : (p >>= f) c = .done b c') : ∃ a d, p c = .done a d ∧ f a d = .done b c' := by
  cases read : p c with
  | done a d => exact ⟨a, d, rfl, (bind_done read).symm.trans h⟩
  | failed e => rw [bind_failed read] at h; cases h
  | spent => rw [bind_spent read] at h; cases h

theorem CutOff.absurd {ts : List Token} {S : Nat → Prop} (never : ∀ i, ¬ S i) {i : Nat}
    (h : CutOff ts S i) : False := by
  induction h with
  | seam ended => exact never _ ended
  | within _ _ _ _ ih => exact ih

theorem Outcome.Follows.of_done {J : Seam} {α β : Type} {D : Cursor → Prop} {V : α → β → Prop}
    {a : α} {c : Cursor} {o : Outcome β} (h : (Outcome.done a c).Follows J D V o) (kept : ¬ D c) :
    ∃ b d, o = .done b d ∧ V a b ∧ c.Follows J d := by
  cases h with
  | done value cursors => exact ⟨_, _, rfl, value, cursors⟩
  | lost lost => exact absurd lost kept

theorem newlines_at {ts : List Token} (ascending : Token.Ascending ts) {n : Nat} {c c' : Cursor}
    {b : Bool} (place : c.At ts) (read : newlines n c = .done b c') : c'.At ts := by
  have same := newlines_alike ⟨rfl, ascending, ascending⟩ n c c ⟨place, place, rfl, rfl⟩
  rw [read] at same
  cases same with
  | done _ cursor => exact cursor.left

section Joined

variable {P : Join}

theorem newlines_gap {m : Nat} {e e' : Cursor} {b : Bool} (start : e.At P.second)
    (first : e.index = 0) (fresh : e.abandoned = none) (read : newlines m e = .done b e') (g : Nat)
    {D : Cursor} (place : D.At P.whole) (index : D.index + g = P.shift)
    (inside : P.front.length ≤ D.index) (none_ : D.abandoned = none) :
    ∃ b d, newlines (g + m) D = .done b d ∧ e'.Follows P.right d := by
  induction g generalizing D with
  | zero =>
    have cursors : e.Follows P.right D :=
      ⟨start, place, by rw [first, Nat.zero_add]; exact index, by rw [fresh, none_]; exact .none⟩
    have follows := newlines_follows (Nat.le_refl m) e D cursors
    rw [read] at follows
    obtain ⟨b, d, done, -, cursors⟩ := follows.of_done fun lost => lost.2
    exact ⟨b, d, by rwa [Nat.zero_add], cursors⟩
  | succ g ih =>
    obtain ⟨sep, further⟩ := P.past_separator place inside (by omega)
    obtain ⟨b, d, done, cursors⟩ := ih place.advance (by omega) (by omega) D.advance_abandoned
    refine ⟨true, d, ?_, cursors⟩
    rw [Nat.add_right_comm]
    exact (bind_done (accept_pos sep)).trans (bind_done done)

theorem newlines_joined {m : Nat} {Q : Cursor → Prop}
    (gap : ∀ D : Cursor, D.At P.whole → D.index = P.front.length →
      ∃ d, newlines m D = .done true d ∧ Q d)
    (n : Nat) {c d c' : Cursor} {b : Bool} (cursors : c.Follows P.left d)
    (read : newlines (n + 1) c = .done b c') (ended : P.left.Ended c'.index) :
    ∃ d', newlines (n + m) d = .done true d' ∧ Q d' := by
  have stop {c d : Cursor} (cursors : c.Follows P.left d) (ended : P.left.Ended c.index) (n : Nat) :
      ∃ d', newlines (n + m) d = .done true d' ∧ Q d' := by
    have last : c.index + 1 = P.first.length := ended
    have index : d.index = c.index + 0 := cursors.index
    rw [P.first_length] at last
    obtain ⟨d', done, found⟩ := gap d cursors.right (by omega)
    refine ⟨d', ?_, found⟩
    rcases newlines_le (Nat.le_add_left m n) d with out | same
    · rw [done] at out; cases out
    · rw [← same, done]
  induction n generalizing c d b with
  | zero =>
    by_cases sep : c.kind = .newline
    · cases (bind_done (accept_pos sep)).symm.trans read
    · cases (bind_done (accept_neg sep)).symm.trans read
      exact stop cursors ended 0
  | succ n ih =>
    by_cases sep : c.kind = .newline
    · have inner : ¬ P.left.Ended c.index := cursors.not_ended (by rw [sep]; decide)
      obtain ⟨_, _, rest, same⟩ := bind_eq_done ((bind_done (accept_pos sep)).symm.trans read)
      cases same
      obtain ⟨d', done, found⟩ := ih (cursors.advance inner) rest
      refine ⟨d', ?_, found⟩
      rw [Nat.add_right_comm]
      exact (bind_done (accept_pos (cursors.kind inner ▸ sep))).trans (bind_done done)
    · cases (bind_done (accept_neg sep)).symm.trans read
      exact stop cursors ended (n + 1)

theorem attempt_none {α : Type} {p : Rule α} {c c' : Cursor} (h : attempt p c = .done none c') :
    c'.index = c.index := by
  unfold attempt at h
  cases read : p c with
  | failed e => rw [read] at h; cases h; rfl
  | _ => rw [read] at h; cases h

theorem attempt_some {α : Type} {p : Rule α} {c c' : Cursor} {a : α}
    (h : attempt p c = .done (some a) c') : p c = .done a c' := by
  unfold attempt at h
  cases read : p c with
  | done b d => rw [read] at h; cases h; rfl
  | _ => rw [read] at h; cases h

theorem statementsFrom_nil {k n : Nat} {c c' : Cursor} {xs : List Tree} {b : Bool}
    (place : c.At P.first) (ended : P.left.Ended c.index)
    (read : statementsFrom k (level k) n c = .done (xs, b) c') : xs = [] := by
  cases n with
  | zero => cases read
  | succ n =>
    obtain ⟨first, c₁, tried, rest⟩ := bind_eq_done read
    cases first with
    | none => cases rest; rfl
    | some t =>
      have lost := statement_ended (D := Nowhere) P.left.ends place ended k
      rw [attempt_some tried] at lost
      exact lost.elim

theorem statementsFrom_cons {k n : Nat} {c c₁ c₂ c₃ : Cursor} {t : Tree} {ts : List Tree}
    {b : Bool} (tried : attempt (statement (level k)) c = .done (some t) c₁)
    (separated : newlines k c₁ = .done true c₂)
    (rest : statementsFrom k (level k) n c₂ = .done (ts, b) c₃) :
    statementsFrom k (level k) (n + 1) c = .done (t :: ts, b) c₃ := by
  rw [statementsFrom, bind_done tried]
  exact (bind_done separated).trans (bind_done rest)

theorem statementsFrom_joined {k K n m : Nat} {R : List Tree → Cursor → Prop} {Q : Cursor → Prop}
    (le : k ≤ K) (hself : Expressions P.left k K)
    (seam : ∀ c d c' b, c.Follows P.left d → newlines k c = .done b c' → P.left.Ended c'.index →
      ∃ d', newlines K d = .done true d' ∧ Q d')
    (second : ∀ d n, Q d → m ≤ n →
      ∃ ys more d', statementsFrom K (level K) n d = .done (ys, more) d' ∧ R ys d')
    {c d c' : Cursor} {xs : List Tree} {b : Bool} (cursors : c.Follows P.left d)
    (inner : ¬ P.left.Ended c.index) (read : statementsFrom k (level k) n c = .done (xs, b) c')
    (ended : P.left.Ended c'.index) :
    ∃ xs' ys more d', statementsFrom K (level K) (n + m) d = .done (xs' ++ ys, more) d' ∧
      List.Forall₂ P.left.Trees xs xs' ∧ R ys d' := by
  induction n generalizing c d xs b with
  | zero => cases read
  | succ n ih =>
    obtain ⟨first, c₁, tried, rest⟩ := bind_eq_done read
    cases first with
    | none =>
      cases rest
      exact absurd (attempt_none tried ▸ ended) inner
    | some t =>
      -- a statement that got lost would not be followed by the end
      have kept : ¬ Strayed P.left c₁ := by
        intro strayed
        have lost : (Outcome.done (xs, b) c').Lost P.first P.left.Ended (Strayed P.left) := by
          rw [← rest]
          exact strayed.lost_newlines P.left.ends k strayed
        exact lost.inner ended
      have follows := attempt_statement_follows le hself c d cursors
      rw [tried] at follows
      obtain ⟨_, d₁, tried', @⟨_, t', same⟩ | _, cursors₁⟩ := follows.of_done kept
      obtain ⟨more, c₂, separated, rest⟩ := bind_eq_done rest
      have follows₁ := newlines_follows le c₁ d₁ cursors₁
      rw [separated] at follows₁
      by_cases ended₂ : P.left.Ended c₂.index
      · obtain ⟨d₂, separated', found⟩ := seam c₁ d₁ c₂ more cursors₁ separated ended₂
        obtain ⟨ys, more', d₃, rest', tail⟩ := second d₂ (n + m) found (Nat.le_add_left m n)
        have place : c₂.At P.first := newlines_at P.first_ascending cursors₁.left separated
        have single : xs = [t] := by
          cases more with
          | false => cases rest; rfl
          | true =>
            obtain ⟨⟨ws, _⟩, c₃, last, eq⟩ := bind_eq_done rest
            cases eq
            rw [statementsFrom_nil place ended₂ last]
        refine ⟨[t'], ys, more', d₃, ?_, ?_, tail⟩
        · rw [Nat.add_right_comm]
          exact statementsFrom_cons tried' separated' rest'
        · rw [single]
          exact .cons same .nil
      · obtain ⟨_, d₂, separated', rfl, cursors₂⟩ := follows₁.of_done fun lost => ended₂ lost.2
        cases more with
        | false => cases rest; exact absurd ended ended₂
        | true =>
          obtain ⟨⟨ws, _⟩, c₃, last, eq⟩ := bind_eq_done rest
          cases eq
          obtain ⟨xs', ys, more', d₃, rest', sames, tail⟩ := ih cursors₂ ended₂ last
          refine ⟨t' :: xs', ys, more', d₃, ?_, .cons same sames, tail⟩
          rw [Nat.add_right_comm]
          exact statementsFrom_cons tried' separated' rest'

theorem program_statements {fuel : Nat} {c c' : Cursor} {t : Tree}
    (h : program fuel c = .done t c') : ∃ b c₁ xs more, newlines fuel c = .done b c₁ ∧
      statementsFrom fuel (level fuel) fuel c₁ = .done (xs, more) c' ∧
      t = .block xs (sequenceMark c.mark xs) ∧ c'.kind = .eof := by
  obtain ⟨more, read, eof⟩ := program_done h
  obtain ⟨b, c₁, separated, read⟩ := bind_eq_done ((fromHere_eq _).symm.trans read)
  obtain ⟨⟨xs, _⟩, c₂, found, eq⟩ := bind_eq_done read
  cases eq
  exact ⟨b, c₁, xs, more, separated, found, rfl, eof⟩

theorem program_of_statements {fuel : Nat} {c c₁ c₂ : Cursor} {b more : Bool} {xs : List Tree}
    (separated : newlines fuel c = .done b c₁)
    (found : statementsFrom fuel (level fuel) fuel c₁ = .done (xs, more) c₂)
    (eof : c₂.kind = .eof) :
    program fuel c = .done (.block xs (sequenceMark c.mark xs)) c₂ := by
  have read : statements fuel (level fuel) c =
      .done (.block xs (sequenceMark c.mark xs), more) c₂ :=
    (fromHere_eq _).trans ((bind_done separated).trans (bind_done found))
  refine (bind_done read).trans ((fromHere_eq _).trans ?_)
  rw [if_pos eof]
  rfl

end Joined

theorem parse_cons_eq_ok {t : Token} {ts : List Token} {n : Tree} :
    parse (t :: ts) = .ok n ↔ ∃ c, program (t :: ts).length (.ofTokens t ts) = .done n c := by
  simp only [parse, List.length_cons]
  cases program (ts.length + 1) (.ofTokens t ts) <;> simp

theorem Cursor.At.ofTokens (t : Token) (ts : List Token) : (Cursor.ofTokens t ts).At (t :: ts) :=
  ⟨rfl, rfl, by simp [Cursor.ofTokens]⟩

theorem Join.exists_cons (P : Join) :
    (∃ t ts, P.first = t :: ts) ∧ (∃ t ts, P.second = t :: ts) ∧ ∃ t ts, P.whole = t :: ts := by
  have pos {ts : List Token} (h : ts.length ≠ 0) : ∃ t us, ts = t :: us :=
    List.exists_cons_of_length_pos (Nat.pos_of_ne_zero h)
  have first := P.first_length
  have second := P.second_length
  have whole := P.whole_length
  exact ⟨pos (by omega), pos (by omega), pos (by omega)⟩

theorem Join.ended_of_eof (P : Join) {c : Cursor} (place : c.At P.first) (eof : c.kind = .eof) :
    P.left.Ended c.index := by
  have content := P.first_content place.current
  rw [Token.Content.eq_eof eof] at content
  have inside := (List.getElem?_eq_some_iff.1 place.current).1
  change c.index + 1 = P.first.length
  rw [P.first_length] at inside ⊢
  refine Decidable.byContradiction fun early => P.inner ?_
  rw [List.getElem?_append_left (by omega)] at content
  exact List.mem_of_getElem? content

theorem Join.newlines_seam (P : Join) {e e₁ : Cursor} {b : Bool} (start : e.At P.second)
    (first : e.index = 0) (fresh : e.abandoned = none)
    (read : newlines P.second.length e = .done b e₁) (c d c' : Cursor) (b' : Bool)
    (cursors : c.Follows P.left d) (separated : newlines P.first.length c = .done b' c')
    (ended : P.left.Ended c'.index) :
    ∃ d', newlines P.whole.length d = .done true d' ∧ e₁.Follows P.right d' := by
  have gap (D : Cursor) (place : D.At P.whole) (index : D.index = P.front.length) :
      ∃ d, newlines (P.gap + P.second.length + 1) D = .done true d ∧ e₁.Follows P.right d := by
    have shift : P.shift = P.front.length + (P.gap + 1) := rfl
    obtain ⟨sep, further⟩ := P.past_separator place (by omega) (by omega)
    obtain ⟨b, d, done, cursors⟩ := newlines_gap start first fresh read P.gap place.advance
      (by omega) (by omega) D.advance_abandoned
    exact ⟨d, (bind_done (accept_pos sep)).trans (bind_done done), cursors⟩
  rw [P.first_length] at separated
  have length : P.whole.length = P.front.length + (P.gap + P.second.length + 1) := by
    rw [P.whole_length, shift]
    omega
  rw [length]
  exact newlines_joined gap P.front.length cursors separated ended

theorem Join.second_statements (P : Join) {e e' : Cursor} {ys : List Tree} {more : Bool}
    (read : statementsFrom P.second.length (level P.second.length) P.second.length e =
      .done (ys, more) e') (eof : e'.kind = .eof) (d : Cursor) (n : Nat)
    (cursors : e.Follows P.right d) (le : P.gap + P.second.length ≤ n) :
    ∃ ys' more' d', statementsFrom P.whole.length (level P.whole.length) n d =
      .done (ys', more') d' ∧ List.Forall₂ P.right.Trees ys ys' ∧ d'.kind = .eof := by
  have length : P.second.length ≤ P.whole.length := by
    rw [P.whole_length]
    omega
  have follows := statementsFrom_follows length length (level_follows P.right length .expression)
    (show P.second.length ≤ n by omega) e d cursors
  rw [read] at follows
  obtain ⟨⟨ys', more'⟩, d', done, ⟨same, -⟩, cursors'⟩ :=
    follows.of_done fun lost => lost.cut.absurd fun _ => id
  exact ⟨ys', more', d', done, same, cursors'.kind id ▸ eof⟩

theorem Join.parse_eq (P : Join) {t u : Tree} (left : parse P.first = .ok t)
    (right : parse P.second = .ok u) : ∃ xs ys xs' ys' m m' n, t = .block xs m ∧ u = .block ys m' ∧
      parse P.whole = .ok (.block (xs' ++ ys') n) ∧
      List.Forall₂ P.left.Trees xs xs' ∧ List.Forall₂ P.right.Trees ys ys' := by
  obtain ⟨⟨a, as, first⟩, ⟨b, bs, second⟩, ⟨w, ws, whole⟩⟩ := P.exists_cons
  rw [first, parse_cons_eq_ok, ← first] at left
  rw [second, parse_cons_eq_ok, ← second] at right
  rw [whole]
  simp only [parse_cons_eq_ok]
  rw [← whole]
  obtain ⟨c', left⟩ := left
  obtain ⟨e', right⟩ := right
  have hc : (Cursor.ofTokens a as).At P.first := first ▸ .ofTokens a as
  have hd : (Cursor.ofTokens w ws).At P.whole := whole ▸ .ofTokens w ws
  have he : (Cursor.ofTokens b bs).At P.second := second ▸ .ofTokens b bs
  have cursors : (Cursor.ofTokens a as).Follows P.left (Cursor.ofTokens w ws) :=
    ⟨hc, hd, rfl, .none⟩
  have last : P.left.Ended c'.index := by
    have twin : Token.Twin P.first P.first := ⟨rfl, P.first_ascending, P.first_ascending⟩
    have same := program_alike twin P.first.length _ _ ⟨hc, hc, rfl, rfl⟩
    rw [left] at same
    cases same with
    | done _ cursor => exact P.ended_of_eof cursor.left (program_done left).choose_spec.2
  obtain ⟨b₁, c₁, xs, more, separated, found, rfl, -⟩ := program_statements left
  obtain ⟨b₂, e₁, ys, more', separated', found', rfl, eof⟩ := program_statements right
  have seam := P.newlines_seam he rfl rfl separated'
  have behind := P.second_statements found' eof
  have length : P.whole.length = P.first.length + (P.gap + P.second.length) := by
    rw [P.whole_length, P.first_length, shift]
    omega
  have le : P.first.length ≤ P.whole.length := by omega
  by_cases ended : P.left.Ended c₁.index
  · -- the first program is empty
    obtain ⟨d₁, separated₁, behind_⟩ := seam _ _ _ _ cursors separated ended
    obtain ⟨ys', more₂, d₂, found₂, same, eof₂⟩ := behind d₁ P.whole.length behind_ (by omega)
    obtain rfl : xs = [] :=
      statementsFrom_nil (newlines_at P.first_ascending hc separated) ended found
    exact ⟨[], ys, [], ys', _, _, _, rfl, rfl, ⟨d₂, program_of_statements separated₁ found₂ eof₂⟩,
      .nil, same⟩
  · have follows := newlines_follows le _ _ cursors
    rw [separated] at follows
    obtain ⟨b₁', d₁, separated₁, -, cursors₁⟩ := follows.of_done fun lost => ended lost.2
    obtain ⟨xs', ys', more₂, d₂, found₂, sames, same, eof₂⟩ :=
      statementsFrom_joined le (level_follows P.left le .expression) seam behind cursors₁ ended
        found last
    rw [← length] at found₂
    exact ⟨xs, ys, xs', ys', _, _, _, rfl, rfl, ⟨d₂, program_of_statements separated₁ found₂ eof₂⟩,
      sames, same⟩

end ScriptLang
