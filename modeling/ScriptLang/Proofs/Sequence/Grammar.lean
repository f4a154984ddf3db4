import ScriptLang.Proofs.Sequence.Reading

/-! Every rule of the grammar reads part of a list of tokens as it reads the whole, or else what
it reads is lost. A construct that is still open where the part ends is the only way to get lost:
its failure is passed on, or it sends a reading back to where the construct began. -/
namespace ScriptLang.Grammar

open Rule

section Rules

variable {J : Seam} {k k' fuel fuel' : Nat}

abbrev Strayed (J : Seam) : Cursor → Prop := Cursor.CutOff J.part J.Ended

abbrev Stopped (J : Seam) : Cursor → Prop := Cursor.Halted J.part J.Ended

abbrev Expressions (J : Seam) (k k' : Nat) : Prop :=
  Rule.Follows J (Strayed J) J.Trees (level k .expression) (level k' .expression)

theorem newlines_follows {n n' : Nat} (le : n ≤ n') :
    Rule.Follows J (fun c => c.At J.part ∧ J.Ended c.index) Eq (newlines n) (newlines n') := by
  induction n generalizing n' with
  | zero => exact .spent _
  | succ n ih =>
    obtain ⟨n', rfl⟩ := Nat.exists_eq_add_one_of_ne_zero (Nat.ne_zero_of_lt le)
    refine .ifNewline ?_ (.pure rfl) fun c place ended => ⟨place, ended⟩
    exact (ih (by omega)).bind (fun _ _ _ => .pure rfl) fun _ _ ended => ended

theorem unexpectedInSequence_follows {α β : Type} {V : α → β → Prop} {D : Cursor → Prop}
    (expecting : Bool) (terminators : List Token.Kind) :
    Rule.Follows J D V (unexpectedInSequence expecting terminators)
      (unexpectedInSequence expecting terminators) := by
  refine .fromHere fun c d cursors => ?_
  rcases cursors.deeper with ⟨left, right⟩ | ⟨e, f, left, right, failures⟩
  · rw [left, right]; exact .failed (cursors.failure _ _)
  · rw [left, right]; exact .failed failures

/-- A reading that may be given up: where the part ends it fails at once in both, and past its
first token it fails only as an expression. -/
theorem attempt_follows {p q : Rule Tree} (hp : Rule.Follows J (Strayed J) J.Trees p q)
    (expected : List Token.Kind)
    (refused : ∀ c d : Cursor, c.kind = .eof → d.kind = .newline → p c = .spent ∨
      (p c = .failed (c.failure expected) ∧ q d = .failed (d.failure expected)))
    (fails : ∀ (c : Cursor) (e : Failure), p c = .failed e → e.index ≠ c.index →
      level k .expression c = .failed e) :
    Rule.Follows J (Strayed J) (Option.Rel J.Trees) (attempt p) (attempt q) := by
  intro c d cursors
  by_cases ended : J.Ended c.index
  · obtain ⟨eof, newline⟩ := cursors.ended ended
    rcases refused c d (Cursor.kind_of_content eof) (Cursor.kind_of_content newline) with
      out | ⟨left, right⟩
    · rw [attempt_spent out]
      exact .lost (o := .spent) trivial _
    · rw [attempt_failed left, attempt_failed right]
      exact .done .none (cursors.givenUp (cursors.failure _ _))
  · refine .attempt cursors (hp c d cursors) (fun _ strayed => strayed) fun e failed cut => ?_
    exact .of_failed cursors.left ended (fails c e failed) cut

theorem attempt_expression_follows (le : k ≤ k') (hself : Expressions J k k') :
    Rule.Follows J (Strayed J) (Option.Rel J.Trees) (attempt (level k .expression))
      (attempt (level k' .expression)) := by
  refine attempt_follows (k := k) hself expressionStart (fun c d eof newline => ?_)
    fun _ _ failed _ => failed
  cases k with
  | zero => exact .inl rfl
  | succ k =>
    obtain ⟨k', rfl⟩ := Nat.exists_eq_add_one_of_ne_zero (Nat.ne_zero_of_lt le)
    exact .inr ⟨level_refused (by rw [eof]; decide), level_refused (by rw [newline]; decide)⟩

theorem statement_follows (le : k ≤ k') (hself : Expressions J k k') :
    Rule.Follows J (Strayed J) J.Trees (statement (level k)) (statement (level k')) := by
  refine .fromHere fun c d cursors => ?_
  have mark := cursors.mark
  by_cases ended : J.Ended c.index
  · obtain ⟨eof, newline⟩ := cursors.ended ended
    rw [Cursor.kind_of_content eof, Cursor.kind_of_content newline]
    exact hself.describing _ c d cursors
  · rw [← cursors.kind ended]
    generalize c.kind = x
    split
    · refine .advance cursors ended fun _ _ => (attempt_expression_follows le hself).bind ?_ ?_
      · rintro _ _ (same | _)
        · exact .pure (.returns (.some same) (mark.through _ _))
        · exact .pure (.returns .none mark)
      · rintro (_ | _) c strayed <;> exact strayed
    · exact .advance cursors ended fun _ _ => .pure (.continues mark)
    · exact .advance cursors ended fun _ _ => .pure (.breaks mark)
    · exact hself.describing _ c d cursors

theorem statement_failed {self : Level → Rule Tree} {c : Cursor} {e : Failure}
    (fails : statement self c = .failed e) (further : e.index ≠ c.index) :
    self .expression c = .failed e := by
  unfold statement at fails
  rw [fromHere_eq] at fails
  generalize c.kind = x at fails
  split at fails
  · rw [bind_done (show advance c = .done c.current c.advance from rfl)] at fails
    cases read : attempt (self .expression) c.advance with
    | done value c' => rw [bind_done read] at fails; cases value <;> cases fails
    | failed f => exact absurd read (attempt_ne_failed _ _ _)
    | spent => rw [bind_spent read] at fails; cases fails
  · cases fails
  · cases fails
  · exact describing_failed fails further

theorem attempt_statement_follows (le : k ≤ k') (hself : Expressions J k k') :
    Rule.Follows J (Strayed J) (Option.Rel J.Trees) (attempt (statement (level k)))
      (attempt (statement (level k'))) := by
  refine attempt_follows (k := k) (statement_follows le hself) statementStart
    (fun c d eof newline => ?_) fun _ _ => statement_failed
  cases k with
  | zero => exact .inl (by rw [statement_eq (by rw [eof]; decide)]; rfl)
  | succ k =>
    obtain ⟨k', rfl⟩ := Nat.exists_eq_add_one_of_ne_zero (Nat.ne_zero_of_lt le)
    exact .inr ⟨statement_refused (by rw [eof]; decide),
      statement_refused (by rw [newline]; decide)⟩

abbrev Sequences (J : Seam) (x y : List Tree × Bool) : Prop :=
  List.Forall₂ J.Trees x.1 y.1 ∧ x.2 = y.2

theorem statementsFrom_follows (le : k ≤ k') (more : fuel ≤ fuel') (hself : Expressions J k k')
    {n n' : Nat} (less : n ≤ n') :
    Rule.Follows J (Stopped J) (Sequences J) (statementsFrom fuel (level k) n)
      (statementsFrom fuel' (level k') n') := by
  induction n generalizing n' with
  | zero => exact .spent _
  | succ n ih =>
    obtain ⟨n', rfl⟩ := Nat.exists_eq_add_one_of_ne_zero (Nat.ne_zero_of_lt less)
    refine (attempt_statement_follows le hself).bind ?_ ?_
    · rintro _ _ (@⟨first, first', same⟩ | _)
      · refine (newlines_follows more).bind ?_ ?_
        · rintro (_ | _) _ rfl
          · exact .pure ⟨.cons same .nil, rfl⟩
          · refine (ih (by omega)).bind ?_ fun _ _ stopped => stopped
            rintro ⟨rest, expecting⟩ ⟨rest', _⟩ ⟨tail, rfl⟩
            exact .pure ⟨.cons same tail, rfl⟩
        · rintro (_ | _) c ⟨place, ended⟩
          · exact Cursor.Halted.of_ended J.ends place ended
          · exact (statementsFrom_ended J.ends place ended fuel k n).bind fun _ _ stopped => stopped
      · exact .pure ⟨.nil, rfl⟩
    · rintro (_ | first) c strayed
      · exact strayed.toHalted
      · exact strayed.lost_newlines J.ends fuel strayed.toHalted

theorem sequenceMark_matches {L : Labelling} {m n : Mark} {ts us : List Tree}
    (same : List.Forall₂ (Node.Matches (Mark.Matches false L)) ts us)
    (start : ts = [] → m.Matches false L n) :
    (sequenceMark m ts).Matches false L (sequenceMark n us) := by
  unfold sequenceMark
  cases same with
  | nil => exact start rfl
  | @cons t u ts us head tail =>
    rw [List.getLast?_eq_some_getLast (List.cons_ne_nil t ts),
      List.getLast?_eq_some_getLast (List.cons_ne_nil u us)]
    exact head.note.through _ _

theorem statements_follows (le : k ≤ k') (more : fuel ≤ fuel') (hself : Expressions J k k') :
    Rule.Follows J (Stopped J) (fun x y => J.Trees x.1 y.1 ∧ x.2 = y.2)
      (statements fuel (level k)) (statements fuel' (level k')) := by
  refine .fromHere fun c d cursors => Outcome.Follows.bind (newlines_follows more c d cursors) ?_ ?_
  · intro _ _ _
    refine (statementsFrom_follows le more hself more).bind ?_ fun _ _ stopped => stopped
    rintro ⟨nodes, expecting⟩ ⟨nodes', _⟩ ⟨same, rfl⟩
    exact .pure ⟨.block same (sequenceMark_matches same fun _ => cursors.mark), rfl⟩
  · rintro _ c ⟨place, ended⟩
    exact (statementsFrom_ended J.ends place ended fuel k fuel).bind fun _ _ stopped => stopped

theorem closedBlock_follows (le : k ≤ k') (more : fuel ≤ fuel') (hself : Expressions J k k') :
    Rule.Follows J Nowhere J.Trees (closedBlock fuel (level k)) (closedBlock fuel' (level k')) := by
  refine (statements_follows le more hself).bind ?_ ?_
  · rintro ⟨node, expecting⟩ ⟨node', _⟩ ⟨same, rfl⟩
    exact .ifAccept (by decide) (.pure same) (unexpectedInSequence_follows _ _)
  · intro _ c stopped
    exact stopped.lost_accept J.ends (by decide) (stopped.lost_unexpected J.ends _ _)

abbrev Bodies (J : Seam) (x y : Tree × Form) : Prop := J.Trees x.1 y.1 ∧ x.2 = y.2

theorem body_follows (le : k ≤ k') (more : fuel ≤ fuel') (hself : Expressions J k k') :
    Rule.Follows J (Strayed J) (Bodies J) (body fuel (level k)) (body fuel' (level k')) := by
  refine .ifNewline ?_ ((statement_follows le hself).bind ?_ ?_) ?_
  · exact (closedBlock_follows le more hself).andThen fun _ _ same => .pure ⟨same, rfl⟩
  · intro node node' same
    exact .ifAccept (by decide) (.pure ⟨same, rfl⟩) (.pure ⟨same, rfl⟩)
  · exact fun _ c strayed => strayed.lost_accept J.ends (by decide) strayed
  · intro c place ended
    exact (statement_ended (D := Nowhere) J.ends place ended k).bind fun _ _ never => never.elim

theorem otherwise_follows (le : k ≤ k') (more : fuel ≤ fuel') (hself : Expressions J k k') :
    Rule.Follows J (Strayed J) (fun x y => x.1.Matches J.Trees y.1 ∧ x.2 = y.2)
      (otherwise fuel (level k)) (otherwise fuel' (level k')) := by
  refine (body_follows le more hself).bind ?_ fun _ _ strayed => strayed
  rintro ⟨node, form⟩ ⟨node', _⟩ ⟨same, rfl⟩
  exact .pure ⟨.mk same _, rfl⟩

structure Chains (N : Tree → Tree → Prop)
    (x y : List (Arm Tree) × Option (Otherwise Tree) × Bool) : Prop where
  arms : List.Forall₂ (Arm.Matches N) x.1 y.1
  last : Option.Rel (Otherwise.Matches N) x.2.1 y.2.1
  closed : x.2.2 = y.2.2

theorem closed_matches {N : Tree → Tree → Prop} {xs ys : List (Arm Tree)}
    (same : List.Forall₂ (Arm.Matches N) xs ys) (closed : Bool) :
    List.Forall₂ (Arm.Matches N)
      (if closed then xs.map ({ · with suppress := true }) else xs)
      (if closed then ys.map ({ · with suppress := true }) else ys) := by
  cases closed with
  | false => exact same
  | true =>
    refine List.forall₂_map_left_iff.2 (List.forall₂_map_right_iff.2 (same.imp ?_))
    rintro _ _ ⟨condition, body, _⟩
    exact .mk condition body true

theorem arms_follows (le : k ≤ k') (more : fuel ≤ fuel') (hself : Expressions J k k') {n n' : Nat}
    (less : n ≤ n') :
    Rule.Follows J (Strayed J) (Chains J.Trees) (arms fuel (level k) n)
      (arms fuel' (level k') n') := by
  induction n generalizing n' with
  | zero => exact .spent _
  | succ n ih =>
    obtain ⟨n', rfl⟩ := Nat.exists_eq_add_one_of_ne_zero (Nat.ne_zero_of_lt less)
    refine hself.bind (fun c c' condition => ?_)
      fun _ _ strayed => strayed.lost_expect J.ends (by decide) _ _
    refine (Rule.Follows.expect (by decide) _).andThen fun _ _ _ => .ifNewline ?_ ?_ ?_
    · refine (statements_follows le more hself).bind ?_ fun _ _ stopped => ?_
      · rintro ⟨node, expecting⟩ ⟨node', _⟩ ⟨same, rfl⟩
        have arm : Arm.Matches J.Trees ⟨c, node, true⟩ ⟨c', node', true⟩ := .mk condition same _
        refine .ifAccept (by decide) (.pure ⟨.cons arm .nil, .none, rfl⟩)
          (.ifAccept (by decide) ?_ (.ifAccept (by decide) ?_ (unexpectedInSequence_follows _ _)))
        · refine (ih (by omega)).bind ?_ fun _ _ strayed => strayed
          rintro ⟨rest, last, closed⟩ ⟨rest', last', _⟩ ⟨tail, lasts, rfl⟩
          exact .pure ⟨.cons arm tail, lasts, rfl⟩
        · refine (otherwise_follows le more hself).bind ?_ fun _ _ strayed => strayed
          exact fun _ _ lasts => .pure ⟨.cons arm .nil, .some lasts.1, rfl⟩
      · exact stopped.lost_accept J.ends (by decide) (stopped.lost_accept J.ends (by decide)
          (stopped.lost_accept J.ends (by decide) (stopped.lost_unexpected J.ends _ _)))
    · refine (statement_follows le hself).bind (fun node node' same => ?_) fun _ _ strayed => ?_
      · have arm : Arm.Matches J.Trees ⟨c, node, false⟩ ⟨c', node', false⟩ := .mk condition same _
        refine .ifAccept (by decide) ?_ (.ifAccept (by decide) ?_ (.ifAccept (by decide) ?_ ?_))
        · refine (ih (by omega)).bind ?_ fun _ _ strayed => strayed
          rintro ⟨rest, last, closed⟩ ⟨rest', last', _⟩ ⟨tail, lasts, rfl⟩
          exact .pure ⟨.cons arm tail, lasts, rfl⟩
        · refine (otherwise_follows le more hself).bind ?_ fun _ _ strayed => strayed
          rintro ⟨last, form⟩ ⟨last', _⟩ ⟨lasts, rfl⟩
          exact .pure ⟨.cons arm .nil, .some lasts, rfl⟩
        · exact .pure ⟨.cons arm .nil, .none, rfl⟩
        · exact .pure ⟨.cons arm .nil, .none, rfl⟩
      · exact strayed.lost_accept J.ends (by decide) (strayed.lost_accept J.ends (by decide)
          (strayed.lost_accept J.ends (by decide) strayed))
    · intro c place ended
      exact (statement_ended (D := Nowhere) J.ends place ended k).bind fun _ _ never => never.elim

theorem conditional_follows (le : k ≤ k') (more : fuel ≤ fuel') (hself : Expressions J k k')
    {m n : Mark} (start : m.Matches false J.labels n) :
    Rule.Follows J (Strayed J) J.Trees (conditional fuel (level k) m)
      (conditional fuel' (level k') n) := by
  refine (arms_follows le more hself more).bind ?_ fun _ _ strayed => strayed
  rintro ⟨found, last, closed⟩ ⟨found', last', _⟩ ⟨same, lasts, rfl⟩
  exact (Rule.Follows.markFrom start).andThen fun _ _ mark =>
    .pure (.cond (closed_matches same closed) lasts mark)

theorem forLoop_follows (le : k ≤ k') (more : fuel ≤ fuel') (hself : Expressions J k k')
    {m n : Mark} (start : m.Matches false J.labels n) :
    Rule.Follows J (Strayed J) J.Trees (forLoop fuel (level k) m) (forLoop fuel' (level k') n) := by
  refine Rule.Follows.name.andThen ?_
  rintro counter _ rfl
  refine (Rule.Follows.expect (by decide) _).andThen fun _ _ _ => ?_
  refine hself.bind (fun first first' firsts => ?_)
    fun _ _ strayed => strayed.lost_expect J.ends (by decide) _ _
  refine (Rule.Follows.expect (by decide) _).andThen fun _ _ _ => ?_
  refine hself.bind (fun last last' lasts => ?_) fun _ _ strayed =>
    strayed.lost_accept J.ends (by decide) (strayed.lost_expect J.ends (by decide) _ _)
  -- what follows the step is the same whether there is one or not
  have rest (step step' : Option Tree) (steps : Option.Rel J.Trees step step') :
      Rule.Follows J (Strayed J) J.Trees
        (do
          let _ ← keyword .THEN
          let read ← body fuel (level k)
          return .forLoop counter first last step read.1 read.2.suppresses (← markFrom m))
        (do
          let _ ← keyword .THEN
          let read ← body fuel' (level k')
          return .forLoop counter first' last' step' read.1 read.2.suppresses (← markFrom n)) := by
    refine (Rule.Follows.expect (by decide) _).andThen fun _ _ _ => ?_
    refine (body_follows le more hself).bind ?_ fun _ _ strayed => strayed
    rintro ⟨node, form⟩ ⟨node', _⟩ ⟨same, rfl⟩
    exact (Rule.Follows.markFrom start).andThen fun _ _ mark =>
      .pure (.forLoop _ firsts lasts steps same _ mark)
  refine .ifAccept (by decide) ?_ ?_
  · refine Rule.Follows.bind (D := Strayed J) (V := Option.Rel J.Trees) ?_ rest
      fun _ _ strayed => strayed.lost_expect J.ends (by decide) _ _
    exact hself.bind (fun _ _ same => .pure (.some same)) fun _ _ strayed => strayed
  · exact Rule.Follows.andThen (V := Option.Rel J.Trees) (.pure .none) rest

theorem whileLoop_follows (le : k ≤ k') (more : fuel ≤ fuel') (hself : Expressions J k k')
    {m n : Mark} (start : m.Matches false J.labels n) :
    Rule.Follows J (Strayed J) J.Trees (whileLoop fuel (level k) m)
      (whileLoop fuel' (level k') n) := by
  refine hself.bind (fun c c' condition => ?_)
    fun _ _ strayed => strayed.lost_expect J.ends (by decide) _ _
  refine (Rule.Follows.expect (by decide) _).andThen fun _ _ _ => ?_
  refine (body_follows le more hself).bind ?_ fun _ _ strayed => strayed
  rintro ⟨node, form⟩ ⟨node', _⟩ ⟨same, rfl⟩
  exact (Rule.Follows.markFrom start).andThen fun _ _ mark =>
    .pure (.whileLoop condition same _ mark)

theorem moreNames_follows {n n' : Nat} (less : n ≤ n') :
    Rule.Follows J Nowhere Eq (moreNames n) (moreNames n') := by
  induction n generalizing n' with
  | zero => exact .spent _
  | succ n ih =>
    obtain ⟨n', rfl⟩ := Nat.exists_eq_add_one_of_ne_zero (Nat.ne_zero_of_lt less)
    refine .ifAccept (by decide) (Rule.Follows.name.andThen ?_) (.pure rfl)
    rintro first _ rfl
    refine (ih (by omega)).andThen ?_
    rintro rest _ rfl
    exact .pure rfl

theorem ifName_follows {α β : Type} {D : Cursor → Prop} {V : α → β → Prop} {p p' : Rule α}
    {q q' : Rule β} (yes : Rule.Follows J D V p q) (no : Rule.Follows J D V p' q') :
    Rule.Follows J D V (do if (← here).kind = .identifier then p else p')
      (do if (← here).kind = .identifier then q else q') := by
  refine .fromHere fun c d cursors => ?_
  have same : c.kind = .identifier ↔ d.kind = .identifier := by
    by_cases ended : J.Ended c.index
    · obtain ⟨eof, newline⟩ := cursors.ended ended
      rw [Cursor.kind_of_content eof, Cursor.kind_of_content newline]
      decide
    · rw [cursors.kind ended]
  by_cases is : c.kind = .identifier
  · rw [if_pos is, if_pos (same.1 is)]
    exact yes c d cursors
  · rw [if_neg is, if_neg fun there => is (same.2 there)]
    exact no c d cursors

theorem parameters_follows (more : fuel ≤ fuel') :
    Rule.Follows J Nowhere Eq (parameters fuel) (parameters fuel') := by
  refine ifName_follows (Rule.Follows.name.andThen ?_) ?_
  · rintro first _ rfl
    refine (moreNames_follows more).andThen ?_
    rintro rest _ rfl
    exact (Rule.Follows.expect (by decide) _).andThen fun _ _ _ => .pure rfl
  · exact (Rule.Follows.expect (by decide) _).andThen fun _ _ _ => .pure rfl

theorem functionHead_follows : Rule.Follows J Nowhere Eq functionHead functionHead := by
  refine ifName_follows (Rule.Follows.name.andThen ?_) ?_
  · rintro given _ rfl
    exact (Rule.Follows.expect (by decide) _).andThen fun _ _ _ => .pure rfl
  · exact (Rule.Follows.expect (by decide) _).andThen fun _ _ _ => .pure rfl

theorem function_follows (le : k ≤ k') (more : fuel ≤ fuel') (hself : Expressions J k k')
    {m n : Mark} (start : m.Matches false J.labels n) :
    Rule.Follows J (Strayed J) J.Trees (function fuel (level k) m)
      (function fuel' (level k') n) := by
  refine functionHead_follows.andThen ?_
  rintro given _ rfl
  refine (parameters_follows more).andThen ?_
  rintro params _ rfl
  refine .ifAccept (by decide) ?_ (.ifNewline ?_ (.unexpected _) ?_)
  · refine hself.bind (fun node node' same => ?_) fun _ _ strayed => strayed
    exact (Rule.Follows.markFrom start).andThen fun _ _ mark => .pure (.function _ _ same _ mark)
  · refine (closedBlock_follows le more hself).andThen fun node node' same => ?_
    exact (Rule.Follows.markFrom start).andThen fun _ _ mark => .pure (.function _ _ same _ mark)
  · exact fun c place ended => ⟨place.current, .seam ended⟩

theorem moreExpressions_follows (hself : Expressions J k k') {n n' : Nat} (less : n ≤ n') :
    Rule.Follows J (Strayed J) (List.Forall₂ J.Trees) (moreExpressions (level k) n)
      (moreExpressions (level k') n') := by
  induction n generalizing n' with
  | zero => exact .spent _
  | succ n ih =>
    obtain ⟨n', rfl⟩ := Nat.exists_eq_add_one_of_ne_zero (Nat.ne_zero_of_lt less)
    refine .ifAccept (by decide) (hself.bind (fun first first' head => ?_) fun _ _ strayed => ?_)
      (.pure .nil)
    · exact (ih (by omega)).bind (fun _ _ tail => .pure (.cons head tail)) fun _ _ strayed =>
        strayed
    · exact strayed.lost_moreExpressions J.ends strayed

theorem items_follows (more : fuel ≤ fuel') (hself : Expressions J k k') {close : Symbol}
    (closing : Token.Kind.symbol close ∉ .eof :: expressionStart) :
    Rule.Follows J Nowhere (List.Forall₂ J.Trees) (items fuel (level k) close)
      (items fuel' (level k') close) := by
  refine .ifAccept (x := .symbol close) ⟨nofun, nofun⟩ (.pure .nil) ?_
  refine (hself.describing _).bind (fun first first' head => ?_) fun _ _ strayed => ?_
  · refine (moreExpressions_follows hself more).bind (fun rest rest' tail => ?_)
      fun _ _ strayed => ?_
    · exact (Rule.Follows.expect (x := .symbol close) ⟨nofun, nofun⟩ _).andThen fun _ _ _ =>
        .pure (.cons head tail)
    · exact strayed.lost_expect J.ends closing _ _
  · exact strayed.lost_moreExpressions J.ends (strayed.lost_expect J.ends closing _ _)

theorem atom_follows (le : k ≤ k') (more : fuel ≤ fuel') (hself : Expressions J k k') :
    Rule.Follows J (Strayed J) J.Trees (atom fuel (level k)) (atom fuel' (level k')) := by
  refine .fromHere fun c d cursors => ?_
  have mark := cursors.mark
  by_cases ended : J.Ended c.index
  · obtain ⟨eof, newline⟩ := cursors.ended ended
    rw [eof, newline]
    exact .failed (cursors.failure _ _)
  · rw [← cursors.content ended]
    generalize c.current.content = x
    split
    · exact .advance cursors ended fun _ _ => .pure (.number _ mark)
    · exact .advance cursors ended fun _ _ => .pure (.number _ mark)
    · exact .advance cursors ended fun _ _ => .pure (.string _ mark)
    · exact .advance cursors ended fun _ _ => .pure (.access _ mark)
    · refine .advance cursors ended fun _ _ => hself.bind (fun inner inner' same => ?_)
        fun _ _ strayed => strayed.lost_expect J.ends (by decide) _ _
      exact (Rule.Follows.expect (by decide) _).andThen fun _ _ _ => .pure same
    · refine .advance cursors ended fun _ _ => (items_follows more hself (by decide)).andThen
        fun elements elements' same => ?_
      exact (Rule.Follows.markFrom mark).andThen fun _ _ mark => .pure (.list same mark)
    · exact .advance cursors ended fun _ _ => conditional_follows le more hself mark
    · exact .advance cursors ended fun _ _ => forLoop_follows le more hself mark
    · exact .advance cursors ended fun _ _ => whileLoop_follows le more hself mark
    · exact .advance cursors ended fun _ _ => function_follows le more hself mark
    · exact .failed (cursors.failure _ _)

theorem callsFrom_follows (more : fuel ≤ fuel') (hself : Expressions J k k') {D : Cursor → Prop}
    {n n' : Nat} (less : n ≤ n') {callee callee' : Tree} (same : J.Trees callee callee') :
    Rule.Follows J D J.Trees (callsFrom fuel (level k) n callee)
      (callsFrom fuel' (level k') n' callee') := by
  induction n generalizing n' callee callee' with
  | zero => exact .spent _
  | succ n ih =>
    obtain ⟨n', rfl⟩ := Nat.exists_eq_add_one_of_ne_zero (Nat.ne_zero_of_lt less)
    refine .ifAccept (by decide) ?_ (.pure same)
    refine (items_follows more hself (by decide)).andThen fun args args' alike => ?_
    exact (Rule.Follows.markFrom same.note).andThen fun _ _ mark =>
      ih (by omega) (.call same alike mark)

theorem BinaryOp.find_ended (ops : List BinaryOp) :
    ops.find? (·.kind = .eof) = none ∧ ops.find? (·.kind = .newline) = none := by
  constructor
  · exact List.find?_eq_none.2 fun op _ => by cases op <;> decide
  · exact List.find?_eq_none.2 fun op _ => by cases op <;> decide

theorem operandsFrom_follows {ops : List BinaryOp} {right right' : Rule Tree} {D E : Cursor → Prop}
    (hright : Rule.Follows J D J.Trees right right')
    (stray : ∀ n t c, D c → (operandsFrom ops right n t c).Lost J.part J.Ended E) {n n' : Nat}
    (less : n ≤ n') {left left' : Tree} (same : J.Trees left left') :
    Rule.Follows J E J.Trees (operandsFrom ops right n left)
      (operandsFrom ops right' n' left') := by
  induction n generalizing n' left left' with
  | zero => exact .spent _
  | succ n ih =>
    obtain ⟨n', rfl⟩ := Nat.exists_eq_add_one_of_ne_zero (Nat.ne_zero_of_lt less)
    intro c d cursors
    by_cases ended : J.Ended c.index
    · obtain ⟨eof, newline⟩ := cursors.ended ended
      have left : ops.find? (·.kind = c.kind) = none := by
        rw [Cursor.kind_of_content eof]; exact (BinaryOp.find_ended ops).1
      have right : ops.find? (·.kind = d.kind) = none := by
        rw [Cursor.kind_of_content newline]; exact (BinaryOp.find_ended ops).2
      rw [operandsFrom_stop left, operandsFrom_stop right]
      exact .done same cursors
    · cases found : ops.find? (·.kind = c.kind) with
      | none =>
        rw [operandsFrom_stop found, operandsFrom_stop (cursors.kind ended ▸ found)]
        exact .done same cursors
      | some op =>
        rw [operandsFrom_turn found, operandsFrom_turn (cursors.kind ended ▸ found)]
        refine hright.bind (fun operand operand' alike => ?_) (fun _ _ => stray n _ _) _ _
          (cursors.advance ended)
        exact ih (by omega) (.binary op same alike (same.note.through _ _))

theorem operands_follows {ops : List BinaryOp} {left left' right right' : Rule Tree}
    {C D E : Cursor → Prop} (more : fuel ≤ fuel') (hleft : Rule.Follows J C J.Trees left left')
    (hright : Rule.Follows J D J.Trees right right')
    (strayLeft : ∀ t c, C c → (operandsFrom ops right fuel t c).Lost J.part J.Ended E)
    (stray : ∀ n t c, D c → (operandsFrom ops right n t c).Lost J.part J.Ended E) :
    Rule.Follows J E J.Trees (operands fuel left ops right) (operands fuel' left' ops right') :=
  hleft.bind (fun _ _ same => operandsFrom_follows hright stray more same) strayLeft

end Rules

section Levels

variable {J : Seam} {k k' : Nat}

abbrev Astray (J : Seam) (rs : List Rung) : Cursor → Prop := Cursor.Astray J.part J.Ended rs

def Level.Stray (J : Seam) : Level → Cursor → Prop
  | .expression => Strayed J
  | .comparison => Astray J [.logic]
  | .factor => fun c => Astray J [.power, .term, .arithmetic, .chain, .logic] c ∧
      Astray J [.term, .arithmetic, .chain, .logic] c

abbrev SelfFollows (J : Seam) (k k' : Nat) : Prop :=
  ∀ l, Rule.Follows J (l.Stray J) J.Trees (level k l) (level k' l)

theorem factor_follows (le : k ≤ k') (hself : SelfFollows J k k') :
    Rule.Follows J (Level.Stray J .factor) J.Trees (factor (k + 1) (level k))
      (factor (k' + 1) (level k')) := by
  have more : k + 1 ≤ k' + 1 := by omega
  have call : Rule.Follows J (Astray J [.power, .term, .arithmetic, .chain, .logic]) J.Trees
      (call (k + 1) (level k)) (call (k' + 1) (level k')) :=
    (atom_follows le more (hself .expression)).bind
      (fun _ _ same => callsFrom_follows more (hself .expression) more same)
      fun t _ strayed => (strayed.astray J.ends).loop k (k + 1) t
  have power : Rule.Follows J (Level.Stray J .factor) J.Trees (power (k + 1) (level k))
      (power (k' + 1) (level k')) :=
    operands_follows more call (hself .factor) (fun t _ astray => astray.powers k (k + 1) t)
      fun n t _ astray => astray.1.powers k n t
  refine .fromHere fun c d cursors => ?_
  have mark := cursors.mark
  by_cases ended : J.Ended c.index
  · obtain ⟨eof, newline⟩ := cursors.ended ended
    rw [Cursor.kind_of_content eof, Cursor.kind_of_content newline]
    exact power c d cursors
  · rw [← cursors.kind ended]
    generalize c.kind = x
    split
    · refine .advance cursors ended fun _ _ => (hself .factor).bind (fun _ _ same => ?_)
        fun _ _ astray => astray
      exact .pure (.unary _ same (mark.through _ _))
    · refine .advance cursors ended fun _ _ => (hself .factor).bind (fun _ _ same => ?_)
        fun _ _ astray => astray
      exact .pure (.unary _ same (mark.through _ _))
    · exact power c d cursors

theorem arithmetic_follows (le : k ≤ k') (hself : SelfFollows J k k') :
    Rule.Follows J (Astray J [.chain, .logic]) J.Trees (arithmetic (k + 1) (level k))
      (arithmetic (k' + 1) (level k')) := by
  have more : k + 1 ≤ k' + 1 := by omega
  have factor := factor_follows le hself
  have term : Rule.Follows J (Astray J [.arithmetic, .chain, .logic]) J.Trees
      (term (k + 1) (level k)) (term (k' + 1) (level k')) :=
    operands_follows more factor factor (fun t _ astray => astray.2.loop k (k + 1) t)
      fun n t _ astray => astray.2.loop k n t
  exact operands_follows more term term (fun t _ astray => astray.loop k (k + 1) t)
    fun n t _ astray => astray.loop k n t

theorem comparison_follows (le : k ≤ k') (hself : SelfFollows J k k') :
    Rule.Follows J (Level.Stray J .comparison) J.Trees (comparison (k + 1) (level k))
      (comparison (k' + 1) (level k')) := by
  have more : k + 1 ≤ k' + 1 := by omega
  have arithmetic := arithmetic_follows le hself
  have chain : Rule.Follows J (Level.Stray J .comparison) J.Trees
      (Rung.chain.rule (k + 1) (level k)) (Rung.chain.rule (k' + 1) (level k')) :=
    operands_follows more arithmetic arithmetic (fun t _ astray => astray.loop k (k + 1) t)
      fun n t _ astray => astray.loop k n t
  refine .fromHere fun c d cursors => ?_
  have mark := cursors.mark
  by_cases ended : J.Ended c.index
  · obtain ⟨eof, newline⟩ := cursors.ended ended
    rw [Cursor.kind_of_content eof, Cursor.kind_of_content newline]
    exact chain c d cursors
  · rw [← cursors.kind ended]
    generalize c.kind = x
    split
    · refine .advance cursors ended fun _ _ => (hself .comparison).bind (fun _ _ same => ?_)
        fun _ _ astray => astray
      exact .pure (.unary _ same (mark.through _ _))
    · exact chain c d cursors

theorem expression_follows (le : k ≤ k') (hself : SelfFollows J k k') :
    Rule.Follows J (Level.Stray J .expression) J.Trees (expression (k + 1) (level k))
      (expression (k' + 1) (level k')) := by
  have more : k + 1 ≤ k' + 1 := by omega
  have comparison := comparison_follows le hself
  have logic : Rule.Follows J (Strayed J) J.Trees (Rung.logic.rule (k + 1) (level k))
      (Rung.logic.rule (k' + 1) (level k')) :=
    operands_follows more comparison comparison
      (fun t _ astray => (astray.loop k (k + 1) t).mono fun _ => Cursor.Astray.cut)
      fun n t _ astray => (astray.loop k n t).mono fun _ => Cursor.Astray.cut
  refine .fromHere fun c d cursors => ?_
  have mark := cursors.mark
  by_cases ended : J.Ended c.index
  · obtain ⟨eof, newline⟩ := cursors.ended ended
    rw [Cursor.kind_of_content eof, Cursor.kind_of_content newline]
    exact logic.describing _ c d cursors
  · rw [← cursors.kind ended]
    generalize c.kind = x
    split
    · refine .advance cursors ended fun _ _ => Rule.Follows.name.andThen ?_
      rintro target _ rfl
      refine (Rule.Follows.expect (by decide) _).andThen fun _ _ _ => ?_
      refine (hself .expression).bind (fun _ _ same => ?_) fun _ _ strayed => strayed
      exact .pure (.assign _ same (mark.through _ _))
    · exact logic.describing _ c d cursors

theorem level_follows (J : Seam) {k k' : Nat} (le : k ≤ k') : SelfFollows J k k' := by
  induction k generalizing k' with
  | zero => exact fun _ => .spent _
  | succ k ih =>
    obtain ⟨k', rfl⟩ := Nat.exists_eq_add_one_of_ne_zero (Nat.ne_zero_of_lt le)
    have self : SelfFollows J k k' := ih (by omega)
    intro l
    cases l with
    | expression => exact expression_follows (by omega) self
    | comparison => exact comparison_follows (by omega) self
    | factor => exact factor_follows (by omega) self

end Levels

end ScriptLang.Grammar
