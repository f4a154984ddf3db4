import ScriptLang.Proofs.Separator.Reading

/-! Every rule of the grammar reads a program in the same way without a separator that can be
spared. Only sequences of statements read separators without looking at what they read, and so only
they go past the one that is spared. The rules for bodies look for separators and for what closes a
block; if one of them did so at the separator, a body would be open there. -/
namespace ScriptLang.Grammar

open Rule

section Sequences

variable {J : Spare} {k fuel e : Nat}

abbrev SelfAbreast (J : Spare) (k : Nat) : Prop :=
  ∀ l, Rule.Abreast (Cursor.Within J) (Cursor.Within J) J.Trees (level k l) (level k l)

theorem newlines_abreast (n : Nat) {c d : Cursor} (h : c.Abreast J (J.place + 1) d) :
    (newlines n c).Abreast (Cursor.Clear J) (fun b b' => ¬ c.Met J d → b = b') (newlines n d) := by
  induction n generalizing c d with
  | zero => exact .spent _
  | succ n ih =>
    by_cases met : c.Met J d
    · -- the first cursor takes a separator more, and a step
      have left : newlines (n + 1) c = (newlines n >>= fun _ => pure true) c.advance :=
        bind_done (accept_pos (h.met_kind met))
      have right : newlines (n + 1) d = (newlines (n + 1) >>= pure) d := by rw [bind_pure]
      have rest := ih (h.pass met)
      rcases newlines_le (Nat.le_succ n) d with out | same
      · have spent : newlines n c.advance = .spent := by
          rw [out] at rest
          generalize newlines n c.advance = x at rest
          cases rest
          rfl
        rw [left, bind_spent spent]
        exact .spent _
      · rw [same] at rest
        rw [left, right]
        exact rest.bind fun _ _ _ _ _ _ _ cursors => .done (fun off => absurd met off) cursors
    · have kinds := h.kind met (Nat.le_refl _)
      unfold newlines
      by_cases sep : c.kind = .newline
      · rw [bind_done (accept_pos sep), bind_done (accept_pos (kinds ▸ sep))]
        exact (ih (h.opening met (Nat.le_refl _) sep).toAbreast).bind
          fun _ _ _ _ _ _ _ cursors => .done (fun _ => rfl) cursors
      · rw [bind_done (accept_neg sep), bind_done (accept_neg (kinds ▸ sep))]
        exact .done (fun _ => rfl) (h.clear met (Nat.le_refl _))

theorem newlines_met {c d : Cursor} (h : c.Abreast J e d) (met : c.Met J d)
    (next : d.kind ≠ .newline) (n : Nat) :
    newlines n c = .spent ∨
      (newlines n c = .done true c.advance ∧ newlines n d = .done false d) := by
  have left (n : Nat) : newlines (n + 1) c = (newlines n >>= fun _ => pure true) c.advance :=
    bind_done (accept_pos (h.met_kind met))
  have stop {c : Cursor} (other : c.kind ≠ .newline) (n : Nat) :
      newlines (n + 1) c = .done false c :=
    bind_done (accept_neg other)
  match n with
  | 0 => exact .inl rfl
  | 1 => exact .inl ((left 0).trans rfl)
  | n + 2 =>
    have passed := stop (h.pass_kind met ▸ next) n
    exact .inr ⟨(left (n + 1)).trans (bind_done passed), stop next (n + 1)⟩

theorem attempt_abreast {α β : Type} {V : α → β → Prop} {p : Rule α} {q : Rule β}
    (hp : Rule.Abreast (Cursor.Within J) (Cursor.Within J) V p q) :
    Rule.Abreast (Cursor.Within J) (Cursor.Within J) (Option.Rel V) (attempt p)
      (attempt q) := by
  intro c d cursors
  rcases (hp c d cursors).attempt with out | ⟨a, b, c', d', left, right, value, cursors'⟩ |
    ⟨e, f, left, right⟩
  · rw [out]
    exact .spent _
  · rw [left, right]
    exact .done (.some value) cursors'
  · rw [left, right]
    exact .done .none (cursors.givenUp _ _)

theorem not_start {x : Token.Kind} (h : x ∈ .newline :: Token.ends) : x ∉ statementStart := by
  revert x
  decide

def Refuses {α : Type} (k : Nat) (o : Outcome α) : Prop :=
  o = .spent ∨ (k ≠ 0 ∧ ∃ e, o = .failed e)

theorem Refuses.bind {α β : Type} {p : Rule α} {c : Cursor} (h : Refuses k (p c))
    (f : α → Rule β) : Refuses k ((p >>= f) c) := by
  rcases h with out | ⟨pos, e, failed⟩
  · exact .inl (bind_spent out)
  · exact .inr ⟨pos, e, bind_failed failed⟩

theorem Refuses.abreast {α β : Type} {S : Cursor → Cursor → Prop} {V : α → β → Prop}
    {o : Outcome α} {o' : Outcome β} (h : Refuses k o) (fails : k ≠ 0 → ∃ e, o' = .failed e) :
    o.Abreast S V o' := by
  rcases h with rfl | ⟨pos, e, rfl⟩
  · exact .spent _
  · obtain ⟨f, rfl⟩ := fails pos
    exact .failed _ _

theorem statement_fails {c : Cursor} (h : c.kind ∉ statementStart) (pos : k ≠ 0) :
    ∃ e, statement (level k) c = .failed e := by
  obtain ⟨k, rfl⟩ := Nat.exists_eq_succ_of_ne_zero pos
  exact ⟨_, statement_refused h⟩

theorem statement_refuses {c : Cursor} (h : c.kind ∉ statementStart) :
    Refuses k (statement (level k) c) := by
  by_cases zero : k = 0
  · subst zero
    rw [statement_eq fun mem => h (List.mem_append_left _ mem)]
    exact .inl rfl
  · exact .inr ⟨zero, statement_fails h zero⟩

theorem statement_abreast (hself : SelfAbreast J k) :
    Rule.Abreast (Cursor.Within J) (Cursor.Within J) J.Trees (statement (level k))
      (statement (level k)) := by
  refine .ofSame (fun c d left right => ?_) fun c d cursors same => ?_
  · exact (statement_refuses (not_start (by simp [left]))).abreast
      (statement_fails (not_start (by simp [right])))
  · have kinds : c.kind = d.kind := congrArg Token.Content.kind same
    unfold statement
    rw [fromHere_eq, fromHere_eq, ← kinds]
    generalize kind : c.kind = x
    split
    · have mark := cursors.mark J.top_le_place (by rw [kind]; decide)
      refine .advance cursors (by rw [kind]; decide) fun _ _ => ?_
      refine (attempt_abreast (hself .expression)).bind ?_
      rintro _ _ (same | _)
      · exact .pure (.returns (.some same) (mark.through _ _))
      · exact .pure (.returns .none mark)
    · have mark := cursors.mark J.top_le_place (by rw [kind]; decide)
      exact .advance cursors (by rw [kind]; decide) fun _ _ => .pure (.continues mark)
    · have mark := cursors.mark J.top_le_place (by rw [kind]; decide)
      exact .advance cursors (by rw [kind]; decide) fun _ _ => .pure (.breaks mark)
    · exact (hself .expression).describing _ _ c d cursors

theorem statementsFrom_refused {c : Cursor} (h : c.kind ∉ statementStart) (fuel k n : Nat) :
    statementsFrom fuel (level k) n c = .spent ∨ (k ≠ 0 ∧ ∃ e,
      statementsFrom fuel (level k) n c = .done ([], true) { c with abandoned := some e }) := by
  cases n with
  | zero => exact .inl rfl
  | succ n =>
    rcases statement_refuses h with out | ⟨pos, e, failed⟩
    · exact .inl (bind_spent (attempt_spent out))
    · exact .inr ⟨pos, e, bind_done (attempt_failed failed)⟩

theorem statementsFrom_abreast (hself : SelfAbreast J k) (n : Nat) :
    Rule.Abreast (Cursor.Clear J) (Cursor.Clear J) (fun x y => List.Forall₂ J.Trees x.1 y.1)
      (statementsFrom fuel (level k) n) (statementsFrom fuel (level k) n) := by
  induction n with
  | zero => exact .spent _
  | succ n ih =>
    intro c d cursors
    have read := statement_abreast hself c d (cursors.mono J.place_le)
    rcases read.attempt with out | ⟨t, u, c₁, d₁, left, right, same, cursors₁⟩ | ⟨e, f, left, right⟩
    · rw [show statementsFrom fuel (level k) (n + 1) c = .spent from bind_spent out]
      exact .spent _
    · rw [statementsFrom, bind_done left, bind_done right]
      dsimp only
      by_cases met : c₁.Met J d₁
      · -- the separator behind the last statement is read, but no statement after it
        have ends : d₁.kind ∈ Token.ends := cursors₁.met_ends met
        have next : d₁.kind ≠ .newline := fun eq => by rw [eq] at ends; revert ends; decide
        rcases newlines_met cursors₁ met next fuel with out | ⟨passed, stopped⟩
        · rw [bind_spent out]
          exact .spent _
        · rw [bind_done passed, bind_done stopped]
          have refused : c₁.advance.kind ∉ statementStart :=
            not_start (by simp [cursors₁.pass_kind met, ends])
          rcases statementsFrom_refused refused fuel k n with out | ⟨-, e, none⟩
          · rw [if_pos rfl, bind_spent out]
            exact .spent _
          · rw [if_pos rfl, bind_done none]
            exact .done (.cons same .nil) ((cursors₁.pass met).givenUp _ d₁.abandoned)
      · refine (newlines_abreast fuel (cursors₁.mono J.top_le_place)).bind ?_
        rintro b b' c₂ d₂ - - eq cursors₂
        obtain rfl := eq met
        cases b with
        | false => exact .done (.cons same .nil) cursors₂
        | true =>
          exact (ih c₂ d₂ cursors₂).bind fun _ _ _ _ _ _ tail cursors₃ =>
            .done (.cons same tail) cursors₃
    · rw [statementsFrom, bind_done left, bind_done right]
      exact .done .nil (cursors.givenUp _ _)

theorem statementsFrom_empty {self : Level → Rule Tree} {n : Nat} {c c' : Cursor}
    {x : List Tree × Bool} (read : statementsFrom fuel self n c = .done x c') (empty : x.1 = []) :
    c'.kind = c.kind := by
  cases n with
  | zero => cases read
  | succ n =>
    obtain ⟨first, c₁, tried, rest⟩ := bind_eq_done read
    cases first with
    | none =>
      cases rest
      unfold attempt at tried
      cases failed : statement self c with
      | failed e => rw [failed] at tried; cases tried; rfl
      | _ => rw [failed] at tried; cases tried
    | some t =>
      obtain ⟨more, c₂, -, rest⟩ := bind_eq_done rest
      cases more with
      | false => cases rest; cases empty
      | true =>
        obtain ⟨y, c₃, -, eq⟩ := bind_eq_done rest
        cases eq
        cases empty

theorem Opening.mark {c d : Cursor} (h : c.Opening J d) (idle : c.Met J d → ¬ J.Starts) :
    c.mark.Matches false J.labels d.mark := by
  refine .ofIndex ?_
  change J.labels.rel c.index d.index
  by_cases met : c.Met J d
  · rw [met.left, met.right]
    exact J.labels_place (idle met)
  · rcases h.index with ⟨same, -⟩ | ⟨apart, behind⟩
    · rw [← same]
      exact J.labels_before (h.lt_place met (Nat.le_refl _) same)
    · have further := h.further apart
      rw [apart]
      exact J.labels_behind behind fun place => absurd place (by omega)

/-- Statements and what goes on behind them. If a statement begins there that cannot be read, then
nothing goes on. -/
theorem statements_abreast {α β : Type} {S : Cursor → Cursor → Prop} {V : α → β → Prop}
    {f : Tree × Bool → Rule α} {g : Tree × Bool → Rule β} (hself : SelfAbreast J k)
    (goes : ∀ t u b b', J.Trees t u → Rule.Abreast (Cursor.Clear J) S V (f (t, b)) (g (u, b')))
    (stuck : ∀ x (c : Cursor), c.kind ∈ statementStart → ∃ e, f x c = .failed e)
    (stuck' : ∀ x (c : Cursor), c.kind ∈ statementStart → ∃ e, g x c = .failed e) :
    Rule.Abreast (Cursor.Opening J) S V (statements fuel (level k) >>= f)
      (statements fuel (level k) >>= g) := by
  intro c d h
  have parts {γ : Type} (f : Tree × Bool → Rule γ) (c : Cursor) :
      (statements fuel (level k) >>= f) c = (newlines fuel >>= fun _ =>
        statementsFrom fuel (level k) fuel >>= fun x =>
          f (.block x.1 (sequenceMark c.mark x.1), x.2)) c := by
    unfold statements
    simp only [bind_assoc, pure_bind]
    exact fromHere_eq _
  rw [parts, parts]
  refine (newlines_abreast fuel h.toAbreast).bind fun _ _ c₁ d₁ left right _ cursors₁ => ?_
  refine (statementsFrom_abreast hself fuel c₁ d₁ cursors₁).bind
    fun x y c₂ d₂ found found' same cursors₂ => ?_
  by_cases stopped : x.1 = [] ∧ c.Met J d ∧ J.Starts
  · obtain ⟨empty, met, z, next, start⟩ := stopped
    have seen : d.kind ∈ statementStart := by
      have := Option.mem_unique next (h.met_next met)
      rwa [this] at start
    have other : d.kind ≠ .newline := fun eq => by rw [eq] at seen; revert seen; decide
    rcases newlines_met h.toAbreast met other fuel with out | ⟨passed, stayed⟩
    · rw [left] at out
      cases out
    · cases left.symm.trans passed
      cases right.symm.trans stayed
      have empty' : y.1 = [] := by
        rw [empty] at same
        exact List.forall₂_nil_left_iff.1 same
      obtain ⟨e, failed⟩ := stuck (.block x.1 (sequenceMark c.mark x.1), x.2) c₂
        (by rwa [statementsFrom_empty found empty, h.pass_kind met])
      obtain ⟨f, failed'⟩ := stuck' (.block y.1 (sequenceMark d.mark y.1), y.2) d₂
        (by rwa [statementsFrom_empty found' empty'])
      rw [failed, failed']
      exact .failed _ _
  · refine goes _ _ _ _ (.block same (sequenceMark_matches same fun empty => ?_)) c₂ d₂ cursors₂
    exact Opening.mark h fun met starts => stopped ⟨empty, met, starts⟩

theorem statements_refuses {α : Type} {f : Tree × Bool → Rule α} {c : Cursor} (h : c.kind = .eof)
    (fails : ∀ x (c : Cursor), c.kind = .eof → ∃ e, f x c = .failed e) :
    Refuses k ((statements fuel (level k) >>= f) c) := by
  cases fuel with
  | zero => exact .inl rfl
  | succ fuel =>
    have separated : newlines (fuel + 1) c = .done false c :=
      bind_done (accept_neg (by rw [h]; nofun))
    have unread := statementsFrom_refused (c := c) (not_start (by rw [h]; decide)) (fuel + 1) k
      (fuel + 1)
    unfold statements
    simp only [bind_assoc, pure_bind]
    rw [fromHere_eq, bind_done separated]
    rcases unread with out | ⟨pos, e, none⟩
    · exact .inl (bind_spent out)
    · rw [bind_done none]
      exact .inr ⟨pos, fails _ _ h⟩

theorem ifAccept_neg {α : Type} {x : Token.Kind} {c : Cursor} (h : c.kind ≠ x) {p q : Rule α} :
    (do if ← accept x then p else q : Rule α) c = q c :=
  bind_done (accept_neg h)

theorem not_closer {x : Token.Kind} (h : x ∈ .eof :: statementStart) : x ∉ Token.closers := by
  revert x
  decide

theorem ifEnd_fails {α : Type} {p : Rule α} {c : Cursor} (h : c.kind ∉ Token.closers)
    (expecting : Bool) (expected : List Token.Kind) :
    ∃ e, (do
      if ← accept (.keyword .END) then p
      else unexpectedInSequence expecting expected : Rule α) c = .failed e := by
  have other : c.kind ≠ .keyword .END := fun eq => h (by rw [eq]; decide)
  exact ⟨_, (ifAccept_neg other).trans (unexpectedInSequence_eq _ _ _)⟩

theorem ifCloser_fails {α : Type} {p q r : Rule α} {c : Cursor} (h : c.kind ∉ Token.closers)
    (expecting : Bool) (expected : List Token.Kind) :
    ∃ e, (do
      if ← accept (.keyword .END) then p
      else if ← accept (.keyword .ELIF) then q
      else if ← accept (.keyword .ELSE) then r
      else unexpectedInSequence expecting expected : Rule α) c = .failed e := by
  have other {x : Token.Kind} (mem : x ∈ Token.closers) : c.kind ≠ x := fun eq => h (eq ▸ mem)
  rw [ifAccept_neg (other (by decide)), ifAccept_neg (other (by decide)),
    ifAccept_neg (other (by decide))]
  exact ⟨_, unexpectedInSequence_eq _ _ _⟩

theorem closedBlock_refuses {c : Cursor} (h : c.kind = .eof) :
    Refuses k (closedBlock fuel (level k) c) :=
  statements_refuses h fun _ _ eof => ifEnd_fails (not_closer (by simp [eof])) _ _

theorem closedBlock_abreast (hself : SelfAbreast J k) :
    Rule.Abreast (Cursor.Opening J) (Cursor.Within J) J.Trees (closedBlock fuel (level k))
      (closedBlock fuel (level k)) := by
  refine statements_abreast hself (fun t u b b' same => ?_)
    (fun _ _ start => ifEnd_fails (not_closer (.tail _ start)) _ _)
    fun _ _ start => ifEnd_fails (not_closer (.tail _ start)) _ _
  exact .ofClear (.ifKeyword (.ofPast (.pure same)) (.unexpectedInSequence _ _ _))

theorem inline_abreast (hself : SelfAbreast J k) {w : Keyword} (head : w ∈ [.THEN, .ELSE]) :
    Rule.Abreast (Cursor.Past J w) (Cursor.Settled J) J.Trees (statement (level k))
      (statement (level k)) := fun c d past =>
  .settled past (statement_sound (level_sound k) c) (statement_abreast hself c d past.toAbreast)
    fun _ _ spelt behind => .inline head behind spelt

abbrev SameBodies (J : Spare) (x y : Tree × Form) : Prop := J.Trees x.1 y.1 ∧ x.2 = y.2

theorem body_abreast (hself : SelfAbreast J k) {w : Keyword} (head : w ∈ [.THEN, .ELSE]) :
    Rule.Abreast (Cursor.Past J w) (Cursor.Within J) (SameBodies J) (body fuel (level k))
      (body fuel (level k)) := by
  intro c d past
  refine .ifNewline (past.begins head) ?_ ?_ fun c d left right => ?_
  · exact (closedBlock_abreast hself).bind fun _ _ same => .pure ⟨same, rfl⟩
  · refine (inline_abreast hself head).bind (fun _ _ same => ?_) c d past
    exact .ifKeyword (.ofPast (.pure ⟨same, rfl⟩)) (.ofSettled (.pure ⟨same, rfl⟩))
  · refine ((closedBlock_refuses left).bind _).abreast fun pos => ?_
    obtain ⟨e, failed⟩ := statement_fails (c := d) (not_start (by rw [right]; decide)) pos
    exact ⟨e, bind_failed failed⟩

theorem otherwise_abreast (hself : SelfAbreast J k) :
    Rule.Abreast (Cursor.Past J .ELSE) (Cursor.Within J)
      (fun x y => x.1.Matches J.Trees y.1 ∧ x.2 = y.2) (otherwise fuel (level k))
      (otherwise fuel (level k)) := by
  refine (body_abreast hself (by decide)).bind ?_
  rintro ⟨node, form⟩ ⟨node', _⟩ ⟨same, rfl⟩
  exact .pure ⟨.mk same _, rfl⟩

theorem arms_abreast (hself : SelfAbreast J k) (n : Nat) :
    Rule.Abreast (Cursor.Within J) (Cursor.Within J) (Chains J.Trees) (arms fuel (level k) n)
      (arms fuel (level k) n) := by
  induction n with
  | zero => exact .spent _
  | succ n ih =>
    refine (hself .expression).bind fun c c' condition => ?_
    refine (Rule.Abreast.expectKeyword (by decide) _).bind fun _ _ _ a b past => ?_
    refine .ifNewline (past.begins (by decide)) ?_ ?_ ?_
    · refine statements_abreast hself (fun node node' b b' same => ?_)
        (fun _ _ start => ifCloser_fails (not_closer (.tail _ start)) _ _)
        fun _ _ start => ifCloser_fails (not_closer (.tail _ start)) _ _
      have arm : Arm.Matches J.Trees ⟨c, node, true⟩ ⟨c', node', true⟩ := .mk condition same _
      refine .ofClear (.ifKeyword (.ofPast (.pure ⟨.cons arm .nil, .none, rfl⟩))
        (.ifKeyword (.ofPast ?_) (.ifKeyword ?_ (.unexpectedInSequence _ _ _))))
      · refine ih.bind ?_
        rintro ⟨rest, last, closed⟩ ⟨rest', last', _⟩ ⟨tail, lasts, rfl⟩
        exact .pure ⟨.cons arm tail, lasts, rfl⟩
      · exact (otherwise_abreast hself).bind fun _ _ lasts =>
          .pure ⟨.cons arm .nil, .some lasts.1, rfl⟩
    · refine (inline_abreast hself (by decide)).bind (fun node node' same => ?_) a b past
      have arm : Arm.Matches J.Trees ⟨c, node, false⟩ ⟨c', node', false⟩ := .mk condition same _
      refine .ifKeyword (.ofPast ?_) (.ifKeyword ?_ (.ifKeyword (.ofPast ?_) (.ofSettled ?_)))
      · refine ih.bind ?_
        rintro ⟨rest, last, closed⟩ ⟨rest', last', _⟩ ⟨tail, lasts, rfl⟩
        exact .pure ⟨.cons arm tail, lasts, rfl⟩
      · refine (otherwise_abreast hself).bind ?_
        rintro ⟨last, form⟩ ⟨last', _⟩ ⟨lasts, rfl⟩
        exact .pure ⟨.cons arm .nil, .some lasts, rfl⟩
      · exact .pure ⟨.cons arm .nil, .none, rfl⟩
      · exact .pure ⟨.cons arm .nil, .none, rfl⟩
    · intro a b left right
      refine Refuses.abreast (k := k) (statements_refuses left fun _ _ eof => ?_) fun pos => ?_
      · exact ifCloser_fails (not_closer (by simp [eof])) _ _
      · obtain ⟨e, failed⟩ := statement_fails (c := b) (not_start (by rw [right]; decide)) pos
        exact ⟨e, bind_failed failed⟩

end Sequences

section Constructs

variable {J : Spare} {k fuel : Nat} {m n : Mark}

theorem conditional_abreast (hself : SelfAbreast J k)
    (start : m.Matches false J.labels n) :
    Rule.Abreast (Cursor.Within J) (Cursor.Within J) J.Trees
      (conditional fuel (level k) m) (conditional fuel (level k) n) := by
  refine (arms_abreast hself fuel).bind ?_
  rintro ⟨found, last, closed⟩ ⟨found', last', _⟩ ⟨same, lasts, rfl⟩
  exact (Rule.Abreast.markFrom start).bind fun _ _ mark =>
    .pure (.cond (closed_matches same closed) lasts mark)

theorem forLoop_abreast (hself : SelfAbreast J k)
    (start : m.Matches false J.labels n) :
    Rule.Abreast (Cursor.Within J) (Cursor.Within J) J.Trees
      (forLoop fuel (level k) m) (forLoop fuel (level k) n) := by
  refine (Rule.Abreast.name).bind ?_
  rintro counter _ rfl
  refine (Rule.Abreast.expectSymbol _ _).bind fun _ _ _ => ?_
  refine (hself .expression).bind fun first first' firsts => ?_
  refine (Rule.Abreast.expectKeyword (by decide) _).bind fun _ _ _ => .ofPast ?_
  refine (hself .expression).bind fun last last' lasts => ?_
  have rest (step step' : Option Tree) (steps : Option.Rel J.Trees step step') :
      Rule.Abreast (Cursor.Within J) (Cursor.Within J) J.Trees
        (do
          let _ ← keyword .THEN
          let read ← body fuel (level k)
          return .forLoop counter first last step read.1 read.2.suppresses (← markFrom m))
        (do
          let _ ← keyword .THEN
          let read ← body fuel (level k)
          return .forLoop counter first' last' step' read.1 read.2.suppresses (← markFrom n)) := by
    refine (Rule.Abreast.expectKeyword (by decide) _).bind fun _ _ _ =>
      (body_abreast hself (by decide)).bind ?_
    rintro ⟨node, form⟩ ⟨node', _⟩ ⟨same, rfl⟩
    exact (Rule.Abreast.markFrom start).bind fun _ _ mark =>
      .pure (.forLoop _ firsts lasts steps same _ mark)
  refine .ifAccept (by decide) ?_ ?_
  · refine Rule.Abreast.bind (V := Option.Rel J.Trees) ?_ rest
    exact (hself .expression).bind fun _ _ same => .pure (.some same)
  · exact Rule.Abreast.bind (V := Option.Rel J.Trees) (.pure .none) rest

theorem whileLoop_abreast (hself : SelfAbreast J k)
    (start : m.Matches false J.labels n) :
    Rule.Abreast (Cursor.Within J) (Cursor.Within J) J.Trees
      (whileLoop fuel (level k) m) (whileLoop fuel (level k) n) := by
  refine (hself .expression).bind fun c c' condition => ?_
  refine (Rule.Abreast.expectKeyword (by decide) _).bind fun _ _ _ =>
    (body_abreast hself (by decide)).bind ?_
  rintro ⟨node, form⟩ ⟨node', _⟩ ⟨same, rfl⟩
  exact (Rule.Abreast.markFrom start).bind fun _ _ mark =>
    .pure (.whileLoop condition same _ mark)

theorem moreNames_abreast (n : Nat) :
    Rule.Abreast (Cursor.Within J) (Cursor.Within J) Eq (moreNames n) (moreNames n) := by
  induction n with
  | zero => exact .spent _
  | succ n ih =>
    refine .ifAccept (by decide) ((Rule.Abreast.name).bind ?_) (.pure rfl)
    rintro first _ rfl
    refine ih.bind ?_
    rintro rest _ rfl
    exact .pure rfl

theorem ifName_abreast {α β : Type} {S : Cursor → Cursor → Prop} {V : α → β → Prop}
    {p p' : Rule α} {q q' : Rule β}
    (yes : Rule.Abreast (Cursor.Within J) S V p q)
    (no : Rule.Abreast (Cursor.Within J) S V p' q') :
    Rule.Abreast (Cursor.Within J) S V (do if (← here).kind = .identifier then p else p')
      (do if (← here).kind = .identifier then q else q') := by
  intro c d cursors
  have same : c.kind = .identifier ↔ d.kind = .identifier := by
    by_cases met : c.Met J d
    · have ends := cursors.met_ends met
      rw [cursors.met_kind met]
      refine ⟨nofun, fun is => ?_⟩
      rw [is] at ends
      revert ends
      decide
    · rw [cursors.kind met J.top_le_place]
  rw [fromHere_eq, fromHere_eq]
  by_cases is : c.kind = .identifier
  · rw [if_pos is, if_pos (same.1 is)]
    exact yes c d cursors
  · rw [if_neg is, if_neg fun there => is (same.2 there)]
    exact no c d cursors

theorem parameters_abreast :
    Rule.Abreast (Cursor.Within J) (Cursor.Within J) Eq (parameters fuel)
      (parameters fuel) := by
  refine ifName_abreast ((Rule.Abreast.name).bind ?_) ?_
  · rintro first _ rfl
    refine (moreNames_abreast fuel).bind ?_
    rintro rest _ rfl
    exact (Rule.Abreast.expectSymbol _ _).bind fun _ _ _ => .pure rfl
  · exact (Rule.Abreast.expectSymbol _ _).bind fun _ _ _ => .pure rfl

theorem functionHead_abreast :
    Rule.Abreast (Cursor.Within J) (Cursor.Within J) Eq functionHead functionHead := by
  refine ifName_abreast ((Rule.Abreast.name).bind ?_) ?_
  · rintro given _ rfl
    exact (Rule.Abreast.expectSymbol _ _).bind fun _ _ _ => .pure rfl
  · exact (Rule.Abreast.expectSymbol _ _).bind fun _ _ _ => .pure rfl

def signature (fuel : Nat) : Rule (Option String × List String) := do
  let given ← functionHead
  let params ← parameters fuel
  return (given, params)

theorem signature_sound : (signature fuel).Sound fun cs x =>
    cs = (x.1.map Token.Content.identifier).toList ++ .symbol .leftParen ::
      Phrase.names x.2 ++ [.symbol .rightParen] := by
  refine functionHead_sound.bind fun _ given is => parameters_sound.bind fun _ params is' => ?_
  subst is is'
  exact .pure (by simp)

theorem signature_abreast :
    Rule.Abreast (Cursor.Within J) (Cursor.Within J) Eq (signature fuel) (signature fuel) := by
  refine functionHead_abreast.bind ?_
  rintro given _ rfl
  refine parameters_abreast.bind ?_
  rintro params _ rfl
  exact .pure rfl

theorem function_abreast (hself : SelfAbreast J k) (start : m.Matches false J.labels n) :
    Rule.Abreast (Cursor.Past J .FUN) (Cursor.Within J) J.Trees (function fuel (level k) m)
      (function fuel (level k) n) := by
  intro c d past
  have parts (m : Mark) : function fuel (level k) m = (signature fuel >>= fun x => do
      if ← accept (.symbol .arrow) then
        let node ← level k .expression
        return .function x.1 x.2 node true (← markFrom m)
      else if ← accept .newline then
        let node ← closedBlock fuel (level k)
        return .function x.1 x.2 node false (← markFrom m)
      else unexpected [.symbol .arrow, .newline]) := by
    simp only [function, signature, bind_assoc, pure_bind]
  have read : (signature fuel c).Abreast (Cursor.Settled J) Eq (signature fuel d) :=
    .settled past (signature_sound c) (signature_abreast c d past.toAbreast)
      fun _ x spelt behind => .function x.1 x.2 (by rwa [spelt] at behind)
  rw [parts, parts]
  refine read.bind ?_
  rintro x _ c₁ d₁ - - rfl settled
  refine .ifAccept settled.toAbreast (by decide) ?_ (.ifNewline settled ?_ (.failed _ _) ?_)
  · refine (hself .expression).bind fun node node' same => ?_
    exact (Rule.Abreast.markFrom start).bind fun _ _ mark => .pure (.function _ _ same _ mark)
  · refine (closedBlock_abreast hself).bind fun node node' same => ?_
    exact (Rule.Abreast.markFrom start).bind fun _ _ mark => .pure (.function _ _ same _ mark)
  · exact fun _ _ left _ => ((closedBlock_refuses left).bind _).abreast fun _ => ⟨_, rfl⟩

theorem moreExpressions_abreast (hself : SelfAbreast J k) (n : Nat) :
    Rule.Abreast (Cursor.Within J) (Cursor.Within J) (List.Forall₂ J.Trees)
      (moreExpressions (level k) n) (moreExpressions (level k) n) := by
  induction n with
  | zero => exact .spent _
  | succ n ih =>
    refine .ifAccept (by decide) ?_ (.pure .nil)
    refine (hself .expression).bind fun _ _ head => ?_
    exact ih.bind fun _ _ tail => .pure (.cons head tail)

theorem items_abreast (hself : SelfAbreast J k) (close : Symbol) :
    Rule.Abreast (Cursor.Within J) (Cursor.Within J) (List.Forall₂ J.Trees)
      (items fuel (level k) close) (items fuel (level k) close) := by
  have other : Token.Kind.symbol close ∉ .newline :: Token.ends := by
    simp [Token.ends, Token.closers]
  refine .ifAccept other (.pure .nil) ?_
  refine ((hself .expression).describing _ _).bind fun _ _ head => ?_
  refine (moreExpressions_abreast hself fuel).bind fun _ _ tail => ?_
  exact (Rule.Abreast.expectSymbol _ _).bind fun _ _ _ => .pure (.cons head tail)

theorem Rung.refused_abreast {r : Rung} (inner : r ≠ .expression) {self : Level → Rule Tree}
    {S : Cursor → Cursor → Prop} {V : Tree → Tree → Prop} {c d : Cursor} (left : c.kind = .newline)
    (right : d.kind ∈ Token.ends) :
    (r.rule fuel self c).Abreast S V (r.rule fuel self d) := by
  have out {x : Token.Kind} (h : x ∈ .newline :: Token.ends) : x ∉ expressionStart :=
    fun mem => not_start h (List.mem_append_right _ mem)
  rw [Rung.rule_refused (out (by simp [left])) inner,
    Rung.rule_refused (out (by simp [right])) inner]
  exact .failed _ _

theorem atom_abreast (hself : SelfAbreast J k) :
    Rule.Abreast (Cursor.Within J) (Cursor.Within J) J.Trees (atom fuel (level k))
      (atom fuel (level k)) := by
  refine .ofSame (fun c d left right => ?_) fun c d cursors same => ?_
  · exact Rung.refused_abreast (r := .atom) (by decide) left right
  · have kept {x : Token.Kind} (kind : c.kind = x) (start : x ∈ statementStart) :
        c.kind ∉ [.newline, .eof] ∧ c.mark.Matches false J.labels d.mark := by
      refine ⟨?_, cursors.mark J.top_le_place (kind ▸ start)⟩
      rw [kind]
      clear kind
      revert x
      decide
    unfold atom
    rw [fromHere_eq, fromHere_eq, ← same]
    generalize is : c.current.content = x
    split
    · obtain ⟨more, mark⟩ := kept (x := .int) (Cursor.kind_of_content is) (by decide)
      exact .advance cursors more fun _ _ => .pure (.number _ mark)
    · obtain ⟨more, mark⟩ := kept (x := .float) (Cursor.kind_of_content is) (by decide)
      exact .advance cursors more fun _ _ => .pure (.number _ mark)
    · obtain ⟨more, mark⟩ := kept (x := .string) (Cursor.kind_of_content is) (by decide)
      exact .advance cursors more fun _ _ => .pure (.string _ mark)
    · obtain ⟨more, mark⟩ := kept (x := .identifier) (Cursor.kind_of_content is) (by decide)
      exact .advance cursors more fun _ _ => .pure (.access _ mark)
    · obtain ⟨more, mark⟩ := kept (x := .symbol .leftParen) (Cursor.kind_of_content is) (by decide)
      refine .advance cursors more fun _ _ =>
        (hself .expression).bind fun _ _ same => ?_
      exact (Rule.Abreast.expectSymbol _ _).bind fun _ _ _ => .pure same
    · obtain ⟨more, mark⟩ := kept (x := .symbol .leftBracket) (Cursor.kind_of_content is)
        (by decide)
      refine .advance cursors more fun _ _ =>
        (items_abreast hself _).bind fun _ _ same => ?_
      exact (Rule.Abreast.markFrom mark).bind fun _ _ mark => .pure (.list same mark)
    · obtain ⟨more, mark⟩ := kept (x := .keyword .IF) (Cursor.kind_of_content is) (by decide)
      exact .advance cursors more fun _ _ => conditional_abreast hself mark
    · obtain ⟨more, mark⟩ := kept (x := .keyword .FOR) (Cursor.kind_of_content is) (by decide)
      exact .advance cursors more fun _ _ => forLoop_abreast hself mark
    · obtain ⟨more, mark⟩ := kept (x := .keyword .WHILE) (Cursor.kind_of_content is) (by decide)
      exact .advance cursors more fun _ _ => whileLoop_abreast hself mark
    · obtain ⟨-, mark⟩ := kept (x := .keyword .FUN) (Cursor.kind_of_content is) (by decide)
      exact function_abreast hself mark _ _ (cursors.past (Cursor.kind_of_content is))
    · exact .failed _ _

theorem callsFrom_abreast (hself : SelfAbreast J k) (n : Nat)
    {callee callee' : Tree} (same : J.Trees callee callee') :
    Rule.Abreast (Cursor.Within J) (Cursor.Within J) J.Trees
      (callsFrom fuel (level k) n callee) (callsFrom fuel (level k) n callee') := by
  induction n generalizing callee callee' with
  | zero => exact .spent _
  | succ n ih =>
    refine .ifAccept (by decide) ?_ (.pure same)
    refine (items_abreast hself _).bind fun args args' alike => ?_
    exact (Rule.Abreast.markFrom same.note).bind fun _ _ mark => ih (.call same alike mark)

theorem operandsFrom_abreast {ops : List BinaryOp} {right : Rule Tree}
    (hright : Rule.Abreast (Cursor.Within J) (Cursor.Within J) J.Trees right right) (n : Nat)
    {t u : Tree} (same : J.Trees t u) :
    Rule.Abreast (Cursor.Within J) (Cursor.Within J) J.Trees (operandsFrom ops right n t)
      (operandsFrom ops right n u) := by
  have none_of {x : Token.Kind} (h : x ∈ .newline :: Token.ends) :
      ops.find? (·.kind = x) = none := by
    refine List.find?_eq_none.2 fun op _ => ?_
    revert x
    cases op <;> decide
  induction n generalizing t u with
  | zero => exact .spent _
  | succ n ih =>
    intro c d cursors
    by_cases met : c.Met J d
    · rw [operandsFrom_stop (none_of (by simp [cursors.met_kind met])),
        operandsFrom_stop (none_of (by simp [cursors.met_ends met]))]
      exact .done same cursors
    · have kinds := cursors.kind met J.top_le_place
      cases found : ops.find? (·.kind = c.kind) with
      | none =>
        rw [operandsFrom_stop found, operandsFrom_stop (kinds ▸ found)]
        exact .done same cursors
      | some op =>
        have more : c.kind ∉ [.newline, .eof] := by
          intro mem
          have ends : c.kind ∈ .newline :: Token.ends := by
            revert mem
            generalize c.kind = x
            revert x
            decide
          rw [none_of ends] at found
          cases found
        rw [operandsFrom_turn found, operandsFrom_turn (kinds ▸ found)]
        refine hright.bind (fun operand operand' alike => ?_) _ _ (cursors.advance more)
        exact ih (.binary op same alike (same.note.through _ _))

theorem operands_abreast {ops : List BinaryOp} {left right : Rule Tree}
    (hleft : Rule.Abreast (Cursor.Within J) (Cursor.Within J) J.Trees left left)
    (hright : Rule.Abreast (Cursor.Within J) (Cursor.Within J) J.Trees right right) :
    Rule.Abreast (Cursor.Within J) (Cursor.Within J) J.Trees (operands fuel left ops right)
      (operands fuel left ops right) :=
  hleft.bind fun _ _ same => operandsFrom_abreast hright fuel same

theorem factor_abreast (hself : SelfAbreast J k) (fuel : Nat) :
    Rule.Abreast (Cursor.Within J) (Cursor.Within J) J.Trees (factor fuel (level k))
      (factor fuel (level k)) := by
  have power : Rule.Abreast (Cursor.Within J) (Cursor.Within J) J.Trees
      (power fuel (level k)) (power fuel (level k)) :=
    operands_abreast ((atom_abreast hself).bind fun _ _ same =>
      callsFrom_abreast hself fuel same) (hself .factor)
  refine .ofSame (fun c d left right => ?_) fun c d cursors same => ?_
  · exact Rung.refused_abreast (r := .factor) (by decide) left right
  · have kinds : c.kind = d.kind := congrArg Token.Content.kind same
    unfold factor
    rw [fromHere_eq, fromHere_eq, ← kinds]
    generalize kind : c.kind = x
    split
    · have mark := cursors.mark J.top_le_place (by rw [kind]; decide)
      refine .advance cursors (by rw [kind]; decide) fun _ _ => ?_
      exact (hself .factor).bind fun _ _ same => .pure (.unary _ same (mark.through _ _))
    · have mark := cursors.mark J.top_le_place (by rw [kind]; decide)
      refine .advance cursors (by rw [kind]; decide) fun _ _ => ?_
      exact (hself .factor).bind fun _ _ same => .pure (.unary _ same (mark.through _ _))
    · exact power c d cursors

theorem comparison_abreast (hself : SelfAbreast J k) (fuel : Nat) :
    Rule.Abreast (Cursor.Within J) (Cursor.Within J) J.Trees (comparison fuel (level k))
      (comparison fuel (level k)) := by
  have factor := factor_abreast hself fuel
  have term : Rule.Abreast (Cursor.Within J) (Cursor.Within J) J.Trees
      (term fuel (level k)) (term fuel (level k)) := operands_abreast factor factor
  have arithmetic : Rule.Abreast (Cursor.Within J) (Cursor.Within J) J.Trees
      (arithmetic fuel (level k)) (arithmetic fuel (level k)) := operands_abreast term term
  refine .ofSame (fun c d left right => ?_) fun c d cursors same => ?_
  · exact Rung.refused_abreast (r := .comparison) (by decide) left right
  · have kinds : c.kind = d.kind := congrArg Token.Content.kind same
    unfold comparison
    rw [fromHere_eq, fromHere_eq, ← kinds]
    generalize kind : c.kind = x
    split
    · have mark := cursors.mark J.top_le_place (by rw [kind]; decide)
      refine .advance cursors (by rw [kind]; decide) fun _ _ => ?_
      exact (hself .comparison).bind fun _ _ same =>
        .pure (.unary _ same (mark.through _ _))
    · exact operands_abreast arithmetic arithmetic c d cursors

theorem expression_abreast (hself : SelfAbreast J k) (fuel : Nat) :
    Rule.Abreast (Cursor.Within J) (Cursor.Within J) J.Trees (expression fuel (level k))
      (expression fuel (level k)) := by
  have comparison := comparison_abreast hself fuel
  have logic : Rule.Abreast (Cursor.Within J) (Cursor.Within J) J.Trees
      (Rung.logic.rule fuel (level k)) (Rung.logic.rule fuel (level k)) :=
    operands_abreast comparison comparison
  refine .ofSame (fun c d left right => ?_) fun c d cursors same => ?_
  · have assigns : d.kind ≠ .keyword .VAR := fun eq => by
      rw [eq] at right
      revert right
      decide
    rw [expression_eq (by rw [left]; decide), expression_eq assigns]
    have refused : Rule.Abreast (fun c' d' => c' = c ∧ d' = d) (Cursor.Within J) J.Trees
        (Rung.logic.rule fuel (level k)) (Rung.logic.rule fuel (level k)) := by
      rintro _ _ ⟨rfl, rfl⟩
      exact Rung.refused_abreast (by decide) left right
    exact refused.describing _ _ c d ⟨rfl, rfl⟩
  · have kinds : c.kind = d.kind := congrArg Token.Content.kind same
    unfold expression
    rw [fromHere_eq, fromHere_eq, ← kinds]
    generalize kind : c.kind = x
    split
    · have mark := cursors.mark J.top_le_place (by rw [kind]; decide)
      refine .advance cursors (by rw [kind]; decide) fun _ _ => ?_
      refine (Rule.Abreast.name).bind ?_
      rintro target _ rfl
      refine (Rule.Abreast.expectSymbol _ _).bind fun _ _ _ => ?_
      exact (hself .expression).bind fun _ _ same =>
        .pure (.assign _ same (mark.through _ _))
    · exact logic.describing _ _ c d cursors

theorem level_abreast (J : Spare) (k : Nat) : SelfAbreast J k := by
  induction k with
  | zero => exact fun _ => .spent _
  | succ k ih =>
    intro l
    cases l with
    | expression => exact expression_abreast ih _
    | comparison => exact comparison_abreast ih _
    | factor => exact factor_abreast ih _

end Constructs

def programEnd (x : Tree × Bool) : Rule Tree := fun c =>
  if c.kind = .eof then .done x.1 c else .failed (c.deeper.getD (leftOver x.2 c))

theorem program_parts (fuel : Nat) :
    program fuel = statements fuel (level fuel) >>= programEnd := by
  funext c
  cases read : statements fuel (level fuel) c with
  | done x d =>
    rw [program_eq read, bind_done read]
    rfl
  | failed e => exact (bind_failed read).trans (bind_failed read).symm
  | spent => exact (bind_spent read).trans (bind_spent read).symm

theorem program_abreast (J : Spare) (fuel : Nat) :
    Rule.Abreast (Cursor.Opening J) (Cursor.Clear J) J.Trees (program fuel) (program fuel) := by
  rw [program_parts]
  have stuck (x : Tree × Bool) (c : Cursor) (start : c.kind ∈ statementStart) :
      ∃ e, programEnd x c = .failed e :=
    ⟨_, if_neg fun eof => by rw [eof] at start; revert start; decide⟩
  refine statements_abreast (level_abreast J fuel) (fun t u b b' same c d cursors => ?_) stuck stuck
  have kinds := cursors.kind cursors.off (Nat.le_succ _)
  unfold programEnd
  rw [← kinds]
  split
  · exact .done same cursors
  · exact .failed _ _

theorem program_suffices {t u : Token} {ts us : List Token} (ends : Token.Terminated (u :: us))
    (le : (u :: us).length ≤ (t :: ts).length) :
    program (u :: us).length (.ofTokens u us) = program (t :: ts).length (.ofTokens u us) := by
  rcases program_le le (.ofTokens u us) with out | same
  · have proceeds := program_proceeds ends (u :: us).length (.ofTokens u us)
      ⟨.ofTokens u us, nofun⟩
    rw [out] at proceeds
    have less : 0 + (u :: us).length < (u :: us).length := proceeds
    omega
  · exact same

end ScriptLang.Grammar

namespace ScriptLang

open Grammar

theorem Spare.parse_eq (J : Spare) {ts us : List Token} (left : ts.map Token.content = J.long)
    (right : us.map Token.content = J.short) (ends : Token.Terminated us) {t : Tree}
    (read : parse ts = .ok t) : ∃ u, parse us = .ok u ∧ J.Trees t u := by
  obtain ⟨a, as, rfl⟩ : ∃ a as, ts = a :: as := by
    refine List.exists_cons_of_ne_nil fun nil => ?_
    rw [nil] at left
    simp at left
  obtain ⟨b, bs, rfl⟩ : ∃ b bs, us = b :: bs := by
    obtain ⟨front, last, eq, -⟩ := ends.ending
    exact List.exists_cons_of_ne_nil (by simp [eq])
  obtain ⟨c', done⟩ := parse_cons_eq_ok.1 read
  have cursors : (Cursor.ofTokens a as).Opening J (Cursor.ofTokens b bs) :=
    ⟨⟨left ▸ .ofTokens a as, right ▸ .ofTokens b bs, .inl ⟨rfl, Nat.succ_pos _⟩⟩, nofun⟩
  have reads := program_abreast J (a :: as).length _ _ cursors
  have shorter : (b :: bs).length ≤ (a :: as).length := by
    have long := congrArg List.length left
    have short := congrArg List.length right
    simp only [List.length_map, List.length_append, List.length_cons] at long short ⊢
    omega
  rw [done, ← program_suffices ends shorter] at reads
  generalize eq : program (b :: bs).length (.ofTokens b bs) = x at reads
  cases reads with
  | done same _ => exact ⟨_, parse_cons_eq_ok.2 ⟨_, eq⟩, same⟩

end ScriptLang
