import ScriptLang.Proofs.Blame.Reading

/-! Every rule of the grammar reads two lists that agree up to the edge in the same way up to there:
one lemma for each rule, then all levels together by induction on their number. -/
namespace ScriptLang.Grammar

open Rule

abbrev plain {α : Type} : α → Unit := fun _ => ()

section Statements

variable {J : Fork} {k k' fuel fuel' : Nat}

abbrev ExpressionForks (J : Fork) (k k' : Nat) : Prop :=
  Rule.Forks J Drift.Strayed plain (level k .expression) (level k' .expression)

theorem newlines_forks (n n' : Nat) : Rule.Forks J Straight id (newlines n) (newlines n') := by
  induction n generalizing n' with
  | zero => exact .spent (newlines_forward J.rightEnds n')
  | succ n ih =>
    cases n' with
    | zero => exact .spent_right (newlines_forward J.leftEnds (n + 1))
    | succ n' =>
      apply Rule.Forks.ifAccept (by decide)
      · exact (ih n').bind (fun _ _ _ => .pure rfl) fun _ _ => .straight
      · exact .pure rfl

/-- A `RETURN` stands just before. If its value cannot be read at the edge, the lists may part. -/
theorem attempt_expression_forks (hself : ExpressionForks J k k') {c d : Cursor}
    (cursors : c.Forks J d)
    (returns : ∃ j t, j + 1 = c.index ∧ J.left[j]? = some t ∧ t.kind = .keyword .RETURN) :
    (attempt (level k .expression) c).Forks J Drift.Strayed Option.isSome
      (attempt (level k' .expression) d) := by
  apply (hself.forks c d cursors).attempt cursors (level_begins J.leftEnds k .expression c)
    (level_begins J.rightEnds k' .expression d) (fun _ mem => mem) (by decide)
    (fun _ _ strayed => strayed)
  · intro e fails further
    by_cases at_ : c.index = J.edge
    · have dangling : Token.Dangling J.left J.edge :=
        ⟨at_ ▸ returns, k, c, e, cursors.left, at_, fails, at_ ▸ further⟩
      exact .inr ⟨at_, .inr dangling⟩
    · left
      exact ⟨.of_failed (W := J.stray) cursors.left at_ fails further,
        .of_failed (W := J.blocked) cursors.left at_ fails further⟩
  · intro f fails further past
    exact .of_failed (W := J.branch) cursors.right trivial fails further past

theorem statement_forks (hself : ExpressionForks J k k') :
    Rule.Forks J Drift.Strayed plain (statement (level k)) (statement (level k')) := by
  apply Rule.Forks.begins (statement_begins J.leftEnds (level_begins J.leftEnds k))
    (statement_begins J.rightEnds (level_begins J.rightEnds k'))
  intro c d cursors less
  unfold statement
  rw [fromHere_eq, fromHere_eq, ← cursors.kind less]
  have advanced {x : Token.Kind} (is : c.kind = x) (more : x ≠ .eof) :
      c.advance.Forks J d.advance :=
    cursors.advance less (is ▸ more)
  generalize is : c.kind = x
  split
  · have next := J.leftEnds.advance_index cursors.left.toAt (by rw [is]; nofun)
    have tried := attempt_expression_forks hself (advanced is nofun)
      ⟨c.index, c.current, next.symm, cursors.left.current, is⟩
    apply tried.bind
    · intro value
      cases value <;> exact fun _ => .pure
    · intro value
      cases value <;> exact fun _ => .pure
    · intro value value' c' d' _ _ cursors'
      cases value <;> cases value' <;> exact .done rfl cursors'
    · intro value value'
      cases value <;> cases value' <;> exact .pure
  · exact .done rfl (advanced is nofun)
  · exact .done rfl (advanced is nofun)
  · exact (hself.forks c d cursors).describing cursors hself.right
      fun at_ => absurd at_ (Nat.ne_of_lt less)

theorem attempt_statement_forks (hself : ExpressionForks J k k') :
    Rule.Forks J Drift.Halted Option.isSome (attempt (statement (level k)))
      (attempt (statement (level k'))) := by
  have left := statement_begins J.leftEnds (level_begins J.leftEnds k)
  have right := statement_begins J.rightEnds (level_begins J.rightEnds k')
  refine ⟨fun c => (left c).proceeds.tried.forward (Nat.le_refl 0),
    fun d => (right d).proceeds.tried.forward (Nat.le_refl 0), ?_⟩
  intro c d cursors
  apply ((statement_forks hself).forks c d cursors).attempt cursors (left c) (right d) (by decide)
    (by decide) (fun _ _ => Drift.Strayed.halted)
  · intro e fails further
    left
    exact ⟨.of_failed (W := J.stray) cursors.left fails further,
      .of_failed (W := J.blocked) cursors.left fails further⟩
  · intro f fails further past
    exact .of_failed (W := J.branch) cursors.right fails further past

abbrev afterStatement (fuel n : Nat) (self : Level → Rule Tree) :
    Option Tree → Rule (List Tree × Bool)
  | none => pure ([], true)
  | some first => do
    if ← newlines fuel then
      let (rest, expecting) ← statementsFrom fuel self n
      return (first :: rest, expecting)
    else return ([first], false)

theorem afterStatement_newline (fuel n : Nat) (self : Level → Rule Tree) (read : Option Tree)
    (c : Cursor) (other : c.kind ≠ .newline) : afterStatement fuel n self read c = .spent ∨
      ∃ a, afterStatement fuel n self read c = .done a c := by
  cases read with
  | none => exact .inr ⟨_, rfl⟩
  | some first =>
    cases fuel with
    | zero => exact .inl rfl
    | succ fuel =>
      have stop : newlines (fuel + 1) c = .done false c := bind_done (accept_neg other)
      exact .inr ⟨_, bind_done stop⟩

theorem afterStatement_meets (n n' : Nat) (read read' : Option Tree) :
    Rule.Meets J Drift.Halted Drift.Halted Prod.snd (afterStatement fuel n (level k) read)
      (afterStatement fuel' n' (level k') read') := by
  apply Rule.Meets.rests (x := .newline) (fun _ _ halted => halted) (by decide) _
    (afterStatement_newline fuel' n' (level k') read')
  intro c
  by_cases is : c.kind = .newline
  · cases read with
    | none => exact .inr (.inl ⟨_, rfl⟩)
    | some first =>
      cases fuel with
      | zero => exact .inl rfl
      | succ fuel =>
        have separated : newlines (fuel + 1) c = (newlines fuel >>= fun _ => pure true) c.advance :=
          bind_done (accept_pos is)
        refine .inr (.inr ⟨is, _, ?_, bind_congr_at _ separated⟩)
        intro d
        rw [bind_assoc]
        apply (newlines_forward J.leftEnds fuel d).bind
        intro _ d
        exact (statementsFrom_forward J.leftEnds (fuel + 1) k n d).bind fun _ _ => .pure
  · exact (afterStatement_newline fuel n (level k) read c is).imp_right .inl

theorem statementsFrom_forks (hself : ExpressionForks J k k') (n n' : Nat) :
    Rule.Forks J Drift.Halted Prod.snd (statementsFrom fuel (level k) n)
      (statementsFrom fuel' (level k') n') := by
  induction n generalizing n' with
  | zero => exact .spent (statementsFrom_forward J.rightEnds fuel' k' n')
  | succ n ih =>
    cases n' with
    | zero => exact .spent_right (statementsFrom_forward J.leftEnds fuel k (n + 1))
    | succ n' =>
      apply (attempt_statement_forks hself).bind _ (afterStatement_meets n n')
      intro read read' same
      match read, read', same with
      | none, none, _ => exact .pure rfl
      | some first, some first', _ =>
        apply (newlines_forks fuel fuel').bind _ fun _ _ => .straight
        intro separated _ eq
        cases separated <;> cases eq
        · exact .pure rfl
        · apply (ih n').bind
          · intro a b same
            exact .pure same
          · exact fun _ _ => .pure

theorem statements_forks (hself : ExpressionForks J k k') :
    Rule.Forks J Drift.Halted Prod.snd (statements fuel (level k))
      (statements fuel' (level k')) := by
  apply Rule.Forks.fromHere
  intro c d
  apply (newlines_forks fuel fuel').bind _ fun _ _ => .straight
  intro _ _ _
  apply (statementsFrom_forks hself fuel fuel').bind
  · intro read read' same
    exact .pure same
  · exact fun _ _ => .pure

/-- What follows a sequence of statements, at a token where it ends in the second list. -/
theorem statements_bind_forks {α σ : Type} {E : Drift → Cursor → Prop} {sight : α → σ}
    {f g : Tree × Bool → Rule α} (hself : ExpressionForks J k k')
    (left : ∀ a, (f a).Forward J.left 0) (right : ∀ b, (g b).Forward J.right 0)
    (hf : ∀ node node' expecting c d, Ends d expecting → c.Forks J d →
      (f (node, expecting) c).Forks J E sight (g (node', expecting) d))
    (meets : ∀ a b, Rule.Meets J Drift.Halted E sight (f a) (g b)) :
    Rule.Forks J E sight (statements fuel (level k) >>= f) (statements fuel' (level k') >>= g) := by
  have statements_ : Rule.Forks J Drift.Halted Prod.snd (statements fuel (level k))
      (statements fuel' (level k')) := statements_forks hself
  refine ⟨fun c => (statements_.left c).bind left, fun d => (statements_.right d).bind right, ?_⟩
  intro c d cursors
  apply (statements_.forks c d cursors).bind left right _ meets
  rintro ⟨node, expecting⟩ ⟨node', _⟩ c' d' ⟨⟩ done cursors'
  have stops := statements_ends J.rightEnds (level_begins J.rightEnds k') cursors.right done
  exact hf node node' expecting c' d' stops cursors'

theorem closedBlock_forks (hself : ExpressionForks J k k') :
    Rule.Forks J Straight plain (closedBlock fuel (level k)) (closedBlock fuel' (level k')) := by
  have refused {ts : List Token} (expecting : Bool) :
      (unexpectedInSequence expecting [.keyword .END] : Rule Tree).Forward ts 0 :=
    unexpectedInSequence_forward _ _
  apply statements_bind_forks hself
  · exact fun _ c => .ifAccept J.leftEnds (by simp) (fun _ => .pure) (refused _ c)
  · exact fun _ d => .ifAccept J.rightEnds (by simp) (fun _ => .pure) (refused _ d)
  · intro node node' expecting c d stops cursors
    have yes : Rule.Forks J Straight plain (pure node : Rule Tree) (pure node') := .pure rfl
    apply Rule.Forks.ifAccept_at (by simp) cursors yes (refused _ c) (.inl (by decide))
    intro other
    apply Rule.Forks.unexpectedInSequence_at expecting cursors
    exact fun _ => stops.out (by simpa using other)
  · intro _ _
    exact .ifAccept (fun _ _ halted => halted) (by decide) (fun _ => .pure)
      (.unexpectedInSequence (fun _ _ halted => halted) _ _ _)

theorem body_forks (hself : ExpressionForks J k k') :
    Rule.Forks J Drift.Strayed plain (body fuel (level k)) (body fuel' (level k')) := by
  apply Rule.Forks.ifAccept (by decide)
  · exact (closedBlock_forks hself).bind (fun _ _ _ => .pure rfl) fun _ _ => .straight
  · apply (statement_forks hself).bind
    · intro node node' _
      exact .ifAccept (by decide) (.pure rfl) (.pure rfl)
    · intro node node'
      exact .ifAccept (fun _ _ => Drift.Strayed.halted) (by decide) (fun _ => .pure) .pure

theorem otherwise_forks (hself : ExpressionForks J k k') :
    Rule.Forks J Drift.Strayed plain (otherwise fuel (level k)) (otherwise fuel' (level k')) := by
  apply (body_forks hself).bind
  · exact fun _ _ _ => .pure rfl
  · exact fun _ _ => .pure

theorem lastArm_forks (hself : ExpressionForks J k k') (closed : Form → Bool)
    (arm arm' : Arm Tree) :
    Rule.Forks J Drift.Strayed plain (lastArm fuel (level k) closed arm)
      (lastArm fuel' (level k') closed arm') :=
  (otherwise_forks hself).bind (fun _ _ _ => .pure rfl) fun _ _ => .pure

section Arms

variable {n n' : Nat}

theorem nextArms_forks
    (more : Rule.Forks J Drift.Strayed plain (arms fuel (level k) n) (arms fuel' (level k') n'))
    (arm arm' : Arm Tree) : Rule.Forks J Drift.Strayed plain (nextArms fuel n (level k) arm)
      (nextArms fuel' n' (level k') arm') :=
  more.bind (fun _ _ _ => .pure rfl) fun _ _ => .pure

theorem afterBlock_forks (hself : ExpressionForks J k k')
    (more : Rule.Forks J Drift.Strayed plain (arms fuel (level k) n) (arms fuel' (level k') n'))
    (condition condition' : Tree) :
    Rule.Forks J Drift.Strayed plain
      (statements fuel (level k) >>= afterBlock fuel n (level k) condition)
      (statements fuel' (level k') >>= afterBlock fuel' n' (level k') condition') := by
  have next := nextArms_forks more
  have last := @lastArm_forks J k k' fuel fuel' hself fun _ => false
  have refused {ts : List Token} (expecting : Bool) : (unexpectedInSequence expecting
      [.keyword .END, .keyword .ELIF, .keyword .ELSE] : Rule ArmsRead).Forward ts 0 :=
    unexpectedInSequence_forward _ _
  have toLast (arm : Arm Tree) (expecting : Bool) (c : Cursor) :=
    ForwardAt.ifAccept (n := 0) J.leftEnds (x := .keyword .ELSE) (by simp) (last arm arm).left
      (refused expecting c)
  have toNext (arm : Arm Tree) (expecting : Bool) (c : Cursor) :=
    ForwardAt.ifAccept (n := 0) J.leftEnds (x := .keyword .ELIF) (by simp) (next arm arm).left
      (toLast arm expecting c)
  apply statements_bind_forks hself
  · exact fun _ c => .ifAccept J.leftEnds (by simp) (fun _ => .pure) (toNext _ _ c)
  · intro read d
    let arm : Arm Tree := ⟨condition', read.1, true⟩
    exact .ifAccept J.rightEnds (by simp) (fun _ => .pure)
      (.ifAccept J.rightEnds (by simp) (next arm arm).right
        (.ifAccept J.rightEnds (by simp) (last arm arm).right (refused _ d)))
  · intro node node' expecting c d stops cursors
    let arm : Arm Tree := ⟨condition, node, true⟩
    let arm' : Arm Tree := ⟨condition', node', true⟩
    apply Rule.Forks.ifAccept_at (by simp) cursors _ (toNext arm expecting c) (.inl (by decide))
    · intro notEnd
      apply Rule.Forks.ifAccept_at (by simp) cursors (next arm arm') (toLast arm expecting c)
        (.inl (by decide))
      intro notElif
      apply Rule.Forks.ifAccept_at (by simp) cursors (last arm arm') (refused expecting c)
        (.inl (by decide))
      intro notElse
      apply Rule.Forks.unexpectedInSequence_at expecting cursors
      exact fun _ => stops.out (by simp [notEnd, notElif, notElse])
    · exact .pure rfl
  · intro read read'
    let arm : Arm Tree := ⟨condition, read.1, true⟩
    apply Rule.Meets.ifAccept (fun _ _ halted => halted) (by decide) (fun _ => .pure)
    apply Rule.Meets.ifAccept (fun _ _ halted => halted) (by decide) (next arm arm).left
    apply Rule.Meets.ifAccept (fun _ _ halted => halted) (by decide) (last arm arm).left
    exact .unexpectedInSequence (fun _ _ halted => halted) _ _ _

end Arms

theorem arms_forks (hself : ExpressionForks J k k') (n n' : Nat) :
    Rule.Forks J Drift.Strayed plain (arms fuel (level k) n) (arms fuel' (level k') n') := by
  induction n generalizing n' with
  | zero => exact .spent (arms_forward J.rightEnds fuel' k' n')
  | succ n ih =>
    cases n' with
    | zero => exact .spent_right (arms_forward J.leftEnds fuel k (n + 1))
    | succ n' =>
      have next := nextArms_forks (ih n')
      have last := @lastArm_forks J k k' fuel fuel' hself fun form => form = .closedInline
      apply hself.closing (by decide) (by decide)
      intro condition condition' _ _ _
      apply Rule.Forks.ifAccept (by decide) (afterBlock_forks hself (ih n') condition condition')
      apply (statement_forks hself).bind
      · intro node node' _
        apply Rule.Forks.ifAccept (by decide) (next _ _)
        apply Rule.Forks.ifAccept (by decide) (last _ _)
        exact .ifAccept (by decide) (.pure rfl) (.pure rfl)
      · intro node node'
        let arm : Arm Tree := ⟨condition, node, false⟩
        apply Rule.Meets.ifAccept (fun _ _ => Drift.Strayed.halted) (by decide) (next arm arm).left
        apply Rule.Meets.ifAccept (fun _ _ => Drift.Strayed.halted) (by decide) (last arm arm).left
        exact .ifAccept (fun _ _ => Drift.Strayed.halted) (by decide) (fun _ => .pure) .pure

end Statements

section Constructs

variable {J : Fork} {k k' fuel fuel' : Nat}

theorem marked_forks {f : Mark → Tree} {g : Mark → Tree} {m n : Mark} :
    Rule.Forks J Drift.Strayed plain (do return f (← markFrom m)) (do return g (← markFrom n)) :=
  Rule.Forks.markFrom.bind (fun _ _ _ => .pure rfl) fun _ _ => .straight

theorem marked_meets {f : Mark → Tree} {g : Mark → Tree} {m n : Mark} :
    Rule.Meets J Drift.Strayed Drift.Strayed plain (do return f (← markFrom m))
      (do return g (← markFrom n)) where
  stray _ strayed := .strayed strayed
  blocked parts _ _ strayed past := .blocked parts (.strayed strayed) past
  branch parts closes _ _ poised index strayed :=
    .stopped parts closes poised index (.strayed strayed)

theorem conditional_forks (hself : ExpressionForks J k k') (m n : Mark) :
    Rule.Forks J Drift.Strayed plain (conditional fuel (level k) m)
      (conditional fuel' (level k') n) :=
  (arms_forks hself fuel fuel').bind (fun _ _ _ => marked_forks) fun _ _ => marked_meets

theorem forLoop_forks (hself : ExpressionForks J k k') (m n : Mark) :
    Rule.Forks J Drift.Strayed plain (forLoop fuel (level k) m) (forLoop fuel' (level k') n) := by
  apply Rule.Forks.name.bind _ fun _ _ => .straight
  intro counter counter' _
  apply (Rule.Forks.expect (by decide)).bind _ fun _ _ => .straight
  intro _ _ _
  apply hself.closing (by decide) (by decide)
  intro first first' _ _ _
  -- what follows the step is the same whether there is one or not
  have inner (last last' : Tree) (step step' : Option Tree) :
      Rule.Forks J Drift.Strayed plain
        (do
          let read ← body fuel (level k)
          return .forLoop counter first last step read.1 read.2.suppresses (← markFrom m) :
            Rule Tree)
        (do
          let read ← body fuel' (level k')
          return .forLoop counter' first' last' step' read.1 read.2.suppresses (← markFrom n) :
            Rule Tree) :=
    (body_forks hself).bind (fun _ _ _ => marked_forks) fun _ _ => marked_meets
  have stepped (last last' : Tree) := by
    have step : Rule.Forks J Drift.Strayed plain (some <$> level k .expression)
        (some <$> level k' .expression) :=
      hself.bind (fun _ _ _ => .pure rfl) fun _ _ => .pure
    exact step.closing (x := .keyword .THEN) (by decide) (by decide)
      fun read read' _ _ _ => inner last last' read read'
  apply hself.bind
  · intro last last' _
    apply Rule.Forks.ifAccept (by decide) (stepped last last')
    exact (Rule.Forks.expect (x := .keyword .THEN) (by decide)).bind
      (fun _ _ _ => inner last last' none none) fun _ _ => .straight
  · intro last last'
    apply Rule.Meets.ifAccept (fun _ _ => Drift.Strayed.halted) (by decide) (stepped last last).left
    exact .expect (x := .keyword .THEN) (by decide) (by decide)
      fun _ => (inner last last none none).left

theorem whileLoop_forks (hself : ExpressionForks J k k') (m n : Mark) :
    Rule.Forks J Drift.Strayed plain (whileLoop fuel (level k) m)
      (whileLoop fuel' (level k') n) := by
  apply hself.closing (by decide) (by decide)
  intro condition condition' _ _ _
  exact (body_forks hself).bind (fun _ _ _ => marked_forks) fun _ _ => marked_meets

section Commas

variable {α ι : Type} {D : Drift → Cursor → Prop} {item item' : Rule ι} {f g : List ι → Rule α}

theorem commas_bind_meets {E : Drift → Cursor → Prop} (halts : ∀ W c, D W c → W.Halted c)
    (left : item.Forward J.left 0) (hf : ∀ a, (f a).Forward J.left 0)
    (meets : ∀ a b, Rule.Meets J D E plain (f a) (g b)) (n n' : Nat) :
    Rule.Meets J D E plain (commas item n >>= f) (commas item' n' >>= g) := by
  cases n with
  | zero => exact .spent
  | succ n =>
    have turn {q : Rule α} : Rule.Meets J D E plain (commas item (n + 1) >>= f)
        (do if ← accept (.symbol .comma) then q else g []) := by
      rw [commas_bind]
      apply Rule.Meets.ifAccept halts (by decide) _ (meets [] [])
      intro c
      apply (left c).bind
      intro first d
      exact (commas_forward J.leftEnds left n d).bind fun _ => hf _
    cases n' with
    | zero => exact .spent_right (turn (q := g [])).stray
    | succ n' =>
      rw [commas_bind item' n' g]
      exact turn

/-- Items after commas, and what follows them at another token. Where only the second list goes
on at the edge, the first one is refused there. -/
theorem commas_bind_forks (halts : ∀ W c, D W c → W.Halted c)
    (hitem : Rule.Forks J D plain item item') (eager : ∀ a, (f a).Forward J.left 1)
    (right : ∀ b, (g b).Forward J.right 0)
    (hf : ∀ a b c d, d.kind ≠ .symbol .comma → c.Forks J d →
      (f a c).Forks J Straight plain (g b d))
    (meets : ∀ a b, Rule.Meets J D Straight plain (f a) (g b)) (n n' : Nat) :
    Rule.Forks J Straight plain (commas item n >>= f) (commas item' n' >>= g) := by
  have left (a : List ι) : (f a).Forward J.left 0 := fun c => (eager a c).mono (Nat.zero_le 1)
  induction n generalizing n' f g with
  | zero =>
    have forward : (commas item' n' >>= g).Forward J.right 0 := fun d =>
      (commas_forward J.rightEnds hitem.right n' d).bind right
    exact .spent forward
  | succ n ih =>
    have forward : (commas item (n + 1) >>= f).Forward J.left 0 := fun c =>
      (commas_forward J.leftEnds hitem.left (n + 1) c).bind left
    cases n' with
    | zero => exact .spent_right forward
    | succ n' =>
      have forward' : (commas item' (n' + 1) >>= g).Forward J.right 0 := fun d =>
        (commas_forward J.rightEnds hitem.right (n' + 1) d).bind right
      refine ⟨forward, forward', ?_⟩
      intro c d cursors
      rw [commas_bind, commas_bind]
      have yes : Rule.Forks J Straight plain
          (do let first ← item; commas item n >>= fun rest => f (first :: rest))
          (do let first ← item'; commas item' n' >>= fun rest => g (first :: rest)) := by
        apply hitem.bind
        · intro first first' _
          exact ih (fun a => eager _) (fun b => right _) (fun a b => hf _ _)
            (fun a b => meets _ _) n' fun a => left _
        · intro first first'
          exact commas_bind_meets halts hitem.left (fun a => left _) (fun a b => meets _ _) n n'
      exact Rule.Forks.ifAccept_at (by simp) cursors yes (left [] c) (.inr (eager [] c))
        fun other => hf [] [] c d other cursors

end Commas

theorem ifName_forks {α σ : Type} {D : Drift → Cursor → Prop} {view : α → σ}
    {f g : String → Rule α} {p q : Rule α} (hf : ∀ a b, Rule.Forks J D view (f a) (g b))
    (eager : p.Forward J.left 1) (right : q.Forward J.right 0)
    (no : ∀ c d, d.kind ≠ .identifier → c.Forks J d → (p c).Forks J D view (q d)) :
    Rule.Forks J D view (do if (← here).kind = .identifier then name >>= f else p)
      (do if (← here).kind = .identifier then name >>= g else q) := by
  have yes : Rule.Forks J D view (name >>= f) (name >>= g) :=
    Rule.Forks.name.bind (fun a b _ => hf a b) fun _ _ => .straight
  have left (c : Cursor) :
      (if c.kind = .identifier then name >>= f else p).ForwardAt J.left 0 c := by
    split
    · exact yes.left c
    · exact (eager c).mono (Nat.zero_le 1)
  have right' (d : Cursor) :
      (if d.kind = .identifier then name >>= g else q).ForwardAt J.right 0 d := by
    split
    · exact yes.right d
    · exact right d
  refine ⟨left, right', ?_⟩
  intro c d cursors
  rw [fromHere_eq, fromHere_eq]
  rcases Nat.lt_or_eq_of_le cursors.le with less | at_
  · rw [← cursors.kind less]
    split
    · exact yes.forks c d cursors
    · next other => exact no c d (cursors.kind less ▸ other) cursors
  · by_cases is : c.kind = .identifier
    · rw [if_pos is]
      have first : J.stray.Lost (fun _ => False) (name c) :=
        Drift.lost_of_begins (W := J.stray) (BeginsAt.name (s := 0) J.leftEnds) cursors.left
          (Nat.le_of_eq at_.symm) (by simp [is])
      exact .stray (first.bind (fun a => (hf a a).left) fun _ _ never => never.elim) _
    rw [if_neg is]
    by_cases is' : d.kind = .identifier
    · rw [if_pos is']
      have first : J.branch.Lost (fun _ => False) (name d) :=
        Drift.lost_of_begins (W := J.branch) (BeginsAt.name (s := 0) J.rightEnds) cursors.right
          (Nat.le_of_eq (at_.symm.trans cursors.index)) (by simp [is'])
      have past : J.branch.Lost (fun _ => False) ((name >>= g) d) :=
        first.bind (fun b => (hf b b).right) fun _ _ never => never.elim
      have moves := eager c cursors.left
      rw [at_] at moves
      exact .reached (cursors.parts at_ (is' ▸ is)) (moves.before (m := 0) (Nat.le_refl _)
        (Nat.zero_le _)) (.inr moves) past
    · rw [if_neg is']
      exact no c d is' cursors

theorem parameters_forks :
    Rule.Forks J Straight plain (parameters fuel) (parameters fuel') := by
  apply ifName_forks
  · intro first first'
    rw [moreNames_eq, moreNames_eq]
    apply commas_bind_forks (fun _ _ never => never.elim) Rule.Forks.name
    · exact fun _ c => (ForwardAt.expect J.leftEnds (by simp)).bind fun _ _ => .pure
    · exact fun _ d => (ForwardAt.expect J.rightEnds (by simp)).bind fun _ _ => .pure
    · intro rest rest' c d other cursors
      exact Rule.Forks.expect_bind_at (by simp) cursors (fun _ => by simp [other])
        fun _ _ => .pure rfl
    · exact fun _ _ => .straight
  · exact fun c => (ForwardAt.expect J.leftEnds (by simp)).bind fun _ _ => .pure
  · exact fun d => (ForwardAt.expect J.rightEnds (by simp)).bind fun _ _ => .pure
  · intro c d other cursors
    exact Rule.Forks.expect_bind_at (by simp) cursors (fun _ => by simp [other])
      fun _ _ => .pure rfl

theorem functionHead_forks : Rule.Forks J Straight plain functionHead functionHead := by
  apply ifName_forks
  · intro given given'
    exact (Rule.Forks.expect (by decide)).bind (fun _ _ _ => .pure rfl) fun _ _ => .straight
  · exact fun c => (ForwardAt.expect J.leftEnds (by simp)).bind fun _ _ => .pure
  · exact fun d => (ForwardAt.expect J.rightEnds (by simp)).bind fun _ _ => .pure
  · intro c d other cursors
    exact Rule.Forks.expect_bind_at (by simp) cursors (fun _ => by simp [other])
      fun _ _ => .pure rfl

theorem function_forks (hself : ExpressionForks J k k') (m n : Mark) :
    Rule.Forks J Drift.Strayed plain (function fuel (level k) m)
      (function fuel' (level k') n) := by
  apply functionHead_forks.bind _ fun _ _ => .straight
  intro given given' _
  apply parameters_forks.bind _ fun _ _ => .straight
  intro params params' _
  have inline : Rule.Forks J Drift.Strayed plain
      (do
        let node ← level k .expression
        return .function given params node true (← markFrom m) : Rule Tree)
      (do
        let node ← level k' .expression
        return .function given' params' node true (← markFrom n) : Rule Tree) :=
    hself.bind (fun _ _ _ => marked_forks) fun _ _ => marked_meets
  have block : Rule.Forks J Drift.Strayed plain
      (do
        let node ← closedBlock fuel (level k)
        return .function given params node false (← markFrom m) : Rule Tree)
      (do
        let node ← closedBlock fuel' (level k')
        return .function given' params' node false (← markFrom n) : Rule Tree) :=
    (closedBlock_forks hself).bind (fun _ _ _ => marked_forks) fun _ _ => .straight
  have refused {ts : List Token} (c : Cursor) :
      (unexpected [.symbol .arrow, .newline] : Rule Tree).ForwardAt ts 0 c := .unexpected
  have toBlock (c : Cursor) :=
    ForwardAt.ifAccept (n := 0) J.leftEnds (x := .newline) (by simp) block.left (refused c)
  refine ⟨fun c => .ifAccept J.leftEnds (by simp) inline.left (toBlock c), fun d =>
    .ifAccept J.rightEnds (by simp) inline.right
      (.ifAccept J.rightEnds (by simp) block.right (refused d)), ?_⟩
  intro c d cursors
  apply Rule.Forks.ifAccept_at (by simp) cursors inline (toBlock c) (.inl (by decide))
  intro notArrow
  apply Rule.Forks.ifAccept_at (by simp) cursors block (refused c) (.inl (by decide))
  intro notNewline
  exact .failed cursors.left.current cursors.right.current
    (cursors.failure (fun _ => by simp [notArrow, notNewline]) _)

abbrev afterItem (fuel : Nat) (self : Level → Rule Tree) (close : Symbol) (first : Tree) :
    Rule (List Tree) := do
  let rest ← moreExpressions self fuel
  let _ ← expect (.symbol close) [.symbol .comma, .symbol close]
  return first :: rest

section Items

variable {close : Symbol}

theorem afterItem_forks (hself : ExpressionForks J k k')
    (out : Token.Kind.symbol close ∉ .eof :: expressionStart)
    (closes : [.symbol .comma, .symbol close] ⊆ closers) (first first' : Tree) :
    Rule.Forks J Straight plain (afterItem fuel (level k) close first)
        (afterItem fuel' (level k') close first') ∧
      Rule.Meets J Drift.Strayed Straight plain (afterItem fuel (level k) close first)
        (afterItem fuel' (level k') close first') := by
  unfold afterItem
  rw [moreExpressions_eq, moreExpressions_eq]
  have meets (rest rest' : List Tree) : Rule.Meets J Drift.Strayed Straight plain
      (do
        let _ ← expect (.symbol close) [.symbol .comma, .symbol close]
        return first :: rest : Rule (List Tree))
      (do
        let _ ← expect (.symbol close) [.symbol .comma, .symbol close]
        return first' :: rest' : Rule (List Tree)) :=
    .expect out closes fun _ _ => .pure
  have closed {ts : List Token} (ends : Token.Terminated ts) (first : Tree) (rest : List Tree) :
      (do
        let _ ← expect (.symbol close) [.symbol .comma, .symbol close]
        return first :: rest : Rule (List Tree)).Forward ts 1 :=
    fun c => (ForwardAt.expect ends (by simp)).bind fun _ _ => .pure
  have forward {ts : List Token} (ends : Token.Terminated ts) (first : Tree) (rest : List Tree) :=
    fun c => (closed ends first rest c).mono (Nat.zero_le 1)
  constructor
  · apply commas_bind_forks (fun _ _ => Drift.Strayed.halted) hself (closed J.leftEnds first)
      (forward J.rightEnds first') _ meets
    intro rest rest' c d other cursors
    exact Rule.Forks.expect_bind_at (by simp) cursors (fun _ => by simp [other])
      fun _ _ => .pure rfl
  · exact commas_bind_meets (fun _ _ => Drift.Strayed.halted) hself.left (forward J.leftEnds first)
      meets fuel fuel'

theorem items_forks (hself : ExpressionForks J k k')
    (out : Token.Kind.symbol close ∉ .eof :: expressionStart)
    (closes : [.symbol .comma, .symbol close] ⊆ closers) :
    Rule.Forks J Straight plain (items fuel (level k) close) (items fuel' (level k') close) := by
  have after := @afterItem_forks J k k' fuel fuel' close hself out closes
  refine ⟨items_forward J.leftEnds fuel k close, items_forward J.rightEnds fuel' k' close, ?_⟩
  intro c d cursors
  have eager : (describing (level k .expression) (.symbol close :: expressionStart) >>=
      afterItem fuel (level k) close).ForwardAt J.left 1 c :=
    (((level_proceeds J.leftEnds k .expression c).forward (Nat.le_refl 1)).describing _).bind
      fun first => (after first first).1.left
  have empty : Rule.Forks J Straight plain (pure [] : Rule (List Tree)) (pure []) := .pure rfl
  apply Rule.Forks.ifAccept_at (by simp) cursors empty (eager.mono (Nat.zero_le 1)) (.inr eager)
  intro other
  have described : (describing (level k .expression) (.symbol close :: expressionStart) c).Forks J
      Drift.Strayed plain
      (describing (level k' .expression) (.symbol close :: expressionStart) d) := by
    apply (hself.forks c d cursors).describing cursors hself.right
    intro _ f fails first
    have opens := (level_begins J.rightEnds k' .expression d cursors.right).2
    rw [fails] at opens
    rw [List.mem_cons, not_or]
    exact ⟨other, opens.out first⟩
  apply described.bind (fun first => (after first first).1.left)
    (fun first => (after first first).1.right) _ fun first first' => (after first first').2
  exact fun first first' c' d' _ _ cursors' => (after first first').1.forks c' d' cursors'

end Items

theorem atom_forks (hself : ExpressionForks J k k') :
    Rule.Forks J Drift.Strayed plain (atom fuel (level k)) (atom fuel' (level k')) := by
  apply Rule.Forks.begins (atom_begins J.leftEnds (level_starts J.leftEnds k) (Nat.zero_le fuel))
    (atom_begins J.rightEnds (level_starts J.rightEnds k') (Nat.zero_le fuel'))
  intro c d cursors less
  unfold atom
  rw [fromHere_eq, fromHere_eq, ← cursors.content less]
  have advanced {x : Token.Content} (is : c.current.content = x) (more : x.kind ≠ .eof) :
      c.advance.Forks J d.advance :=
    cursors.advance less (Cursor.kind_of_content is ▸ more)
  generalize is : c.current.content = x
  split
  · exact .done rfl (advanced is nofun)
  · exact .done rfl (advanced is nofun)
  · exact .done rfl (advanced is nofun)
  · exact .done rfl (advanced is nofun)
  · exact (hself.closing (x := .symbol .rightParen) (by decide) (by decide)
      fun _ _ _ _ _ => .ignored).forks _ _ (advanced is nofun)
  · exact ((items_forks hself (by decide) (by decide)).bind (fun _ _ _ => marked_forks)
      fun _ _ => .straight).forks _ _ (advanced is nofun)
  · exact (conditional_forks hself _ _).forks _ _ (advanced is nofun)
  · exact (forLoop_forks hself _ _).forks _ _ (advanced is nofun)
  · exact (whileLoop_forks hself _ _).forks _ _ (advanced is nofun)
  · exact (function_forks hself _ _).forks _ _ (advanced is nofun)
  · exact .failed cursors.left.current cursors.right.current
      (cursors.failure (fun at_ => absurd at_ (Nat.ne_of_lt less)) _)

theorem callsFrom_forks (hself : ExpressionForks J k k') {D : Drift → Cursor → Prop} (n n' : Nat)
    (t t' : Tree) : Rule.Forks J D plain (callsFrom fuel (level k) n t)
      (callsFrom fuel' (level k') n' t') := by
  induction n generalizing n' t t' with
  | zero => exact .spent (callsFrom_forward J.rightEnds fuel' k' n' t')
  | succ n ih =>
    cases n' with
    | zero => exact .spent_right (callsFrom_forward J.leftEnds fuel k (n + 1) t)
    | succ n' =>
      apply Rule.Forks.ifAccept (by decide) _ .ignored
      apply (items_forks hself (by decide) (by decide)).bind _ fun _ _ => .straight
      intro args args' _
      exact Rule.Forks.markFrom.bind (fun _ _ _ => ih n' _ _) fun _ _ => .straight

end Constructs

section Loops

variable {J : Fork} {k k' : Nat} {D E : Drift → Cursor → Prop}

theorem operandsFrom_forks {ops : List BinaryOp} {right right' : Rule Tree}
    (hright : Rule.Forks J D plain right right')
    (meets : ∀ n n' t t', Rule.Meets J D E plain (operandsFrom ops right n t)
      (operandsFrom ops right' n' t')) (n n' : Nat) (t t' : Tree) :
    Rule.Forks J E plain (operandsFrom ops right n t) (operandsFrom ops right' n' t') := by
  have left (n : Nat) (t : Tree) : (operandsFrom ops right n t).Forward J.left 0 :=
    operandsFrom_forward J.leftEnds hright.left n t
  have right_ (n : Nat) (t : Tree) : (operandsFrom ops right' n t).Forward J.right 0 :=
    operandsFrom_forward J.rightEnds hright.right n t
  have kind (op : BinaryOp) : op.kind ∉ .eof :: closers := by cases op <;> decide
  induction n generalizing n' t t' with
  | zero => exact .spent (right_ n' t')
  | succ n ih =>
    cases n' with
    | zero => exact .spent_right (left (n + 1) t)
    | succ n' =>
      refine ⟨left (n + 1) t, right_ (n' + 1) t', ?_⟩
      intro c d cursors
      have operand (op : BinaryOp) := hright.bind
        (fun u u' _ => ih n' (.binary op t u (t.note.through u.note))
          (.binary op t' u' (t'.note.through u'.note))) fun _ _ => meets n n' _ _
      cases found : ops.find? (·.kind = c.kind) with
      | some op =>
        have is : op.kind = c.kind := by simpa using List.find?_some found
        have more : c.kind ≠ .eof := by
          rw [← is]
          exact fun eof => kind op (eof ▸ List.mem_cons_self ..)
        rw [operandsFrom_turn found]
        rcases Nat.lt_or_eq_of_le cursors.le with less | at_
        · rw [operandsFrom_turn (cursors.kind less ▸ found)]
          exact (operand op).forks _ _ (cursors.advance less more)
        · exact .stray ((cursors.passed at_ more).lost (operand op).left) _
      | none =>
        rw [operandsFrom_stop found]
        cases found' : ops.find? (·.kind = d.kind) with
        | none =>
          rw [operandsFrom_stop found']
          exact .done rfl cursors
        | some op =>
          -- only the second list goes on here
          have is : op.kind = d.kind := by simpa using List.find?_some found'
          have other : c.kind ≠ d.kind := by
            intro same
            rw [same, found'] at found
            cases found
          have at_ : c.index = J.edge :=
            (Nat.lt_or_eq_of_le cursors.le).resolve_left fun less => other (cursors.kind less)
          have there : op.kind = J.there.kind :=
            is.trans (congrArg Token.kind (cursors.there at_))
          have out := kind op
          rw [List.mem_cons, not_or] at out
          rw [operandsFrom_turn found']
          have past := (cursors.passed_right at_ (is ▸ out.1)).lost (D := E J.branch)
            (operand op).right
          exact .stopped (cursors.parts at_ other) (there ▸ out.2) cursors.left at_ past

theorem operands_forks {ops : List BinaryOp} {left left' right right' : Rule Tree}
    {C : Drift → Cursor → Prop} {fuel fuel' : Nat} (hleft : Rule.Forks J C plain left left')
    (hright : Rule.Forks J D plain right right')
    (first : ∀ t t', Rule.Meets J C E plain (operandsFrom ops right fuel t)
      (operandsFrom ops right' fuel' t'))
    (meets : ∀ n n' t t', Rule.Meets J D E plain (operandsFrom ops right n t)
      (operandsFrom ops right' n' t')) :
    Rule.Forks J E plain (operands fuel left ops right) (operands fuel' left' ops right') :=
  hleft.bind (fun t t' _ => operandsFrom_forks hright meets fuel fuel' t t') first

theorem loop_passed {W : Drift} {C : Cursor → Prop} {r : Rung} {c : Cursor}
    (poised : c.Poised W.tokens) (reached : W.edge ≤ c.index) (goes : r.continues c.kind = true)
    (k n : Nat) (t : Tree) : W.Lost C (r.loop k n t c) := by
  cases n with
  | zero =>
    rw [Rung.loop_zero]
    trivial
  | succ n =>
    have more : c.kind ≠ .eof := by
      intro eof
      rw [eof] at goes
      cases r <;> cases goes
    have passed : W.Passed c.advance := .advance poised more reached
    have operands (ops : List BinaryOp) {right : Rule Tree}
        (goes : (ops.find? (·.kind = c.kind)).isSome = true) (hright : right.Forward W.tokens 0) :
        W.Lost C (operandsFrom ops right (n + 1) t c) := by
      obtain ⟨op, found⟩ := Option.isSome_iff_exists.1 goes
      rw [operandsFrom_turn found]
      apply passed.lost
      exact fun d => (hright d).bind fun _ => operandsFrom_forward W.terminated hright n _
    cases r with
    | call =>
      rw [show Rung.call.loop k (n + 1) t c = _ from callsFrom_turn (of_decide_eq_true goes)]
      apply passed.lost
      intro d
      apply (items_forward W.terminated (k + 1) k .rightParen d).bind
      intro args d
      exact ForwardAt.markFrom.bind fun _ => callsFrom_forward W.terminated (k + 1) k n _
    | power => exact operands Rung.power.ops goes (level_forward W.terminated k .factor)
    | expression | comparison | factor | atom => cases goes
    | _ =>
      exact operands (Rung.ops _) goes
        ((Rung.rule_proceeds W.terminated k _).forward (Nat.zero_le 1))

theorem loop_meets (r : Rung) (lost : ∀ (W : Drift) (c : Cursor), D W c → ∀ k n t,
      W.Lost (E W) (r.loop k n t c)) (k k' n n' : Nat) (t t' : Tree) :
    Rule.Meets J D E plain (r.loop k n t) (r.loop k' n' t') where
  stray c strayed := lost J.stray c strayed k n t
  blocked parts c d strayed past := by
    have stops : r.continues d.kind = false := by
      rw [past.eof parts]
      cases r <;> decide
    cases n' with
    | zero =>
      rw [Rung.loop_zero]
      exact .spent _
    | succ n' =>
      rw [r.loop_stop stops]
      exact .blocked parts (lost J.blocked c strayed k n t) past
  branch parts closes c d poised index strayed := by
    cases goes : r.continues c.kind with
    | true =>
      exact .stray (loop_passed (W := J.stray) poised (Nat.le_of_eq index.symm) goes k n t) _
    | false =>
      cases n with
      | zero =>
        rw [Rung.loop_zero]
        exact .stray (o := .spent) trivial _
      | succ n =>
        rw [r.loop_stop goes]
        exact .stopped parts closes poised index (lost J.branch d strayed k' n' t')

end Loops

/-- Where a reading of a level that went astray can end. -/
def Level.Away : Level → Drift → Cursor → Prop
  | .expression => Drift.Strayed
  | .comparison => fun W => W.Astray [.logic]
  | .factor => fun W c => W.Astray [.power, .term, .arithmetic, .chain, .logic] c ∧
      W.Astray [.term, .arithmetic, .chain, .logic] c

section Levels

variable {J : Fork} {k k' : Nat}

abbrev SelfForks (J : Fork) (k k' : Nat) : Prop :=
  ∀ l, Rule.Forks J l.Away plain (level k l) (level k' l)

theorem factor_forks (hself : SelfForks J k k') :
    Rule.Forks J Level.factor.Away plain (factor (k + 1) (level k))
      (factor (k' + 1) (level k')) := by
  have call : Rule.Forks J (fun W => W.Astray [.power, .term, .arithmetic, .chain, .logic]) plain
      (call (k + 1) (level k)) (call (k' + 1) (level k')) :=
    (atom_forks (hself .expression)).bind
      (fun t t' _ => callsFrom_forks (hself .expression) (k + 1) (k' + 1) t t')
      (loop_meets .call (fun _ _ strayed => strayed.astray.loop) k k' (k + 1) (k' + 1))
  have power : Rule.Forks J Level.factor.Away plain (power (k + 1) (level k))
      (power (k' + 1) (level k')) :=
    operands_forks call (hself .factor)
      (loop_meets .power (fun _ _ astray => astray.powers) k k' (k + 1) (k' + 1))
      (loop_meets .power (fun _ _ astray => astray.1.powers) k k')
  apply Rule.Forks.begins (level_begins J.leftEnds (k + 1) .factor)
    (level_begins J.rightEnds (k' + 1) .factor)
  intro c d cursors less
  have advanced {x : Token.Kind} (is : c.kind = x) (more : x ≠ .eof) :
      c.advance.Forks J d.advance :=
    cursors.advance less (is ▸ more)
  have operand {f g : Tree → Tree} : Rule.Forks J Level.factor.Away plain
      (do return f (← level k .factor)) (do return g (← level k' .factor)) :=
    (hself .factor).bind (fun _ _ _ => .ignored) fun _ _ => .pure
  change (factor (k + 1) (level k) c).Forks J _ _ (factor (k' + 1) (level k') d)
  unfold factor
  rw [fromHere_eq, fromHere_eq, ← cursors.kind less]
  generalize is : c.kind = x
  split
  · exact operand.forks _ _ (advanced is nofun)
  · exact operand.forks _ _ (advanced is nofun)
  · exact power.forks c d cursors

theorem arithmetic_forks (hself : SelfForks J k k') :
    Rule.Forks J (fun W => W.Astray [.chain, .logic]) plain (arithmetic (k + 1) (level k))
      (arithmetic (k' + 1) (level k')) := by
  have factor := factor_forks hself
  have term : Rule.Forks J (fun W => W.Astray [.arithmetic, .chain, .logic]) plain
      (term (k + 1) (level k)) (term (k' + 1) (level k')) :=
    operands_forks factor factor
      (loop_meets .term (fun _ _ astray => astray.2.loop) k k' (k + 1) (k' + 1))
      (loop_meets .term (fun _ _ astray => astray.2.loop) k k')
  exact operands_forks term term
    (loop_meets .arithmetic (fun _ _ astray => astray.loop) k k' (k + 1) (k' + 1))
    (loop_meets .arithmetic (fun _ _ astray => astray.loop) k k')

theorem comparison_forks (hself : SelfForks J k k') :
    Rule.Forks J Level.comparison.Away plain (comparison (k + 1) (level k))
      (comparison (k' + 1) (level k')) := by
  have arithmetic := arithmetic_forks hself
  have chain : Rule.Forks J Level.comparison.Away plain (Rung.chain.rule (k + 1) (level k))
      (Rung.chain.rule (k' + 1) (level k')) :=
    operands_forks arithmetic arithmetic
      (loop_meets .chain (fun _ _ astray => astray.loop) k k' (k + 1) (k' + 1))
      (loop_meets .chain (fun _ _ astray => astray.loop) k k')
  apply Rule.Forks.begins (level_begins J.leftEnds (k + 1) .comparison)
    (level_begins J.rightEnds (k' + 1) .comparison)
  intro c d cursors less
  change (comparison (k + 1) (level k) c).Forks J _ _ (comparison (k' + 1) (level k') d)
  unfold comparison
  rw [fromHere_eq, fromHere_eq, ← cursors.kind less]
  generalize is : c.kind = x
  split
  · have operand {f g : Tree → Tree} : Rule.Forks J Level.comparison.Away plain
        (do return f (← level k .comparison)) (do return g (← level k' .comparison)) :=
      (hself .comparison).bind (fun _ _ _ => .ignored) fun _ _ => .pure
    exact operand.forks _ _ (cursors.advance less (by rw [is]; nofun))
  · exact chain.forks c d cursors

theorem expression_forks (hself : SelfForks J k k') :
    Rule.Forks J Level.expression.Away plain (expression (k + 1) (level k))
      (expression (k' + 1) (level k')) := by
  have comparison := comparison_forks hself
  have last (W : Drift) (c : Cursor) (astray : W.Astray [.logic] c) (k n : Nat) (t : Tree) :
      W.Lost W.Strayed (Rung.logic.loop k n t c) := (astray.loop k n t).ended
  have logic : Rule.Forks J Drift.Strayed plain (Rung.logic.rule (k + 1) (level k))
      (Rung.logic.rule (k' + 1) (level k')) :=
    operands_forks comparison comparison (loop_meets .logic last k k' (k + 1) (k' + 1))
      (loop_meets .logic last k k')
  apply Rule.Forks.begins (level_begins J.leftEnds (k + 1) .expression)
    (level_begins J.rightEnds (k' + 1) .expression)
  intro c d cursors less
  change (expression (k + 1) (level k) c).Forks J _ _ (expression (k' + 1) (level k') d)
  unfold expression
  rw [fromHere_eq, fromHere_eq, ← cursors.kind less]
  generalize is : c.kind = x
  split
  · have assigned : Rule.Forks J Drift.Strayed plain
        (do
          let target ← name
          let _ ← symbol .assign
          let value ← level k .expression
          return .assign target value (c.mark.through value.note) : Rule Tree)
        (do
          let target ← name
          let _ ← symbol .assign
          let value ← level k' .expression
          return .assign target value (d.mark.through value.note) : Rule Tree) := by
      apply Rule.Forks.name.bind _ fun _ _ => .straight
      intro target target' _
      apply (Rule.Forks.expect (by decide)).bind _ fun _ _ => .straight
      intro _ _ _
      exact (hself .expression).bind (fun _ _ _ => .ignored) fun _ _ => .pure
    exact assigned.forks _ _ (cursors.advance less (by rw [is]; nofun))
  · exact (logic.forks c d cursors).describing cursors logic.right
      fun at_ => absurd at_ (Nat.ne_of_lt less)

theorem level_forks (J : Fork) (k k' : Nat) : SelfForks J k k' := by
  induction k generalizing k' with
  | zero => exact fun l => .spent (level_forward J.rightEnds k' l)
  | succ k ih =>
    cases k' with
    | zero => exact fun l => .spent_right (level_forward J.leftEnds (k + 1) l)
    | succ k' =>
      intro l
      cases l with
      | expression => exact expression_forks (ih k')
      | comparison => exact comparison_forks (ih k')
      | factor => exact factor_forks (ih k')

end Levels

end ScriptLang.Grammar
