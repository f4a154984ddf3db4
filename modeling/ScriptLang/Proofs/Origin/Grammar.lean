import ScriptLang.Proofs.Origin.Reading

/-! Every rule of the grammar leaves the trees that it reads open at most towards the next token:
one lemma for each rule, then all levels together by induction on their number. -/
namespace ScriptLang.Grammar

open Rule Node

/-- A tree all of whose constructs are open at most where the cursor stands. -/
abbrev Tip (ts : List Token) (t : Tree) (c : Cursor) : Prop := t.Every (Open ts c.index)

/-- What a level leaves behind. A comparison may have taken a sign for an operator. -/
def Level.Left (ts : List Token) : Level → Tree → Cursor → Prop
  | .comparison, t, c => Tip ts t c ∨ c.Doomed [.logic]
  | _, t, c => Tip ts t c

abbrev SelfReads (ts : List Token) (self : Level → Rule Tree) : Prop :=
  ∀ l, (self l).Reads ts (l.Left ts)

theorem Tip.settle {ts : List Token} {t : Tree} {c : Cursor} (h : Tip ts t c) (place : c.At ts)
    {x : Token.Kind} (is : c.kind = x) (parts : x.Parts) : t.Every (Settled ts) :=
  Every.settle place h (is ▸ parts)

theorem Tip.carry {ts : List Token} {t : Tree} {c c' : Cursor} (h : Tip ts t c) (place : c.At ts)
    {x : Token.Kind} (moved : c' = c ∨ c.kind = x) (parts : x.Parts) : Tip ts t c' := by
  rcases moved with rfl | is
  · exact h
  · exact (h.settle place is parts).opened _

section Statements

variable {ts : List Token} {k fuel : Nat}

theorem newlines_reads (n : Nat) (c : Cursor) : (newlines n).ReadsAt ts
    (fun some c' => if some then c.kind = .newline else c' = c) c := by
  induction n generalizing c with
  | zero => exact .spent
  | succ n ih =>
    apply ReadsAt.ifAccept
    · intro is
      apply (ih c.advance).bind
      intro _ c' _ _
      exact .pure is
    · exact .pure rfl

theorem statement_reads (ended : Token.Ended ts) (hself : SelfReads ts (level k)) :
    (statement (level k)).Reads ts (Tip ts) := by
  intro c
  apply ReadsAt.placed
  intro start
  apply ReadsAt.fromHere
  split
  · next is =>
    apply ReadsAt.advance.bind
    intro _ c' place eq
    have twin : Token.Twin ts ts := ⟨rfl, ended.ascending, ended.ascending⟩
    apply ((hself .expression c').attempt fun e =>
      (level_alike twin k .expression).failure_at place).bind
    intro value d _ read
    cases value with
    | some value => exact .pure (.node (.inl trivial) (List.forall_mem_singleton.2 read) nofun)
    | none =>
      obtain ⟨index, e, fails⟩ := read
      have next : c'.index = c.index + 1 := by
        rw [eq]
        exact ended.advance_index start (by rw [is]; exact nofun)
      have valueless : Token.Valueless ts c.index :=
        ⟨⟨c.current, start.current, is⟩, k, c', e, place, next, fails⟩
      have open_ : Open ts d.index (.returns none c.mark) :=
        .inr ⟨c.mark, rfl, valueless, (index.trans next).symm⟩
      exact .pure (.node open_ nofun nofun)
  · apply ReadsAt.advance.bind
    intro _ c' _ _
    exact .pure (.node (.inl trivial) nofun nofun)
  · apply ReadsAt.advance.bind
    intro _ c' _ _
    exact .pure (.node (.inl trivial) nofun nofun)
  · exact (hself .expression c).describing _

abbrev Tips (ts : List Token) (row : List Tree) (c : Cursor) : Prop := ∀ t ∈ row, Tip ts t c

theorem statementsFrom_reads (ended : Token.Ended ts) (hself : SelfReads ts (level k)) (n : Nat) :
    (statementsFrom fuel (level k) n).Reads ts fun read c' => Tips ts read.1 c' := by
  induction n with
  | zero => exact fun _ => .spent
  | succ n ih =>
    intro c
    apply ReadsAt.placed
    intro place
    have twin : Token.Twin ts ts := ⟨rfl, ended.ascending, ended.ascending⟩
    apply ((statement_reads ended hself c).attempt fun e =>
      (statement_alike twin (level_alike twin k)).failure_at place).bind
    intro first d place' read
    cases first with
    | none => exact .pure nofun
    | some first =>
      apply (newlines_reads fuel d).bind
      intro separated d' place'' separator
      cases separated with
      | true =>
        have settled := Tip.settle read place' separator (by decide)
        apply (ih d').bind
        intro rest c' _ tips
        exact .pure (List.forall_mem_cons.2 ⟨settled.opened _, tips⟩)
      | false =>
        obtain rfl : d' = d := separator
        exact .pure (List.forall_mem_singleton.2 read)

theorem statements_reads (ended : Token.Ended ts) (hself : SelfReads ts (level k)) :
    (statements fuel (level k)).Reads ts fun read c' => Tip ts read.1 c' := by
  intro c
  apply ReadsAt.fromHere
  apply (newlines_reads fuel c).bind
  intro _ d _ _
  apply (statementsFrom_reads ended hself fuel d).bind
  intro read c' _ tips
  exact .pure (.node (.inl trivial) tips nofun)

theorem unexpectedInSequence_reads {α : Type} {P : α → Cursor → Prop} (expecting : Bool)
    (terminators : List Token.Kind) (c : Cursor) :
    (unexpectedInSequence expecting terminators : Rule α).ReadsAt ts P c :=
  fun _ a c' eq => absurd eq (unexpectedInSequence_ne_done expecting terminators c c' a)

theorem closedBlock_reads (ended : Token.Ended ts) (hself : SelfReads ts (level k)) :
    (closedBlock fuel (level k)).Reads ts (Tip ts) := by
  intro c
  apply (statements_reads ended hself c).bind
  intro read d place tip
  apply ReadsAt.ifAccept
  · intro is
    exact .pure ((tip.settle place is (by decide)).opened _)
  · exact unexpectedInSequence_reads _ _ _

theorem body_reads (ended : Token.Ended ts) (hself : SelfReads ts (level k)) :
    (body fuel (level k)).Reads ts fun read c' => Tip ts read.1 c' := by
  intro c
  apply ReadsAt.ifAccept
  · intro _
    apply (closedBlock_reads ended hself c.advance).bind
    intro t c' _ tip
    exact .pure tip
  · apply (statement_reads ended hself c).bind
    intro t d place tip
    apply ReadsAt.ifAccept
    · intro is
      exact .pure ((tip.settle place is (by decide)).opened _)
    · exact .pure tip

theorem otherwise_reads (ended : Token.Ended ts) (hself : SelfReads ts (level k)) :
    (otherwise fuel (level k)).Reads ts fun read c' => Tip ts read.1.body c' := by
  intro c
  apply (body_reads ended hself c).bind
  intro read c' _ tip
  exact .pure tip

structure Chain (ts : List Token) (arms : List (Arm Tree)) (last : Option (Otherwise Tree))
    (c : Cursor) : Prop where
  arms : ∀ arm ∈ arms, Tip ts arm.condition c ∧ Tip ts arm.body c
  last : ∀ o ∈ last, Tip ts o.body c

theorem arms_reads (ended : Token.Ended ts) (hself : SelfReads ts (level k)) (n : Nat) :
    (arms fuel (level k) n).Reads ts fun read c' => Chain ts read.1 read.2.1 c' := by
  induction n with
  | zero => exact fun _ => .spent
  | succ n ih =>
    intro c
    apply (hself .expression c).bind
    intro condition d place tip
    apply ReadsAt.expect.bind
    intro _ d' _ is
    have condition_ := Tip.settle tip place is (by decide)
    -- one arm, and what follows it
    have single {b : Tree} {suppress : Bool} {c' : Cursor} (h : Tip ts b c') :
        Chain ts [⟨condition, b, suppress⟩] none c' :=
      ⟨List.forall_mem_singleton.2 ⟨condition_.opened _, h⟩, nofun⟩
    have chained {b : Tree} {suppress : Bool} (h : b.Every (Settled ts)) (e : Cursor) :
        (do let read ← arms fuel (level k) n
            return (⟨condition, b, suppress⟩ :: read.1, read.2) :
          Rule (List (Arm Tree) × Option (Otherwise Tree) × Bool)).ReadsAt ts
            (fun read c' => Chain ts read.1 read.2.1 c') e := by
      apply (ih e).bind
      intro read c' _ chain
      apply ReadsAt.pure
      exact ⟨List.forall_mem_cons.2 ⟨⟨condition_.opened _, h.opened _⟩, chain.arms⟩, chain.last⟩
    have finished {b : Tree} {suppress : Bool} (closed : Form → Bool) (h : b.Every (Settled ts))
        (e : Cursor) :
        (do let read ← otherwise fuel (level k)
            return ([⟨condition, b, suppress⟩], some read.1, closed read.2) :
          Rule (List (Arm Tree) × Option (Otherwise Tree) × Bool)).ReadsAt ts
            (fun read c' => Chain ts read.1 read.2.1 c') e := by
      apply (otherwise_reads ended hself e).bind
      intro last c' _ tip'
      apply ReadsAt.pure
      exact ⟨(single (h.opened _)).arms, by rintro _ ⟨⟩; exact tip'⟩
    apply ReadsAt.ifAccept
    · intro _
      apply (statements_reads ended hself d'.advance).bind
      intro read e place' tip'
      apply ReadsAt.ifAccept
      · intro is'
        exact .pure (single ((tip'.settle place' is' (by decide)).opened _))
      · apply ReadsAt.ifAccept
        · intro is'
          exact chained (tip'.settle place' is' (by decide)) e.advance
        · apply ReadsAt.ifAccept
          · intro is'
            exact finished (fun _ => false) (tip'.settle place' is' (by decide)) e.advance
          · exact unexpectedInSequence_reads _ _ _
    · apply (statement_reads ended hself d').bind
      intro b e place' tip'
      apply ReadsAt.ifAccept
      · intro is'
        exact chained (tip'.settle place' is' (by decide)) e.advance
      · apply ReadsAt.ifAccept
        · intro is'
          exact finished (fun form => form = .closedInline) (tip'.settle place' is' (by decide))
            e.advance
        · apply ReadsAt.ifAccept
          · intro is'
            exact .pure (single ((tip'.settle place' is' (by decide)).opened _))
          · exact .pure (single tip')

end Statements

section Constructs

variable {ts : List Token} {k fuel : Nat}

theorem conditional_reads (ended : Token.Ended ts) (hself : SelfReads ts (level k)) {c : Cursor}
    (start : c.At ts) (is : c.kind = .keyword .IF) :
    (conditional fuel (level k) c.mark).ReadsAt ts (Tip ts) c.advance := by
  have parts : (conditional fuel (level k) c.mark).ReadsAt ts (fun t c' => ∃ found last mark,
      t = .cond found last mark ∧ mark.index = c.index ∧ Chain ts found last c') c.advance := by
    apply (arms_reads ended hself fuel c.advance).bind
    intro read d _ chain
    apply (ReadsAt.markFrom c.mark).bind
    intro mark c' _ here
    obtain ⟨index, rfl⟩ := here
    apply ReadsAt.pure
    refine ⟨_, _, mark, rfl, index, ?_, chain.last⟩
    intro arm mem
    split at mem
    · obtain ⟨arm', mem', rfl⟩ := List.mem_map.1 mem
      exact chain.arms arm' mem'
    · exact chain.arms arm mem
  intro place t c' eq
  obtain ⟨place', found, last, mark, rfl, index, chain⟩ := parts place t c' eq
  refine ⟨place', ?_⟩
  have content : c.current.content = .keyword .IF := Token.Content.eq_keyword is
  have closed := start.closed (Token.closed_of_ended ended)
  have ⟨rest, closed'⟩ := Cursor.rest_advance closed (by rw [is]; exact nofun)
  obtain ⟨_, cs, rest', spelt⟩ :=
    conditional_sound (level_sound k) c.mark c.advance closed' _ c' eq
  have settled : Settled ts (.cond found last mark) := by
    refine ⟨cs, c'.rest, ?_, spelt⟩
    rw [index, ← start.rest_eq, rest, content, rest']
    rfl
  apply Every.node (.inl settled)
  · intro q mem
    rcases List.mem_append.1 mem with arms | other
    · obtain ⟨arm, mem', part⟩ := List.mem_flatMap.1 arms
      have ⟨condition, body⟩ := chain.arms arm mem'
      rcases List.mem_cons.1 part with rfl | part
      · exact condition
      · rw [List.mem_singleton.1 part]
        exact body
    · obtain ⟨o, mem', rfl⟩ := List.mem_map.1 other
      exact chain.last o (Option.mem_toList.1 mem')
  · exact nofun

theorem forLoop_reads (ended : Token.Ended ts) (hself : SelfReads ts (level k)) (start : Mark) :
    (forLoop fuel (level k) start).Reads ts (Tip ts) := by
  intro c
  apply ReadsAt.name.bind
  intro counter d _ _
  apply ReadsAt.expect.bind
  intro _ d _ _
  apply (hself .expression d).bind
  intro first d place tip
  apply ReadsAt.expect.bind
  intro _ d _ is
  have first_ := Tip.settle tip place is (by decide)
  apply (hself .expression d).bind
  intro last d place tip
  -- what follows the step is the same whether there is one or not
  have rest (step : Option Tree) (hlast : last.Every (Settled ts))
      (hstep : ∀ t ∈ step, t.Every (Settled ts)) (e : Cursor) : (do
        let read ← body fuel (level k)
        return .forLoop counter first last step read.1 read.2.suppresses (← markFrom start) :
          Rule Tree).ReadsAt ts (Tip ts) e := by
    apply (body_reads ended hself e).bind
    intro read d _ tip'
    apply (ReadsAt.markFrom start).bind
    intro mark c' _ here
    obtain ⟨_, rfl⟩ := here
    apply ReadsAt.pure
    apply Every.node (.inl trivial)
    · intro q mem
      rcases List.mem_cons.1 mem with rfl | mem
      · exact first_.opened _
      · rcases List.mem_cons.1 mem with rfl | mem
        · exact hlast.opened _
        · exact (hstep q (Option.mem_toList.1 mem)).opened _
    · exact List.forall_mem_singleton.2 tip'
  apply ReadsAt.ifAccept
  · intro is
    have last_ := Tip.settle tip place is (by decide)
    apply ReadsAt.bind (P := fun step e => ∀ t ∈ step, Tip ts t e)
    · apply (hself .expression d.advance).bind
      intro step e _ tip'
      exact .pure (by rintro _ ⟨⟩; exact tip')
    · intro step e place' tips
      apply ReadsAt.expect.bind
      intro _ e' _ is'
      exact rest step last_ (fun t mem => (tips t mem).settle place' is' (by decide)) e'
  · apply ReadsAt.bind (P := fun step e => step = none ∧ e = d) (.pure ⟨rfl, rfl⟩)
    intro step e _ here
    obtain ⟨rfl, rfl⟩ := here
    apply ReadsAt.expect.bind
    intro _ e' _ is'
    exact rest none (Tip.settle tip place is' (by decide)) nofun e'

theorem whileLoop_reads (ended : Token.Ended ts) (hself : SelfReads ts (level k)) (start : Mark) :
    (whileLoop fuel (level k) start).Reads ts (Tip ts) := by
  intro c
  apply (hself .expression c).bind
  intro condition d place tip
  apply ReadsAt.expect.bind
  intro _ d _ is
  have condition_ := Tip.settle tip place is (by decide)
  apply (body_reads ended hself d).bind
  intro read d _ tip'
  apply (ReadsAt.markFrom start).bind
  intro mark c' _ here
  obtain ⟨_, rfl⟩ := here
  apply ReadsAt.pure
  apply Every.node (.inl trivial)
  · exact List.forall_mem_singleton.2 (condition_.opened _)
  · exact List.forall_mem_singleton.2 tip'

theorem moreNames_reads (n : Nat) : (moreNames n).Reads ts fun _ _ => True := by
  induction n with
  | zero => exact fun _ => .spent
  | succ n ih =>
    intro c
    apply ReadsAt.ifAccept
    · intro _
      apply ReadsAt.name.bind
      intro _ d _ _
      apply (ih d).bind
      intro _ c' _ _
      exact .pure trivial
    · exact .pure trivial

theorem parameters_reads : (parameters fuel).Reads ts fun _ _ => True := by
  intro c
  apply ReadsAt.fromHere
  split
  · apply ReadsAt.name.bind
    intro _ d _ _
    apply (moreNames_reads fuel d).bind
    intro _ d _ _
    apply ReadsAt.expect.bind
    intro _ c' _ _
    exact .pure trivial
  · apply ReadsAt.expect.bind
    intro _ c' _ _
    exact .pure trivial

theorem functionHead_reads : functionHead.Reads ts fun _ _ => True := by
  intro c
  apply ReadsAt.fromHere
  split
  · apply ReadsAt.name.bind
    intro _ d _ _
    apply ReadsAt.expect.bind
    intro _ c' _ _
    exact .pure trivial
  · apply ReadsAt.expect.bind
    intro _ c' _ _
    exact .pure trivial

theorem function_reads (ended : Token.Ended ts) (hself : SelfReads ts (level k)) (start : Mark) :
    (function fuel (level k) start).Reads ts (Tip ts) := by
  intro c
  apply (functionHead_reads c).bind
  intro given d _ _
  apply (parameters_reads d).bind
  intro params d _ _
  -- either form of the body ends the function
  have finished {node : Tree} (auto : Bool) {e : Cursor} (tip : Tip ts node e) :
      (do return .function given params node auto (← markFrom start) : Rule Tree).ReadsAt ts
        (Tip ts) e := by
    apply (ReadsAt.markFrom start).bind
    intro mark c' _ here
    obtain ⟨_, rfl⟩ := here
    exact .pure (.node (.inl trivial) nofun (List.forall_mem_singleton.2 tip))
  apply ReadsAt.ifAccept
  · intro _
    apply (hself .expression d.advance).bind
    intro node e _ tip
    exact finished true tip
  · apply ReadsAt.ifAccept
    · intro _
      apply (closedBlock_reads ended hself d.advance).bind
      intro node e _ tip
      exact finished false tip
    · exact .unexpected

theorem moreExpressions_reads (hself : SelfReads ts (level k)) (n : Nat) (c : Cursor) :
    (moreExpressions (level k) n).ReadsAt ts
      (fun row c' => (c' = c ∨ c.kind = .symbol .comma) ∧ Tips ts row c') c := by
  induction n generalizing c with
  | zero => exact .spent
  | succ n ih =>
    apply ReadsAt.ifAccept
    · intro is
      apply (hself .expression c.advance).bind
      intro first d place tip
      apply (ih d).bind
      intro rest c' _ read
      have first_ : Tip ts first c' := Tip.carry tip place read.1 (by decide)
      exact .pure ⟨.inr is, List.forall_mem_cons.2 ⟨first_, read.2⟩⟩
    · exact .pure ⟨.inl rfl, nofun⟩

theorem items_reads (hself : SelfReads ts (level k)) {close : Symbol}
    (parts : (Token.Kind.symbol close).Parts) :
    (items fuel (level k) close).Reads ts fun row _ => ∀ t ∈ row, t.Every (Settled ts) := by
  intro c
  apply ReadsAt.ifAccept
  · intro _
    exact .pure nofun
  · apply ((hself .expression c).describing _).bind
    intro first d place tip
    apply (moreExpressions_reads hself fuel d).bind
    intro rest e place' read
    have first_ : Tip ts first e := Tip.carry tip place read.1 (by decide)
    apply ReadsAt.expect.bind
    intro _ c' _ is
    apply ReadsAt.pure
    intro t mem
    rcases List.mem_cons.1 mem with rfl | mem
    · exact first_.settle place' is parts
    · exact (read.2 t mem).settle place' is parts

theorem atom_reads (ended : Token.Ended ts) (hself : SelfReads ts (level k)) :
    (atom fuel (level k)).Reads ts (Tip ts) := by
  intro c
  apply ReadsAt.placed
  intro start
  apply ReadsAt.fromHere
  -- a token that is a tree
  have leaf {t : Tree} (own : t.Settled ts) (none : t.children = []) :
      (do let _ ← advance; return t : Rule Tree).ReadsAt ts (Tip ts) c := by
    apply ReadsAt.advance.bind
    intro _ c' _ _
    apply ReadsAt.pure
    apply Every.mk (.inl own)
    rw [none]
    exact nofun
  split
  · exact leaf trivial rfl
  · exact leaf trivial rfl
  · exact leaf trivial rfl
  · exact leaf trivial rfl
  · apply ReadsAt.advance.bind
    intro _ d _ _
    apply (hself .expression d).bind
    intro inner d place tip
    apply ReadsAt.expect.bind
    intro _ c' _ is
    exact .pure ((Tip.settle tip place is (by decide)).opened _)
  · apply ReadsAt.advance.bind
    intro _ d _ _
    apply (items_reads hself (by decide) d).bind
    intro elements d _ settled
    apply (ReadsAt.markFrom c.mark).bind
    intro mark c' _ _
    apply ReadsAt.pure
    exact .node (.inl trivial) (fun t mem => (settled t mem).opened _) nofun
  · next is =>
    apply ReadsAt.advance.bind
    intro _ d _ eq
    subst eq
    exact conditional_reads ended hself start (Cursor.kind_of_content is)
  · apply ReadsAt.advance.bind
    intro _ d _ _
    exact forLoop_reads ended hself c.mark d
  · apply ReadsAt.advance.bind
    intro _ d _ _
    exact whileLoop_reads ended hself c.mark d
  · apply ReadsAt.advance.bind
    intro _ d _ _
    exact function_reads ended hself c.mark d
  · exact .unexpected

theorem callsFrom_reads (hself : SelfReads ts (level k)) (n : Nat) {t : Tree} {c : Cursor}
    (tip : Tip ts t c) : (callsFrom fuel (level k) n t).ReadsAt ts (Tip ts) c := by
  induction n generalizing t c with
  | zero => exact .spent
  | succ n ih =>
    apply ReadsAt.placed
    intro place
    apply ReadsAt.ifAccept
    · intro is
      have callee := tip.settle place is (by decide)
      apply (items_reads hself (by decide) c.advance).bind
      intro args d _ settled
      apply (ReadsAt.markFrom t.note).bind
      intro mark d' _ _
      apply ih
      apply Every.node (.inl trivial)
      · intro q mem
        rcases List.mem_cons.1 mem with rfl | mem
        · exact callee.opened _
        · exact (settled q mem).opened _
      · exact nofun
    · exact .pure tip

theorem call_reads (ended : Token.Ended ts) (hself : SelfReads ts (level k)) :
    (call fuel (level k)).Reads ts (Tip ts) := by
  intro c
  apply (atom_reads ended hself c).bind
  intro t d _ tip
  exact callsFrom_reads hself fuel tip

end Constructs

section Operands

variable {ts : List Token} {k : Nat} {ops : List BinaryOp} {right : Rule Tree}
variable {D E : Cursor → Prop}

theorem operandsFrom_step {P : Tree → Cursor → Prop} {n : Nat} {t : Tree} {c : Cursor}
    (stop : ops.find? (·.kind = c.kind) = none → P t c)
    (more : ∀ op, ops.find? (·.kind = c.kind) = some op → (right >>= fun u =>
      operandsFrom ops right n (.binary op t u (t.note.through u.note))).ReadsAt ts P c.advance) :
    (operandsFrom ops right (n + 1) t).ReadsAt ts P c := by
  intro place u c' eq
  cases found : ops.find? (·.kind = c.kind) with
  | none =>
    rw [operandsFrom_stop found] at eq
    cases eq
    exact ⟨place, stop found⟩
  | some op =>
    rw [operandsFrom_turn found] at eq
    exact more op found place.advance u c' eq

theorem operandsFrom_at (hright : right.Reads ts fun _ _ => True) (n : Nat) (t : Tree)
    (c : Cursor) : (operandsFrom ops right n t).ReadsAt ts (fun _ _ => True) c := by
  induction n generalizing t c with
  | zero => exact .spent
  | succ n ih =>
    apply operandsFrom_step (fun _ => trivial)
    intro op _
    apply (hright c.advance).bind
    intro u d _ _
    exact ih _ d

/-- A loop of operands. `D` are the cursors from which it does not end well, and `E` those at which
it then ends; at an operator the tree before it is settled, or the cursor is in `D`. -/
theorem operandsFrom_reads (hright : right.Reads ts fun t c => Tip ts t c ∨ D c)
    (turn : ∀ t c op, c.At ts → Tip ts t c → ops.find? (·.kind = c.kind) = some op →
      t.Every (Settled ts) ∨ D c)
    (lost : ∀ n t c u c', D c → operandsFrom ops right n t c = .done u c' → E c')
    (n : Nat) {t : Tree} {c : Cursor} (left : Tip ts t c ∨ D c) :
    (operandsFrom ops right n t).ReadsAt ts (fun u c' => Tip ts u c' ∨ E c') c := by
  have astray {n : Nat} {t : Tree} {c : Cursor} (h : D c) :
      (operandsFrom ops right n t).ReadsAt ts (fun u c' => Tip ts u c' ∨ E c') c := by
    have hright' : right.Reads ts fun _ _ => True := fun d => (hright d).mono fun _ _ _ => trivial
    intro place u c' eq
    have ⟨place', _⟩ := operandsFrom_at hright' n t c place u c' eq
    exact ⟨place', .inr (lost n t c u c' h eq)⟩
  induction n generalizing t c with
  | zero => exact .spent
  | succ n ih =>
    apply ReadsAt.placed
    intro place
    rcases left with tip | stray
    · by_cases stray : D c
      · exact astray stray
      · apply operandsFrom_step (fun _ => .inl tip)
        intro op found
        have settled := (turn t c op place tip found).resolve_right stray
        apply (hright c.advance).bind
        intro u d _ read
        rcases read with tip' | stray'
        · apply ih
          left
          apply Every.node (.inl trivial)
          · exact List.forall_mem_cons.2 ⟨settled.opened _, List.forall_mem_singleton.2 tip'⟩
          · exact nofun
        · exact astray stray'
    · exact astray stray

theorem settled_of_parts (parts : ∀ op ∈ ops, op.kind.Parts) {t : Tree} {c : Cursor}
    {op : BinaryOp} (place : c.At ts) (tip : Tip ts t c)
    (found : ops.find? (·.kind = c.kind) = some op) : t.Every (Settled ts) := by
  have is : op.kind = c.kind := by simpa using List.find?_some found
  exact tip.settle place is.symm (parts op (List.mem_of_find?_eq_some found))

theorem operands_reads {left : Rule Tree} (parts : ∀ op ∈ ops, op.kind.Parts)
    (hleft : left.Reads ts (Tip ts)) (hright : right.Reads ts (Tip ts)) (fuel : Nat) :
    (operands fuel left ops right).Reads ts (Tip ts) := by
  intro c
  apply (hleft c).bind
  intro t d _ tip
  have whole : (operandsFrom ops right fuel t).ReadsAt ts (fun u c' => Tip ts u c' ∨ False) d :=
    operandsFrom_reads (D := fun _ => False) (fun e => (hright e).mono fun _ _ => .inl)
      (fun _ _ _ place tip found => .inl (settled_of_parts parts place tip found))
      (fun _ _ _ _ _ none _ => none) fuel (.inl tip)
  exact whole.mono fun _ _ => fun | .inl tip => tip

theorem power_reads (ended : Token.Ended ts) (hself : SelfReads ts (level k)) (fuel : Nat) :
    (power fuel (level k)).Reads ts (Tip ts) :=
  operands_reads (by decide) (call_reads ended hself) (hself .factor) fuel

theorem factor_reads (ended : Token.Ended ts) (hself : SelfReads ts (level k)) (fuel : Nat) :
    (factor fuel (level k)).Reads ts (Tip ts) := by
  intro c
  apply ReadsAt.fromHere
  -- a sign and what it stands before
  have signed (op : UnaryOp) : (do
      let _ ← advance
      let operand ← level k .factor
      return .unary op operand (c.mark.through operand.note) : Rule Tree).ReadsAt ts (Tip ts)
        c := by
    apply ReadsAt.advance.bind
    intro _ d _ _
    apply (hself .factor d).bind
    intro operand c' _ tip
    exact .pure (.node (.inl trivial) (List.forall_mem_singleton.2 tip) nofun)
  split
  · exact signed .plus
  · exact signed .minus
  · exact power_reads ended hself fuel c

theorem term_reads (ended : Token.Ended ts) (hself : SelfReads ts (level k)) (fuel : Nat) :
    (term fuel (level k)).Reads ts (Tip ts) :=
  operands_reads (by decide) (factor_reads ended hself fuel) (factor_reads ended hself fuel) fuel

/-- A sign may be taken for an operator; then nothing around comes to its end. -/
theorem arithmetic_reads (ended : Token.Ended ts) (hself : SelfReads ts (level k)) :
    (arithmetic (k + 1) (level k)).Reads ts fun t c => Tip ts t c ∨ c.Doomed [.chain, .logic] := by
  intro c
  have term_ := term_reads ended hself (k + 1)
  apply (term_ c).bind
  intro t d _ tip
  apply operandsFrom_reads (D := Cursor.Doomed [.arithmetic, .chain, .logic]) _ _ _ _ (.inl tip)
  · exact fun e => (term_ e).mono fun _ _ => .inl
  · intro t e op place tip' found
    rcases tip'.settled_or with settled | ⟨j, valueless, next⟩
    · exact .inl settled
    · exact .inr (valueless.doomed place next found)
  · intro n t e u e' doomed read
    exact doomed.loop (r := .arithmetic) (k := k) read

theorem comparison_reads (ended : Token.Ended ts) (hself : SelfReads ts (level k)) :
    (comparison (k + 1) (level k)).Reads ts (Level.comparison.Left ts) := by
  intro c
  apply ReadsAt.fromHere
  split
  · apply ReadsAt.advance.bind
    intro _ d _ _
    apply (hself .comparison d).bind
    intro operand c' _ read
    apply ReadsAt.pure
    rcases read with tip | doomed
    · exact .inl (.node (.inl trivial) (List.forall_mem_singleton.2 tip) nofun)
    · exact .inr doomed
  · apply (arithmetic_reads ended hself c).bind
    intro t d _ read
    apply operandsFrom_reads (D := Cursor.Doomed [.chain, .logic]) _ _ _ _ read
    · exact arithmetic_reads ended hself
    · exact fun t e op place tip found => .inl (settled_of_parts (by decide) place tip found)
    · intro n t e u e' doomed read
      exact doomed.loop (r := .chain) (k := k) read

theorem expression_reads (ended : Token.Ended ts) (hself : SelfReads ts (level k)) :
    (expression (k + 1) (level k)).Reads ts (Tip ts) := by
  intro c
  apply ReadsAt.fromHere
  split
  · apply ReadsAt.advance.bind
    intro _ d _ _
    apply ReadsAt.name.bind
    intro target d _ _
    apply ReadsAt.expect.bind
    intro _ d _ _
    apply (hself .expression d).bind
    intro value c' _ tip
    exact .pure (.node (.inl trivial) (List.forall_mem_singleton.2 tip) nofun)
  · apply ReadsAt.describing
    apply (comparison_reads ended hself c).bind
    intro t d _ read
    have whole : (operandsFrom [.and, .or] (comparison (k + 1) (level k)) (k + 1) t).ReadsAt ts
        (fun u c' => Tip ts u c' ∨ c'.Doomed []) d := by
      apply operandsFrom_reads (D := Cursor.Doomed [.logic]) _ _ _ _ read
      · exact comparison_reads ended hself
      · exact fun t e op place tip found => .inl (settled_of_parts (by decide) place tip found)
      · intro n t e u e' doomed read
        exact doomed.loop (r := .logic) (k := k) read
    exact whole.mono fun _ _ ends => ends.resolve_right Cursor.Doomed.absurd_nil

end Operands

theorem level_reads {ts : List Token} (ended : Token.Ended ts) (k : Nat) :
    SelfReads ts (level k) := by
  induction k with
  | zero => exact fun _ _ => .spent
  | succ k ih =>
    intro l
    cases l with
    | expression => exact expression_reads ended ih
    | comparison => exact comparison_reads ended ih
    | factor => exact factor_reads ended ih (k + 1)

theorem program_reads {ts : List Token} (ended : Token.Ended ts) {fuel : Nat} {c c' : Cursor}
    (place : c.At ts) {t : Tree} (read : program fuel c = .done t c') :
    t.Every (Settled ts) := by
  obtain ⟨expecting, statements, eof⟩ := program_done read
  have ⟨place', tip⟩ := statements_reads ended (level_reads ended fuel) c place _ c' statements
  exact Tip.settle tip place' eof (by decide)

end ScriptLang.Grammar

namespace ScriptLang

theorem settled_of_parse {source : Source} {ts : List Token} {ast : Tree}
    (scanned : scan source = .ok ts) (read : parse ts = .ok ast) : ast.Every (Node.Settled ts) := by
  have ended := ended_of_scan scanned
  cases ts with
  | nil => cases Token.closed_of_ended ended
  | cons t ts =>
    have ⟨c, done⟩ := parse_cons_eq_ok.1 read
    exact Grammar.program_reads ended (.ofTokens t ts) done

theorem exists_in_tree (source : Source) (levels : Nat) (test : List Token → Tree → Bool)
    (found : (scan source).toOption.any (fun ts => (parse ts).toOption.any fun ast =>
      (ast.subtrees levels).any (test ts)) = true) :
    ∃ ts ast p, scan source = .ok ts ∧ parse ts = .ok ast ∧ ast.Contains p ∧ test ts p = true := by
  cases scanned : scan source with
  | error e =>
    rw [scanned] at found
    cases found
  | ok ts =>
    rw [scanned] at found
    change (parse ts).toOption.any _ = true at found
    cases read : parse ts with
    | error e =>
      rw [read] at found
      cases found
    | ok ast =>
      rw [read] at found
      have ⟨p, mem, passes⟩ := List.any_eq_true.1 found
      exact ⟨ts, ast, p, rfl, read, .of_mem_subtrees mem, passes⟩

end ScriptLang
