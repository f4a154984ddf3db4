import ScriptLang.Proofs.Nesting.Reading

/-! Every rule of the grammar reads trees whose parts lie in them in order: one lemma for each rule,
then all levels together by induction on their number. -/
namespace ScriptLang.Grammar

open Rule Node

abbrev SelfSpans (ts : List Token) (self : Level → Rule Tree) : Prop :=
  ∀ l, (self l).Spans ts fun i t j => Spread ts i j [t]

section Statements

variable {ts : List Token} {k fuel : Nat}

theorem newlines_spans (ended : Token.Ended ts) (n : Nat) :
    (newlines n).Spans ts fun _ _ _ => True := by
  induction n with
  | zero => exact fun _ => .spent
  | succ n ih =>
    intro c
    apply SpansAt.ifAccept ended (by simp)
    · intro d _
      apply (ih d).bind
      intro _ e _ _
      exact .pure trivial
    · exact .pure trivial

theorem leaf_spans (ended : Token.Ended ts) {c : Cursor} (more : c.kind ≠ .eof) {t : Tree}
    (note : t.note = c.mark) (none : t.children = []) :
    (do let _ ← advance; return t : Rule Tree).SpansAt ts (fun u j => Spread ts c.index j [u])
      c := by
  apply SpansAt.placed
  intro place
  apply (SpansAt.advance ended more).bind
  intro _ d _ next
  apply SpansAt.pure
  rw [next]
  exact .closed place.mark_from (.nil (by omega)) (Nat.le_refl _) place.current none note

theorem statement_spans (ended : Token.Ended ts) (hself : SelfSpans ts (level k)) :
    (statement (level k)).Spans ts fun i t j => Spread ts i j [t] := by
  intro c
  apply SpansAt.placed
  intro start
  apply SpansAt.fromHere
  split
  · next is =>
    apply (SpansAt.advance ended (by rw [is]; nofun)).bind
    intro _ d _ next
    have twin : Token.Twin ts ts := ⟨rfl, ended.ascending, ended.ascending⟩
    apply ((hself .expression d).attempt fun place e =>
      (level_alike twin k .expression).failure_at place).bind
    intro value e le spread
    cases value with
    | some value => exact .pure (.prefixed start.mark_from (spread value rfl) (by omega) rfl rfl)
    | none =>
      have own : Spread ts c.index (c.index + 1) [.returns none c.mark] :=
        .closed start.mark_from (.nil (by omega)) (Nat.le_refl _) start.current rfl rfl
      exact .pure (own.widen (Nat.le_refl _) (by omega))
  · next is => exact leaf_spans ended (by rw [is]; nofun) rfl rfl
  · next is => exact leaf_spans ended (by rw [is]; nofun) rfl rfl
  · exact (hself .expression c).describing _

theorem statementsFrom_spans (ended : Token.Ended ts) (hself : SelfSpans ts (level k)) (n : Nat) :
    (statementsFrom fuel (level k) n).Spans ts fun i read j => Spread ts i j read.1 := by
  induction n with
  | zero => exact fun _ => .spent
  | succ n ih =>
    intro c
    have twin : Token.Twin ts ts := ⟨rfl, ended.ascending, ended.ascending⟩
    apply ((statement_spans ended hself c).attempt fun place e =>
      (statement_alike twin (level_alike twin k)).failure_at place).bind
    intro first d le spread
    cases first with
    | none => exact .pure (.nil le)
    | some first =>
      have first_ : Spread ts c.index d.index [first] := spread first rfl
      apply (newlines_spans ended fuel d).bind
      intro separated d' le' _
      cases separated with
      | true =>
        apply (ih d').bind
        intro rest e _ spread'
        exact .pure ((first_.widen (Nat.le_refl _) le').cons spread')
      | false => exact .pure (first_.widen (Nat.le_refl _) le')

/-- A sequence goes from its first statement to its last one; an empty one is marked by the token
it began at, which may be the next one. -/
theorem statements_spans (ended : Token.Ended ts) (hself : SelfSpans ts (level k)) :
    (statements fuel (level k)).Spans ts fun i read j => Spread ts i (j + 1) [read.1] := by
  intro c
  apply SpansAt.placed
  intro start
  apply SpansAt.fromHere
  apply (newlines_spans ended fuel c).bind
  intro _ d le _
  apply (statementsFrom_spans ended hself fuel d).bind
  intro read e le' spread
  obtain ⟨nodes, expecting⟩ := read
  apply SpansAt.pure
  cases nodes with
  | nil =>
    have own : Spread ts c.index (c.index + 1) [.block [] c.mark] :=
      .closed start.mark_from (.nil (by omega)) (Nat.le_refl _) start.current rfl rfl
    exact own.widen (Nat.le_refl _) (by omega)
  | cons first rest =>
    apply (spread.widen le (Nat.le_succ _)).spanning (by simp [children, parts, bodies])
    change sequenceMark c.mark (first :: rest) = _
    simp only [sequenceMark, List.head?_cons,
      List.getLast?_eq_some_getLast (List.cons_ne_nil first rest)]

theorem unexpectedInSequence_spans {α : Type} {P : α → Nat → Prop} (expecting : Bool)
    (terminators : List Token.Kind) (c : Cursor) :
    (unexpectedInSequence expecting terminators : Rule α).SpansAt ts P c :=
  fun _ _ a c' eq => absurd eq (unexpectedInSequence_ne_done expecting terminators c c' a)

theorem closedBlock_spans (ended : Token.Ended ts) (hself : SelfSpans ts (level k)) :
    (closedBlock fuel (level k)).Spans ts fun i t j => Spread ts i j [t] := by
  intro c
  apply (statements_spans ended hself c).bind
  intro read d _ spread
  apply SpansAt.ifAccept ended (by simp)
  · intro e next
    apply SpansAt.pure
    rw [next]
    exact spread
  · exact unexpectedInSequence_spans _ _ _

theorem body_spans (ended : Token.Ended ts) (hself : SelfSpans ts (level k)) :
    (body fuel (level k)).Spans ts fun i read j => Spread ts i j [read.1] := by
  intro c
  apply SpansAt.ifAccept ended (by simp)
  · intro d next
    apply (closedBlock_spans ended hself d).bind
    intro t e _ spread
    exact .pure (spread.widen (by omega) (Nat.le_refl _))
  · apply (statement_spans ended hself c).bind
    intro t d _ spread
    apply SpansAt.ifAccept ended (by simp)
    · intro e next
      exact .pure (spread.widen (Nat.le_refl _) (by omega))
    · exact .pure spread

theorem otherwise_spans (ended : Token.Ended ts) (hself : SelfSpans ts (level k)) :
    (otherwise fuel (level k)).Spans ts fun i read j => Spread ts i j [read.1.body] := by
  intro c
  apply (body_spans ended hself c).bind
  intro read d _ spread
  exact .pure spread

def chained (found : List (Arm Tree)) (last : Option (Otherwise Tree)) : List Tree :=
  found.flatMap (fun arm => [arm.condition, arm.body]) ++ last.toList.map Otherwise.body

theorem arms_spans (ended : Token.Ended ts) (hself : SelfSpans ts (level k)) (n : Nat) :
    (arms fuel (level k) n).Spans ts fun i read j => Spread ts i j (chained read.1 read.2.1) := by
  induction n with
  | zero => exact fun _ => .spent
  | succ n ih =>
    intro c
    apply (hself .expression c).bind
    intro condition d _ condition_
    apply (SpansAt.expect ended (by simp)).bind
    intro _ d' _ next
    -- the condition and the body of this arm, and what follows them
    have single {b : Tree} {suppress : Bool} {j : Nat} (h : Spread ts d'.index j [b]) :
        Spread ts c.index j (chained [⟨condition, b, suppress⟩] none) :=
      (condition_.widen (Nat.le_refl _) (by omega)).cons h
    have more {b : Tree} {suppress : Bool} {e : Cursor} (h : Spread ts d'.index e.index [b]) :
        (do let read ← arms fuel (level k) n
            return (⟨condition, b, suppress⟩ :: read.1, read.2) :
          Rule (List (Arm Tree) × Option (Otherwise Tree) × Bool)).SpansAt ts
            (fun read j => Spread ts c.index j (chained read.1 read.2.1)) e := by
      apply (ih e).bind
      intro read _ _ spread
      exact .pure ((condition_.widen (Nat.le_refl _) (by omega)).cons (h.cons spread))
    have finished {b : Tree} {suppress : Bool} (closed : Form → Bool) {e : Cursor}
        (h : Spread ts d'.index e.index [b]) :
        (do let read ← otherwise fuel (level k)
            return ([⟨condition, b, suppress⟩], some read.1, closed read.2) :
          Rule (List (Arm Tree) × Option (Otherwise Tree) × Bool)).SpansAt ts
            (fun read j => Spread ts c.index j (chained read.1 read.2.1)) e := by
      apply (otherwise_spans ended hself e).bind
      intro last _ _ spread
      exact .pure ((condition_.widen (Nat.le_refl _) (by omega)).cons (h.cons spread))
    apply SpansAt.ifAccept ended (by simp)
    · intro d'' next'
      apply (statements_spans ended hself d'').bind
      intro read e _ block
      -- whatever closes the block is passed, so that an empty one lies before the cursor
      have block_ {e' : Cursor} (next'' : e'.index = e.index + 1) :
          Spread ts d'.index e'.index [read.1] :=
        block.widen (by omega) (by omega)
      apply SpansAt.ifAccept ended (by simp)
      · intro e' next''
        exact .pure (single (block_ next''))
      · apply SpansAt.ifAccept ended (by simp)
        · intro e' next''
          exact more (block_ next'')
        · apply SpansAt.ifAccept ended (by simp)
          · intro e' next''
            exact finished (fun _ => false) (block_ next'')
          · exact unexpectedInSequence_spans _ _ _
    · apply (statement_spans ended hself d').bind
      intro b e _ body_
      have body' {e' : Cursor} (next'' : e'.index = e.index + 1) :
          Spread ts d'.index e'.index [b] :=
        body_.widen (Nat.le_refl _) (by omega)
      apply SpansAt.ifAccept ended (by simp)
      · intro e' next''
        exact more (body' next'')
      · apply SpansAt.ifAccept ended (by simp)
        · intro e' next''
          exact finished (fun form => form = .closedInline) (body' next'')
        · apply SpansAt.ifAccept ended (by simp)
          · intro e' next''
            exact .pure (single (body' next''))
          · exact .pure (single body_)

end Statements

section Constructs

variable {ts : List Token} {k fuel : Nat}

theorem closing_spans {start : Mark} {i : Nat} (first : start.From ts i) {c : Cursor}
    (lt : i < c.index) {ns : List Tree} (inner : Spread ts i c.index ns) {f : Mark → Tree}
    (note : ∀ m, (f m).note = m) (children : ∀ m, (f m).children = ns) :
    (do return f (← markFrom start) : Rule Tree).SpansAt ts (fun t j => Spread ts i j [t]) c := by
  obtain ⟨j, later⟩ : ∃ j, c.index = j + 1 := ⟨c.index - 1, by omega⟩
  rw [later] at inner
  apply (SpansAt.markFrom start later).bind
  intro mark d _ drawn
  obtain ⟨at_, u, last, rfl⟩ := drawn
  apply SpansAt.pure
  rw [at_]
  exact .closed first inner (by omega) last (children _) (note _)

theorem conditional_spans (ended : Token.Ended ts) (hself : SelfSpans ts (level k)) {start : Mark}
    {i : Nat} (first : start.From ts i) {c : Cursor} (lt : i < c.index) :
    (conditional fuel (level k) start).SpansAt ts (fun t j => Spread ts i j [t]) c := by
  apply (arms_spans ended hself fuel c).bind
  intro read d le spread
  apply closing_spans first (by omega) (spread.widen (by omega) (Nat.le_refl _)) (fun _ => rfl)
  intro mark
  -- suppressing the arms leaves their parts as they are
  split
  · simp [children, parts, bodies, chained, List.flatMap_map]
  · simp [children, parts, bodies, chained]

theorem forLoop_spans (ended : Token.Ended ts) (hself : SelfSpans ts (level k)) {start : Mark}
    {i : Nat} (first : start.From ts i) {c : Cursor} (lt : i < c.index) :
    (forLoop fuel (level k) start).SpansAt ts (fun t j => Spread ts i j [t]) c := by
  apply (SpansAt.name ended).bind
  intro counter d _ next
  apply (SpansAt.expect ended (by simp)).bind
  intro _ d' _ next'
  apply (hself .expression d').bind
  intro low e _ low_
  apply (SpansAt.expect ended (by simp)).bind
  intro _ e' _ next''
  apply (hself .expression e').bind
  intro high g _ high_
  -- what follows the step is the same whether there is one or not
  have rest {step : Option Tree} {h : Cursor} (le : g.index ≤ h.index)
      (step_ : Spread ts g.index h.index step.toList) : (do
        let _ ← keyword .THEN
        let read ← body fuel (level k)
        return .forLoop counter low high step read.1 read.2.suppresses (← markFrom start) :
          Rule Tree).SpansAt ts (fun t j => Spread ts i j [t]) h := by
    apply (SpansAt.expect ended (by simp)).bind
    intro _ h' _ later
    apply (body_spans ended hself h').bind
    intro read q _ body_
    have low' : Spread ts i e'.index [low] := low_.widen (by omega) (by omega)
    have step' : Spread ts g.index h'.index step.toList := step_.widen (Nat.le_refl _) (by omega)
    have inner : Spread ts i q.index (low :: high :: (step.toList ++ [read.1])) :=
      low'.cons (high_.cons (step'.append body_))
    exact closing_spans first (by omega) inner (fun _ => rfl) fun _ => rfl
  apply SpansAt.ifAccept ended (by simp)
  · intro g' later
    apply SpansAt.bind (P := fun step j => Spread ts g'.index j step.toList)
    · apply (hself .expression g').bind
      intro step _ _ step_
      exact .pure step_
    · intro step h le step_
      exact rest (by omega) (step_.widen (by omega) (Nat.le_refl _))
  · exact rest (Nat.le_refl _) (.nil (Nat.le_refl _))

theorem whileLoop_spans (ended : Token.Ended ts) (hself : SelfSpans ts (level k)) {start : Mark}
    {i : Nat} (first : start.From ts i) {c : Cursor} (lt : i < c.index) :
    (whileLoop fuel (level k) start).SpansAt ts (fun t j => Spread ts i j [t]) c := by
  apply (hself .expression c).bind
  intro condition d _ condition_
  apply (SpansAt.expect ended (by simp)).bind
  intro _ d' _ next
  apply (body_spans ended hself d').bind
  intro read e _ body_
  have inner : Spread ts i e.index [condition, read.1] :=
    (condition_.widen (by omega) (by omega)).cons body_
  exact closing_spans first (by omega) inner (fun _ => rfl) fun _ => rfl

theorem moreNames_spans (ended : Token.Ended ts) (n : Nat) :
    (moreNames n).Spans ts fun _ _ _ => True := by
  induction n with
  | zero => exact fun _ => .spent
  | succ n ih =>
    intro c
    apply SpansAt.ifAccept ended (by simp)
    · intro d _
      apply (SpansAt.name ended).bind
      intro _ e _ _
      apply (ih e).bind
      intro _ _ _ _
      exact .pure trivial
    · exact .pure trivial

theorem parameters_spans (ended : Token.Ended ts) :
    (parameters fuel).Spans ts fun _ _ _ => True := by
  intro c
  apply SpansAt.fromHere
  split
  · apply (SpansAt.name ended).bind
    intro _ d _ _
    apply (moreNames_spans ended fuel d).bind
    intro _ e _ _
    apply (SpansAt.expect ended (by simp)).bind
    intro _ _ _ _
    exact .pure trivial
  · apply (SpansAt.expect ended (by simp)).bind
    intro _ _ _ _
    exact .pure trivial

theorem functionHead_spans (ended : Token.Ended ts) :
    functionHead.Spans ts fun _ _ _ => True := by
  intro c
  apply SpansAt.fromHere
  split
  · apply (SpansAt.name ended).bind
    intro _ d _ _
    apply (SpansAt.expect ended (by simp)).bind
    intro _ _ _ _
    exact .pure trivial
  · apply (SpansAt.expect ended (by simp)).bind
    intro _ _ _ _
    exact .pure trivial

theorem function_spans (ended : Token.Ended ts) (hself : SelfSpans ts (level k)) {start : Mark}
    {i : Nat} (first : start.From ts i) {c : Cursor} (lt : i < c.index) :
    (function fuel (level k) start).SpansAt ts (fun t j => Spread ts i j [t]) c := by
  apply (functionHead_spans ended c).bind
  intro given d _ _
  apply (parameters_spans ended d).bind
  intro params e _ _
  apply SpansAt.ifAccept ended (by simp)
  · intro e' next
    apply (hself .expression e').bind
    intro node q _ node_
    exact closing_spans first (by omega) (node_.widen (by omega) (Nat.le_refl _)) (fun _ => rfl)
      fun _ => rfl
  · apply SpansAt.ifAccept ended (by simp)
    · intro e' next
      apply (closedBlock_spans ended hself e').bind
      intro node q _ node_
      exact closing_spans first (by omega) (node_.widen (by omega) (Nat.le_refl _)) (fun _ => rfl)
        fun _ => rfl
    · exact .unexpected

theorem moreExpressions_spans (ended : Token.Ended ts) (hself : SelfSpans ts (level k)) (n : Nat) :
    (moreExpressions (level k) n).Spans ts fun i row j => Spread ts i j row := by
  induction n with
  | zero => exact fun _ => .spent
  | succ n ih =>
    intro c
    apply SpansAt.ifAccept ended (by simp)
    · intro d next
      apply (hself .expression d).bind
      intro first e _ first_
      apply (ih e).bind
      intro rest _ _ rest_
      exact .pure ((first_.widen (by omega) (Nat.le_refl _)).cons rest_)
    · exact .pure (.nil (Nat.le_refl _))

theorem items_spans (ended : Token.Ended ts) (hself : SelfSpans ts (level k)) (close : Symbol) :
    (items fuel (level k) close).Spans ts fun i row j => i < j ∧ Spread ts i j row := by
  intro c
  apply SpansAt.ifAccept ended (by simp)
  · intro d next
    exact .pure ⟨by omega, .nil (by omega)⟩
  · apply ((hself .expression c).describing _).bind
    intro first d _ first_
    apply (moreExpressions_spans ended hself fuel d).bind
    intro rest e _ rest_
    apply (SpansAt.expect ended (by simp)).bind
    intro _ e' _ next
    exact .pure ⟨by omega, first_.cons (rest_.widen (Nat.le_refl _) (by omega))⟩

theorem atom_spans (ended : Token.Ended ts) (hself : SelfSpans ts (level k)) :
    (atom fuel (level k)).Spans ts fun i t j => Spread ts i j [t] := by
  intro c
  apply SpansAt.placed
  intro start
  apply SpansAt.fromHere
  -- the first token of a construct is passed
  have opened {x : Token.Content} (is : c.current.content = x) (more : x.kind ≠ .eof) :
      Rule.advance.SpansAt ts (fun _ j => j = c.index + 1) c :=
    .advance ended (by rw [Cursor.kind_of_content is]; exact more)
  have leaf {x : Token.Content} (is : c.current.content = x) (more : x.kind ≠ .eof) {t : Tree}
      (note : t.note = c.mark) (none : t.children = []) :
      (do let _ ← advance; return t : Rule Tree).SpansAt ts (fun u j => Spread ts c.index j [u])
        c :=
    leaf_spans ended (by rw [Cursor.kind_of_content is]; exact more) note none
  split
  · next is => exact leaf is nofun rfl rfl
  · next is => exact leaf is nofun rfl rfl
  · next is => exact leaf is nofun rfl rfl
  · next is => exact leaf is nofun rfl rfl
  · next is =>
    apply (opened is nofun).bind
    intro _ d _ next
    apply (hself .expression d).bind
    intro inner e _ inner_
    apply (SpansAt.expect ended (by simp)).bind
    intro _ e' _ next'
    exact .pure (inner_.widen (by omega) (by omega))
  · next is =>
    apply (opened is nofun).bind
    intro _ d _ next
    apply (items_spans ended hself _ d).bind
    intro elements e _ read
    exact closing_spans start.mark_from (by omega) (read.2.widen (by omega) (Nat.le_refl _))
      (fun _ => rfl) fun _ => by simp [children, parts, bodies]
  · next is =>
    apply (opened is nofun).bind
    intro _ d _ next
    exact conditional_spans ended hself start.mark_from (by omega)
  · next is =>
    apply (opened is nofun).bind
    intro _ d _ next
    exact forLoop_spans ended hself start.mark_from (by omega)
  · next is =>
    apply (opened is nofun).bind
    intro _ d _ next
    exact whileLoop_spans ended hself start.mark_from (by omega)
  · next is =>
    apply (opened is nofun).bind
    intro _ d _ next
    exact function_spans ended hself start.mark_from (by omega)
  · exact .unexpected

theorem callsFrom_spans (ended : Token.Ended ts) (hself : SelfSpans ts (level k)) (n : Nat)
    {i : Nat} {t : Tree} {c : Cursor} (callee : Spread ts i c.index [t]) :
    (callsFrom fuel (level k) n t).SpansAt ts (fun u j => Spread ts i j [u]) c := by
  induction n generalizing t c with
  | zero => exact .spent
  | succ n ih =>
    apply SpansAt.ifAccept ended (by simp)
    · intro d next
      apply (items_spans ended hself _ d).bind
      intro args e _ read
      obtain ⟨j, later⟩ : ∃ j, e.index = j + 1 := ⟨e.index - 1, by omega⟩
      apply (SpansAt.markFrom t.note later).bind
      intro mark e' _ drawn
      obtain ⟨at_, u, last, rfl⟩ := drawn
      obtain ⟨a, b, low, high, covers, callee_⟩ := callee.covers
      have := covers.le
      have args_ := read.2
      rw [later] at args_
      apply ih
      rw [at_]
      have inner : Spread ts a (j + 1) (t :: args) :=
        (callee_.widen (Nat.le_refl _) (by omega)).cons args_
      have whole : Spread ts a (j + 1) [.call t args (t.note.upTo u.span)] :=
        .closed covers.note_from inner (by omega) last (by simp [children, parts, bodies]) rfl
      exact whole.widen low (Nat.le_refl _)
    · exact .pure callee

theorem call_spans (ended : Token.Ended ts) (hself : SelfSpans ts (level k)) :
    (call fuel (level k)).Spans ts fun i t j => Spread ts i j [t] := by
  intro c
  apply (atom_spans ended hself c).bind
  intro t d _ spread
  exact callsFrom_spans ended hself fuel spread

end Constructs

section Operands

variable {ts : List Token} {k fuel : Nat}

theorem operands_spans (ended : Token.Ended ts) {left right : Rule Tree} {ops : List BinaryOp}
    (hleft : left.Spans ts fun i t j => Spread ts i j [t])
    (hright : right.Spans ts fun i t j => Spread ts i j [t]) :
    (operands fuel left ops right).Spans ts fun i t j => Spread ts i j [t] := by
  intro c
  apply (hleft c).bind
  intro t d _ spread
  generalize fuel = n
  induction n generalizing t d with
  | zero => exact .spent
  | succ n ih =>
    apply SpansAt.fromHere
    dsimp only
    split
    · exact .pure spread
    · next op found =>
      have is : op.kind = d.kind := by simpa using List.find?_some found
      apply (SpansAt.advance ended (by rw [← is]; cases op <;> nofun)).bind
      intro _ e _ next
      apply (hright e).bind
      intro u e' le operand
      have row : Spread ts c.index e'.index [t, u] :=
        (spread.widen (Nat.le_refl _) (by omega)).cons operand
      exact ih _ _ (by omega) (row.spanning rfl rfl)

theorem unary_spans (ended : Token.Ended ts) {c : Cursor} (more : c.kind ≠ .eof) {p : Rule Tree}
    (hp : p.Spans ts fun i t j => Spread ts i j [t]) (op : UnaryOp) : (do
      let _ ← advance
      let operand ← p
      return .unary op operand (c.mark.through operand.note) : Rule Tree).SpansAt ts
        (fun t j => Spread ts c.index j [t]) c := by
  apply SpansAt.placed
  intro place
  apply (SpansAt.advance ended more).bind
  intro _ d _ next
  apply (hp d).bind
  intro operand e _ spread
  exact .pure (.prefixed place.mark_from spread (by omega) rfl rfl)

theorem factor_spans (ended : Token.Ended ts) (hself : SelfSpans ts (level k)) :
    (factor fuel (level k)).Spans ts fun i t j => Spread ts i j [t] := by
  intro c
  apply SpansAt.fromHere
  split
  · next is => exact unary_spans ended (by rw [is]; nofun) (hself .factor) .plus
  · next is => exact unary_spans ended (by rw [is]; nofun) (hself .factor) .minus
  · exact operands_spans ended (call_spans ended hself) (hself .factor) c

theorem term_spans (ended : Token.Ended ts) (hself : SelfSpans ts (level k)) :
    (term fuel (level k)).Spans ts fun i t j => Spread ts i j [t] :=
  operands_spans ended (factor_spans ended hself) (factor_spans ended hself)

theorem arithmetic_spans (ended : Token.Ended ts) (hself : SelfSpans ts (level k)) :
    (arithmetic fuel (level k)).Spans ts fun i t j => Spread ts i j [t] :=
  operands_spans ended (term_spans ended hself) (term_spans ended hself)

theorem comparison_spans (ended : Token.Ended ts) (hself : SelfSpans ts (level k)) :
    (comparison fuel (level k)).Spans ts fun i t j => Spread ts i j [t] := by
  intro c
  apply SpansAt.fromHere
  split
  · next is => exact unary_spans ended (by rw [is]; nofun) (hself .comparison) .not
  · exact operands_spans ended (arithmetic_spans ended hself) (arithmetic_spans ended hself) c

theorem expression_spans (ended : Token.Ended ts) (hself : SelfSpans ts (level k)) :
    (expression fuel (level k)).Spans ts fun i t j => Spread ts i j [t] := by
  intro c
  apply SpansAt.placed
  intro place
  apply SpansAt.fromHere
  split
  · next is =>
    apply (SpansAt.advance ended (by rw [is]; nofun)).bind
    intro _ d _ next
    apply (SpansAt.name ended).bind
    intro target d' _ next'
    apply (SpansAt.expect ended (by simp)).bind
    intro _ d'' _ next''
    apply (hself .expression d'').bind
    intro value e _ spread
    exact .pure (.prefixed place.mark_from spread (by omega) rfl rfl)
  · apply SpansAt.describing
    exact operands_spans ended (comparison_spans ended hself) (comparison_spans ended hself) c

end Operands

theorem level_spans {ts : List Token} (ended : Token.Ended ts) (k : Nat) :
    SelfSpans ts (level k) := by
  induction k with
  | zero => exact fun _ _ => .spent
  | succ k ih =>
    intro l
    cases l with
    | expression => exact expression_spans ended ih
    | comparison => exact comparison_spans ended ih
    | factor => exact factor_spans ended ih

theorem program_nested {ts : List Token} (ended : Token.Ended ts) {fuel : Nat} {c c' : Cursor}
    (place : c.At ts) (behind : c.Behind ts) {t : Tree} (read : program fuel c = .done t c') :
    t.Every (Nested ts) := by
  obtain ⟨expecting, statements, -⟩ := program_done read
  obtain ⟨-, -, -, spread⟩ :=
    statements_spans ended (level_spans ended fuel) c behind place _ c' statements
  exact spread.every t (List.mem_singleton_self t)

end ScriptLang.Grammar
