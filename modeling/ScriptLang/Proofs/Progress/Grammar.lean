import ScriptLang.Proofs.Progress.Reading

/-! Every rule of the grammar goes forward, and each level begins with the tokens that it names: one
lemma for each rule, then all levels together by induction on their number. -/
namespace ScriptLang.Grammar

open Rule

def factorStart : List Token.Kind := .symbol .plus :: .symbol .minus :: atomStart

def Level.start : Level → List Token.Kind
  | .expression => expressionStart
  | .comparison => .keyword .NOT :: factorStart
  | .factor => factorStart

abbrev SelfBegins (ts : List Token) (k : Nat) (self : Level → Rule Tree) : Prop :=
  ∀ l, (self l).Begins ts l.start k

section Statements

variable {ts : List Token} {k s fuel : Nat} {self : Level → Rule Tree}

theorem newlines_proceeds (ends : Token.Terminated ts) {n : Nat} (enough : s ≤ n) :
    (newlines n).Proceeds ts 0 s := by
  induction n generalizing s with
  | zero =>
    intro c
    obtain rfl : s = 0 := by omega
    exact .spent
  | succ n ih =>
    intro c
    apply ProceedsAt.ifAccept ends (by simp)
    · intro d
      apply (ih (by omega) d).bind
      exact fun _ _ => .pure
    · exact .pure

theorem newlines_done {n : Nat} {c d : Cursor} {b : Bool} (h : newlines n c = .done b d) :
    d.kind ≠ .newline := by
  induction n generalizing c b with
  | zero => cases h
  | succ n ih =>
    unfold newlines at h
    by_cases is : c.kind = .newline
    · rw [bind_done (accept_pos is)] at h
      obtain ⟨_, c', read, eq⟩ := bind_eq_done h
      cases eq
      exact ih read
    · rw [bind_done (accept_neg is)] at h
      cases h
      exact is

theorem statement_begins (ends : Token.Terminated ts) (hself : SelfBegins ts k self) :
    (statement self).Begins ts statementStart k := by
  intro c
  apply BeginsAt.fromHere
  split
  · next is =>
    apply BeginsAt.advance ends is (by decide) nofun
    intro _ d
    exact ((hself .expression d).proceeds.mono (Nat.le_refl 1) (Nat.sub_le k 1)).attempt
      (fun _ _ => .pure) fun _ => .pure
  · next is => exact .advance ends is (by decide) nofun fun _ _ => .pure
  · next is => exact .advance ends is (by decide) nofun fun _ _ => .pure
  · next returns continues breaks =>
    apply BeginsAt.describing _ (by decide)
    apply (hself .expression c).widen (by decide)
    have same : ∀ x ∈ statementStart, x ≠ .keyword .RETURN → x ≠ .keyword .CONTINUE →
        x ≠ .keyword .BREAK → x ∈ expressionStart := by decide
    exact fun mem => same _ mem returns continues breaks

theorem statement_proceeds (ends : Token.Terminated ts) (hself : SelfBegins ts k self) :
    (statement self).Proceeds ts 1 k :=
  fun c => (statement_begins ends hself c).proceeds

theorem statementsFrom_proceeds (ends : Token.Terminated ts) (hself : SelfBegins ts k self)
    (more : k ≤ fuel) {n : Nat} (le : s ≤ k) (enough : s ≤ n) :
    (statementsFrom fuel self n).Proceeds ts 0 s := by
  induction n generalizing s with
  | zero =>
    intro c
    obtain rfl : s = 0 := by omega
    exact .spent
  | succ n ih =>
    intro c
    apply ((statement_proceeds ends hself c).mono (Nat.le_refl 1) le).attempt
    · intro t d
      apply (newlines_proceeds ends (by omega) d).bind
      intro separated e
      cases separated with
      | true => exact (ih (by omega) (by omega) e).bind fun _ _ => .pure
      | false => exact .pure
    · exact fun _ => .pure

theorem statements_proceeds (ends : Token.Terminated ts) (hself : SelfBegins ts k self)
    (more : k ≤ fuel) : (statements fuel self).Proceeds ts 0 k := by
  intro c
  apply ProceedsAt.fromHere
  apply (newlines_proceeds ends more c).bind
  intro _ d
  exact (statementsFrom_proceeds ends hself more (Nat.le_refl k) more d).bind fun _ _ => .pure

/-- A sequence of statements ends here: there is no separator, and where another statement could
have stood, nothing that begins one, unless it was given up further on. -/
structure Ends (c : Cursor) (expecting : Bool) : Prop where
  unseparated : c.kind ≠ .newline
  refused : expecting = true → c.deeper = none → c.kind ∉ statementStart

theorem statementsFrom_ends (ends : Token.Terminated ts) (hself : SelfBegins ts k self) {n : Nat}
    {c d : Cursor} {read : List Tree × Bool} (poised : c.Poised ts) (other : c.kind ≠ .newline)
    (h : statementsFrom fuel self n c = .done read d) : Ends d read.2 := by
  induction n generalizing c read with
  | zero => cases h
  | succ n ih =>
    obtain ⟨moves, opens⟩ := statement_begins ends hself c poised
    obtain ⟨first, c', tried, h⟩ := bind_eq_done h
    cases result : statement self c with
    | spent =>
      rw [attempt_spent result] at tried
      cases tried
    | failed e =>
      rw [attempt_failed result] at tried
      cases tried
      cases h
      rw [result] at moves opens
      refine ⟨other, fun _ none => opens.out ?_⟩
      have place := (poised.givenUp_at moves).deeper_eq ends.ascending
      rw [none] at place
      have := moves.2.1
      have : ¬ c.index < e.index := by simpa using place.symm
      omega
    | done t c'' =>
      rw [result] at moves
      rw [attempt_done result] at tried
      cases tried
      obtain ⟨separated, d', after, h⟩ := bind_eq_done h
      have unseparated := newlines_done after
      cases separated with
      | false =>
        cases h
        exact ⟨unseparated, nofun⟩
      | true =>
        have poised' := newlines_proceeds ends (Nat.zero_le fuel) c' moves.1
        rw [after] at poised'
        obtain ⟨rest, _, more, eq⟩ := bind_eq_done h
        cases eq
        exact @ih d' rest poised'.1 unseparated more

theorem statements_ends (ends : Token.Terminated ts) (hself : SelfBegins ts k self) {c d : Cursor}
    {read : Tree × Bool} (poised : c.Poised ts) (h : statements fuel self c = .done read d) :
    Ends d read.2 := by
  obtain ⟨_, c', before, h⟩ := bind_eq_done ((fromHere_eq _).symm.trans h)
  have poised' := newlines_proceeds ends (Nat.zero_le fuel) c poised
  rw [before] at poised'
  obtain ⟨nodes, _, more, eq⟩ := bind_eq_done h
  cases eq
  exact statementsFrom_ends ends hself poised'.1 (newlines_done before) more

theorem Ends.out {c : Cursor} {expecting : Bool} (h : Ends c expecting)
    {terminators : List Token.Kind} (other : c.kind ∉ terminators) (none : c.deeper = none) :
    c.kind ∉ if expecting then statementStart ++ terminators else terminators := by
  cases expecting with
  | false => exact other
  | true =>
    rw [if_pos rfl, List.mem_append, not_or]
    exact ⟨h.refused rfl none, other⟩

theorem unexpectedInSequence_eq {α : Type} (expecting : Bool) (terminators : List Token.Kind)
    (c : Cursor) : (unexpectedInSequence expecting terminators : Rule α) c =
      .failed (c.deeper.getD
        (c.failure (if expecting then statementStart ++ terminators else terminators))) := by
  unfold unexpectedInSequence
  rw [fromHere_eq]
  cases c.deeper <;> rfl

theorem deeper_forward {α : Type} {n : Nat} {c : Cursor} {e : Failure} (poised : c.Poised ts)
    (place : e.At ts) (index : e.index = c.index) :
    (.failed (c.deeper.getD e) : Outcome α).Forward ts c.index n := by
  cases deeper : c.deeper with
  | some f =>
    have mem := (Option.filter_eq_some_iff.1 deeper).1
    exact ⟨poised.abandoned f mem, (poised.givenUp f mem).1⟩
  | none => exact ⟨place, Nat.le_of_eq index.symm⟩

theorem deeper_proceeds {α : Type} {n : Nat} {c : Cursor} {e : Failure} (poised : c.Poised ts)
    (place : e.At ts) (index : e.index = c.index) (honest : c.deeper = none → e.Honest) :
    (.failed (c.deeper.getD e) : Outcome α).Proceeds ts c.index n s := by
  cases deeper : c.deeper with
  | some f =>
    have mem := (Option.filter_eq_some_iff.1 deeper).1
    exact ⟨poised.abandoned f mem, poised.givenUp f mem⟩
  | none => exact ⟨place, Nat.le_of_eq index.symm, honest deeper⟩

theorem unexpectedInSequence_proceeds {α : Type} {n : Nat} {expecting : Bool} {c : Cursor}
    (h : Ends c expecting) {terminators : List Token.Kind} (stops : terminators ≠ [])
    (other : c.kind ∉ terminators) :
    (unexpectedInSequence expecting terminators : Rule α).ProceedsAt ts n s c := by
  intro poised
  rw [unexpectedInSequence_eq]
  apply deeper_proceeds poised (poised.failure _) rfl
  intro none
  refine ⟨?_, h.out other none⟩
  change (if expecting then statementStart ++ terminators else terminators) ≠ []
  split
  · simp [statementStart]
  · exact stops

theorem unexpectedInSequence_forward {α : Type} {n : Nat} (expecting : Bool)
    (terminators : List Token.Kind) :
    (unexpectedInSequence expecting terminators : Rule α).Forward ts n := by
  intro c poised
  rw [unexpectedInSequence_eq]
  exact deeper_forward poised (poised.failure _) rfl

theorem closedBlock_proceeds (ends : Token.Terminated ts) (hself : SelfBegins ts k self)
    (more : k ≤ fuel) : (closedBlock fuel self).Proceeds ts 1 k := by
  intro c poised
  apply (statements_proceeds ends hself more c).andThen _ poised
  intro read d done
  apply ProceedsAt.ifAccept_of ends (by simp)
  · exact fun _ => .pure
  · intro other
    exact unexpectedInSequence_proceeds (statements_ends ends hself poised done) (by simp)
      (by simpa using other)

theorem body_proceeds (ends : Token.Terminated ts) (hself : SelfBegins ts k self)
    (more : k ≤ fuel) : (body fuel self).Proceeds ts 1 k := by
  intro c
  apply ProceedsAt.ifAccept ends (by simp)
  · intro d
    apply ((closedBlock_proceeds ends hself more d).mono (Nat.le_refl 1) (Nat.sub_le k 1)).bind
    exact fun _ _ => .pure
  · apply (statement_proceeds ends hself c).bind
    intro t d
    apply ProceedsAt.ifAccept ends (by simp)
    · exact fun _ => .pure
    · exact .pure

theorem otherwise_proceeds (ends : Token.Terminated ts) (hself : SelfBegins ts k self)
    (more : k ≤ fuel) : (otherwise fuel self).Proceeds ts 1 k := by
  intro c
  exact (body_proceeds ends hself more c).bind fun _ _ => .pure

abbrev ArmsRead : Type := List (Arm Tree) × Option (Otherwise Tree) × Bool

abbrev nextArms (fuel n : Nat) (self : Level → Rule Tree) (arm : Arm Tree) : Rule ArmsRead := do
  let (rest, last, closed) ← arms fuel self n
  return (arm :: rest, last, closed)

abbrev lastArm (fuel : Nat) (self : Level → Rule Tree) (closed : Form → Bool) (arm : Arm Tree) :
    Rule ArmsRead := do
  let read ← otherwise fuel self
  return ([arm], some read.1, closed read.2)

abbrev afterBlock (fuel n : Nat) (self : Level → Rule Tree) (condition : Tree) :
    Tree × Bool → Rule ArmsRead := fun (node, expecting) => do
  if ← accept (.keyword .END) then return ([⟨condition, node, true⟩], none, false)
  else if ← accept (.keyword .ELIF) then nextArms fuel n self ⟨condition, node, true⟩
  else if ← accept (.keyword .ELSE) then
    lastArm fuel self (fun _ => false) ⟨condition, node, true⟩
  else unexpectedInSequence expecting [.keyword .END, .keyword .ELIF, .keyword .ELSE]

theorem nextArms_proceeds {n : Nat} (h : (arms fuel self n).Proceeds ts 0 s) (arm : Arm Tree) :
    (nextArms fuel n self arm).Proceeds ts 0 s :=
  fun c => (h c).bind fun _ _ => .pure

theorem lastArm_proceeds (ends : Token.Terminated ts) (hself : SelfBegins ts k self)
    (more : k ≤ fuel) (le : s ≤ k) (closed : Form → Bool) (arm : Arm Tree) :
    (lastArm fuel self closed arm).Proceeds ts 0 s := by
  intro c
  exact ((otherwise_proceeds ends hself more c).mono (Nat.le_succ 0) le).bind fun _ _ => .pure

theorem afterBlock_proceeds (ends : Token.Terminated ts) (hself : SelfBegins ts k self)
    (more : k ≤ fuel) (le : s ≤ k) {n : Nat} (h : (arms fuel self n).Proceeds ts 0 s)
    (condition : Tree) : (statements fuel self >>= afterBlock fuel n self condition).Proceeds ts 0
      s := by
  intro c poised
  apply ((statements_proceeds ends hself more c).mono (Nat.le_refl 0) le).andThen _ poised
  intro read d done
  have stops := statements_ends ends hself poised done
  apply ProceedsAt.ifAccept_of ends (by simp)
  · exact fun _ => .pure
  · intro notEnd
    apply ProceedsAt.ifAccept_of ends (by simp)
    · exact fun e => (nextArms_proceeds h _ e).mono (Nat.le_refl 0) (Nat.sub_le s 1)
    · intro notElif
      apply ProceedsAt.ifAccept_of ends (by simp)
      · intro e
        exact (lastArm_proceeds ends hself more le _ _ e).mono (Nat.le_refl 0) (Nat.sub_le s 1)
      · intro notElse
        exact unexpectedInSequence_proceeds stops (by simp) (by simp [notEnd, notElif, notElse])

theorem arms_proceeds (ends : Token.Terminated ts) (hself : SelfBegins ts k self)
    (more : k ≤ fuel) {n : Nat} (le : s ≤ k) (enough : s ≤ n) :
    (arms fuel self n).Proceeds ts 1 s := by
  induction n generalizing s with
  | zero =>
    intro c
    obtain rfl : s = 0 := by omega
    exact .spent
  | succ n ih =>
    intro c
    apply ((hself .expression c).proceeds.mono (Nat.le_refl 1) le).bind
    intro condition d
    apply (ProceedsAt.expect ends (by simp)).bind
    intro _ d
    -- what has been read of this arm leaves one step more than needed
    have rest : (arms fuel self n).Proceeds ts 0 (s - 1 - 1) := fun e =>
      (ih (s := s - 1 - 1) (by omega) (by omega) e).mono (Nat.le_succ 0) (Nat.le_refl _)
    apply ProceedsAt.ifAccept ends (by simp)
    · intro e
      apply (afterBlock_proceeds ends hself more (by omega) rest condition e).mono (Nat.le_refl 0)
      omega
    · apply ((statement_proceeds ends hself d).mono (Nat.le_refl 1) (by omega)).bind
      intro node e
      apply ProceedsAt.ifAccept ends (by simp)
      · exact fun g => (nextArms_proceeds rest _ g).mono (Nat.le_refl 0) (by omega)
      · apply ProceedsAt.ifAccept ends (by simp)
        · exact lastArm_proceeds ends hself more (by omega) (fun form => form = .closedInline) _
        · apply ProceedsAt.ifAccept ends (by simp)
          · exact fun _ => .pure
          · exact .pure

end Statements

section Commas

variable {ts : List Token} {α β : Type} {item : Rule α} {s : Nat}

def commas (item : Rule α) : Nat → Rule (List α)
  | 0 => spent
  | n + 1 => do
    if ← accept (.symbol .comma) then
      let first ← item
      return first :: (← commas item n)
    else return []

theorem moreNames_eq (n : Nat) : moreNames n = commas name n := by
  induction n with
  | zero => rfl
  | succ n ih => rw [moreNames, commas, ih]

theorem moreExpressions_eq (self : Level → Rule Tree) (n : Nat) :
    moreExpressions self n = commas (self .expression) n := by
  induction n with
  | zero => rfl
  | succ n ih => rw [moreExpressions, commas, ih]

theorem commas_bind (item : Rule α) (n : Nat) (f : List α → Rule β) :
    commas item (n + 1) >>= f = (do
      if ← accept (.symbol .comma) then
        let first ← item
        commas item n >>= fun rest => f (first :: rest)
      else f [] : Rule β) := by
  rw [commas, bind_assoc]
  congr
  funext more
  cases more with
  | false => simp
  | true => simp [bind_assoc]

theorem commas_proceeds (ends : Token.Terminated ts) (hitem : item.Proceeds ts 1 s) {m n : Nat}
    (le : m ≤ s + 1) (enough : m ≤ n) : (commas item n).Proceeds ts 0 m := by
  induction n generalizing m with
  | zero =>
    intro c
    obtain rfl : m = 0 := by omega
    exact .spent
  | succ n ih =>
    intro c
    apply ProceedsAt.ifAccept ends (by simp)
    · intro d
      apply ((hitem d).mono (Nat.le_succ 0) (by omega)).bind
      intro first e
      exact (ih (by omega) (by omega) e).bind fun _ _ => .pure
    · exact .pure

theorem commas_forward (ends : Token.Terminated ts) (hitem : item.Forward ts 0) (n : Nat) :
    (commas item n).Forward ts 0 := by
  induction n with
  | zero => exact fun _ => .spent
  | succ n ih =>
    intro c
    apply ForwardAt.ifAccept ends (by simp)
    · intro d
      apply (hitem d).bind
      intro first e
      exact (ih e).bind fun _ _ => .pure
    · exact .pure

theorem commas_done {n : Nat} {c d : Cursor} {read : List α}
    (h : commas item n c = .done read d) : d.kind ≠ .symbol .comma := by
  induction n generalizing c read with
  | zero => cases h
  | succ n ih =>
    unfold commas at h
    by_cases is : c.kind = .symbol .comma
    · rw [bind_done (accept_pos is)] at h
      obtain ⟨first, c', -, h⟩ := bind_eq_done h
      obtain ⟨rest, c'', more, eq⟩ := bind_eq_done h
      cases eq
      exact ih more
    · rw [bind_done (accept_neg is)] at h
      cases h
      exact is

end Commas

section Constructs

variable {ts : List Token} {k s fuel : Nat} {self : Level → Rule Tree}

theorem conditional_proceeds (ends : Token.Terminated ts) (hself : SelfBegins ts k self)
    (more : k ≤ fuel) (start : Mark) : (conditional fuel self start).Proceeds ts 1 k := by
  intro c
  apply (arms_proceeds ends hself more (Nat.le_refl k) more c).bind
  intro read d
  exact ProceedsAt.markFrom.bind fun _ _ => .pure

theorem forLoop_proceeds (ends : Token.Terminated ts) (hself : SelfBegins ts k self)
    (more : k ≤ fuel) (start : Mark) : (forLoop fuel self start).Proceeds ts 1 k := by
  have expression {s : Nat} (le : s ≤ k) (d : Cursor) : (self .expression).ProceedsAt ts 0 s d :=
    (hself .expression d).proceeds.mono (Nat.le_succ 0) le
  intro c
  apply (ProceedsAt.name ends).bind
  intro counter d
  apply (ProceedsAt.expect ends (by simp)).bind
  intro _ d
  apply (expression (by omega) d).bind
  intro first d
  apply (ProceedsAt.expect ends (by simp)).bind
  intro _ d
  apply (expression (by omega) d).bind
  intro last d
  -- what follows the step is the same whether there is one or not
  have rest (step : Option Tree) {s : Nat} (le : s ≤ k) : (do
      let _ ← keyword .THEN
      let read ← body fuel self
      return .forLoop counter first last step read.1 read.2.suppresses (← markFrom start) :
        Rule Tree).Proceeds ts 0 s := by
    intro e
    apply (ProceedsAt.expect ends (by simp)).bind
    intro _ e
    apply ((body_proceeds ends hself more e).mono (Nat.le_succ 0) (by omega)).bind
    intro read e
    exact ProceedsAt.markFrom.bind fun _ _ => .pure
  apply ProceedsAt.ifAccept ends (by simp)
  · intro e
    apply ProceedsAt.bind (m := 0)
    · exact (expression (by omega) e).bind fun _ _ => .pure
    · intro step e
      exact (rest step (Nat.le_refl k) e).mono (Nat.le_refl 0) (by omega)
  · exact rest none (by omega) d

theorem whileLoop_proceeds (ends : Token.Terminated ts) (hself : SelfBegins ts k self)
    (more : k ≤ fuel) (start : Mark) : (whileLoop fuel self start).Proceeds ts 1 k := by
  intro c
  apply (hself .expression c).proceeds.bind
  intro condition d
  apply (ProceedsAt.expect ends (by simp)).bind
  intro _ d
  apply ((body_proceeds ends hself more d).mono (Nat.le_succ 0) (by omega)).bind
  intro read e
  exact ProceedsAt.markFrom.bind fun _ _ => .pure

theorem parameters_proceeds (ends : Token.Terminated ts) (enough : s ≤ fuel) :
    (parameters fuel).Proceeds ts 1 s := by
  intro c
  apply ProceedsAt.fromHere
  split
  · apply (ProceedsAt.name ends).bind
    intro _ d
    rw [moreNames_eq]
    apply (commas_proceeds (s := s) ends (fun _ => .name ends) (by omega) (by omega) d).andThen
    intro _ e done
    have other := commas_done done
    apply (ProceedsAt.expect_of ends (by simp) (by simp) (by simp [other])).bind
    exact fun _ _ => .pure
  · next other =>
    apply (ProceedsAt.expect_of ends (by simp) (by simp) (by simp [other])).bind
    exact fun _ _ => .pure

theorem functionHead_proceeds (ends : Token.Terminated ts) :
    functionHead.Proceeds ts 1 s := by
  intro c
  apply ProceedsAt.fromHere
  split
  · apply (ProceedsAt.name ends).bind
    intro _ d
    apply (ProceedsAt.expect ends (by simp)).bind
    exact fun _ _ => .pure
  · next other =>
    apply (ProceedsAt.expect_of ends (by simp) (by simp) (by simp [other])).bind
    exact fun _ _ => .pure

theorem function_proceeds (ends : Token.Terminated ts) (hself : SelfBegins ts k self)
    (more : k ≤ fuel) (start : Mark) : (function fuel self start).Proceeds ts 1 k := by
  intro c
  apply (functionHead_proceeds ends c).bind
  intro given d
  apply ((parameters_proceeds ends (by omega) d).mono (Nat.le_succ 0) (Nat.le_refl _)).bind
  intro params e
  apply ProceedsAt.ifAccept_of ends (by simp)
  · intro e'
    apply ((hself .expression e').proceeds.mono (Nat.le_succ 0) (by omega)).bind
    intro node q
    exact ProceedsAt.markFrom.bind fun _ _ => .pure
  · intro notArrow
    apply ProceedsAt.ifAccept_of ends (by simp)
    · intro e'
      apply ((closedBlock_proceeds ends hself more e').mono (Nat.le_succ 0) (by omega)).bind
      intro node q
      exact ProceedsAt.markFrom.bind fun _ _ => .pure
    · intro notNewline
      exact .unexpected (by simp) (by simp [notArrow, notNewline])

theorem items_proceeds (ends : Token.Terminated ts) (hself : SelfBegins ts k self)
    (more : k ≤ fuel) (close : Symbol) : (items fuel self close).Proceeds ts 1 k := by
  intro c poised
  apply ProceedsAt.ifAccept_of ends (by simp) _ _ poised
  · exact fun _ => .pure
  · intro other
    apply ((hself .expression c).proceeds.describing (by simp) _).bind
    · intro first d
      rw [moreExpressions_eq]
      apply (commas_proceeds ends (fun d => (hself .expression d).proceeds) (by omega) (by omega)
        d).andThen
      intro rest e done
      have comma := commas_done done
      apply (ProceedsAt.expect_of ends (by simp) (by simp) (by simp [comma])).bind
      exact fun _ _ => .pure
    · intro e fails first
      have opens := (hself .expression c poised).2
      rw [fails] at opens
      rw [List.mem_cons, not_or]
      exact ⟨other, opens.out first⟩

theorem callsFrom_proceeds (ends : Token.Terminated ts) (hself : SelfBegins ts k self)
    (more : k ≤ fuel) {n : Nat} (le : s ≤ k + 1) (enough : s ≤ n) (t : Tree) :
    (callsFrom fuel self n t).Proceeds ts 0 s := by
  induction n generalizing s t with
  | zero =>
    intro c
    obtain rfl : s = 0 := by omega
    exact .spent
  | succ n ih =>
    intro c
    apply ProceedsAt.ifAccept ends (by simp)
    · intro d
      apply ((items_proceeds ends hself more _ d).mono (Nat.le_succ 0) (by omega)).bind
      intro args e
      apply ProceedsAt.markFrom.bind
      intro mark
      exact ih (by omega) (by omega) _
    · exact .pure

theorem operandsFrom_proceeds (ends : Token.Terminated ts) {ops : List BinaryOp} {right : Rule Tree}
    (hright : right.Proceeds ts 1 s) {m n : Nat} (le : m ≤ s + 1) (enough : m ≤ n) (t : Tree) :
    (operandsFrom ops right n t).Proceeds ts 0 m := by
  induction n generalizing m t with
  | zero =>
    intro c
    obtain rfl : m = 0 := by omega
    exact .spent
  | succ n ih =>
    intro c
    apply ProceedsAt.fromHere
    dsimp only
    split
    · exact .pure
    · next op found =>
      have is : op.kind = c.kind := by simpa using List.find?_some found
      apply (ProceedsAt.advance ends (by rw [← is]; cases op <;> nofun)).bind
      intro _ d
      apply ((hright d).mono (Nat.le_succ 0) (by omega)).bind
      intro u
      exact ih (by omega) (by omega) _

theorem operandsFrom_forward (ends : Token.Terminated ts) {ops : List BinaryOp} {right : Rule Tree}
    (hright : right.Forward ts 0) (n : Nat) (t : Tree) :
    (operandsFrom ops right n t).Forward ts 0 := by
  induction n generalizing t with
  | zero => exact fun _ => .spent
  | succ n ih =>
    intro c poised
    cases found : ops.find? (·.kind = c.kind) with
    | none =>
      rw [operandsFrom_stop found]
      exact ⟨poised, Nat.le_refl _⟩
    | some op =>
      rw [operandsFrom_turn found]
      have is : op.kind = c.kind := by simpa using List.find?_some found
      have next := ends.advance_index poised.toAt (by rw [← is]; cases op <;> nofun)
      have rest := (hright c.advance).bind (n := 0) fun u =>
        ih (.binary op t u (t.note.through u.note))
      exact (rest poised.advance).before (m := 0) (by omega) (Nat.le_refl _)

end Constructs

section Levels

variable {ts : List Token} {k fuel : Nat} {self : Level → Rule Tree}

theorem atom_begins (ends : Token.Terminated ts) (hself : SelfBegins ts k self)
    (more : k ≤ fuel) : (atom fuel self).Begins ts atomStart (k + 1) := by
  intro c
  -- each case takes its first token
  have other : ∀ x ∈ atomStart, x ≠ .eof := by decide
  have taken {x : Token.Content} (is : c.current.content = x) (first : x.kind ∈ atomStart)
      {f : Token → Rule Tree} (hf : ∀ t, (f t).Proceeds ts 0 k) :
      (advance >>= f).BeginsAt ts atomStart (k + 1) c :=
    .advance ends (Cursor.kind_of_content is) first (other _ first) hf
  have construct {α : Type} {p : Rule α} (hp : p.Proceeds ts 1 k) : p.Proceeds ts 0 k :=
    fun d => (hp d).mono (Nat.le_succ 0) (Nat.le_refl k)
  apply BeginsAt.fromHere
  split
  · next is => exact taken is (by simp [atomStart, Token.Content.kind]) fun _ _ => .pure
  · next is => exact taken is (by simp [atomStart, Token.Content.kind]) fun _ _ => .pure
  · next is => exact taken is (by simp [atomStart, Token.Content.kind]) fun _ _ => .pure
  · next is => exact taken is (by simp [atomStart, Token.Content.kind]) fun _ _ => .pure
  · next is =>
    apply taken is (by decide)
    intro _ d
    apply ((hself .expression d).proceeds.mono (Nat.le_succ 0) (Nat.le_refl k)).bind
    intro inner e
    exact (ProceedsAt.expect ends (by simp)).bind fun _ _ => .pure
  · next is =>
    apply taken is (by decide)
    intro _ d
    apply (construct (items_proceeds ends hself more _) d).bind
    intro elements e
    exact ProceedsAt.markFrom.bind fun _ _ => .pure
  · next is =>
    exact taken is (by decide) fun _ => construct (conditional_proceeds ends hself more _)
  · next is =>
    exact taken is (by decide) fun _ => construct (forLoop_proceeds ends hself more _)
  · next is =>
    exact taken is (by decide) fun _ => construct (whileLoop_proceeds ends hself more _)
  · next is =>
    exact taken is (by decide) fun _ => construct (function_proceeds ends hself more _)
  · apply BeginsAt.unexpected rfl _ (fun _ mem => mem) (by decide)
    change c.current.content.kind ∉ atomStart
    generalize c.current.content = x at *
    cases x <;> simp_all [atomStart, Token.Content.kind]

theorem call_begins (ends : Token.Terminated ts) (hself : SelfBegins ts k self)
    (more : k < fuel) : (call fuel self).Begins ts atomStart (k + 1) := by
  intro c
  apply (atom_begins ends hself (by omega) c).bind
  intro t
  exact callsFrom_proceeds ends hself (by omega) (by omega) (by omega) t

theorem operands_begins (ends : Token.Terminated ts) {F : List Token.Kind} {left right : Rule Tree}
    {ops : List BinaryOp} (hleft : left.Begins ts F (k + 1)) (hright : right.Proceeds ts 1 k)
    (more : k ≤ fuel) : (operands fuel left ops right).Begins ts F (k + 1) := by
  intro c
  apply (hleft c).bind
  intro t
  exact operandsFrom_proceeds ends hright (by omega) (by omega) t

theorem operands_begins_same (ends : Token.Terminated ts) {F : List Token.Kind} {p : Rule Tree}
    {ops : List BinaryOp} (hp : p.Begins ts F (k + 1)) (more : k ≤ fuel) :
    (operands fuel p ops p).Begins ts F (k + 1) :=
  operands_begins ends hp (fun c => (hp c).proceeds.mono (Nat.le_refl 1) (by omega)) more

theorem factor_begins (ends : Token.Terminated ts) (hself : SelfBegins ts k self)
    (more : k < fuel) : (factor fuel self).Begins ts factorStart (k + 1) := by
  intro c
  apply BeginsAt.fromHere
  have operand (op : UnaryOp) : (do
      let operand ← self .factor
      return .unary op operand (c.mark.through operand.note) : Rule Tree).Proceeds ts 0 k := by
    intro d
    exact ((hself .factor d).proceeds.mono (Nat.le_succ 0) (Nat.le_refl k)).bind fun _ _ => .pure
  split
  · next is => exact .advance ends is (by decide) nofun fun _ => operand .plus
  · next is => exact .advance ends is (by decide) nofun fun _ => operand .minus
  · next plus minus =>
    have power : (power fuel self).Begins ts atomStart (k + 1) :=
      operands_begins ends (call_begins ends hself more)
        (fun d => (hself .factor d).proceeds) (by omega)
    apply (power c).widen (by decide)
    intro mem
    simp only [factorStart, List.mem_cons] at mem
    exact (mem.resolve_left plus).resolve_left minus

theorem arithmetic_begins (ends : Token.Terminated ts) (hself : SelfBegins ts k self)
    (more : k < fuel) : (arithmetic fuel self).Begins ts factorStart (k + 1) := by
  have term : (term fuel self).Begins ts factorStart (k + 1) :=
    operands_begins_same ends (factor_begins ends hself more) (by omega)
  exact operands_begins_same ends term (by omega)

theorem comparison_begins (ends : Token.Terminated ts) (hself : SelfBegins ts k self)
    (more : k < fuel) : (comparison fuel self).Begins ts Level.comparison.start (k + 1) := by
  intro c
  apply BeginsAt.fromHere
  split
  · next is =>
    apply BeginsAt.advance ends is (by decide) nofun
    intro _ d
    apply ((hself .comparison d).proceeds.mono (Nat.le_succ 0) (Nat.le_refl k)).bind
    exact fun _ _ => .pure
  · next negates =>
    have chain : (operands fuel (arithmetic fuel self) [.eq, .ne, .lt, .gt, .lte, .gte]
        (arithmetic fuel self)).Begins ts factorStart (k + 1) :=
      operands_begins_same ends (arithmetic_begins ends hself more) (by omega)
    apply (chain c).widen (by decide)
    intro mem
    simp only [Level.start, List.mem_cons] at mem
    exact mem.resolve_left negates

theorem expression_begins (ends : Token.Terminated ts) (hself : SelfBegins ts k self)
    (more : k < fuel) : (expression fuel self).Begins ts expressionStart (k + 1) := by
  intro c
  apply BeginsAt.fromHere
  split
  · next is =>
    apply BeginsAt.advance ends is (by decide) nofun
    intro _ d
    apply (ProceedsAt.name ends).bind
    intro target d
    apply (ProceedsAt.expect ends (by simp)).bind
    intro _ d
    exact ((hself .expression d).proceeds.mono (Nat.le_succ 0) (by omega)).bind fun _ _ => .pure
  · next assigns =>
    have logic : (operands fuel (comparison fuel self) [.and, .or]
        (comparison fuel self)).Begins ts Level.comparison.start (k + 1) :=
      operands_begins_same ends (comparison_begins ends hself more) (by omega)
    apply BeginsAt.describing _ (by decide)
    apply (logic c).widen (by decide)
    intro mem
    have same : ∀ x ∈ expressionStart, x ≠ .keyword .VAR → x ∈ Level.comparison.start := by decide
    exact same _ mem assigns

end Levels

theorem level_begins {ts : List Token} (ends : Token.Terminated ts) (k : Nat) (l : Level) :
    (level k l).Begins ts l.start k := by
  induction k generalizing l with
  | zero => exact fun _ poised => ⟨ProceedsAt.spent poised, trivial⟩
  | succ k ih =>
    have self : SelfBegins ts k (level k) := ih
    cases l with
    | expression => exact expression_begins ends self (Nat.lt_succ_self k)
    | comparison => exact comparison_begins ends self (Nat.lt_succ_self k)
    | factor => exact factor_begins ends self (Nat.lt_succ_self k)

theorem level_proceeds {ts : List Token} (ends : Token.Terminated ts) (k : Nat) (l : Level) :
    (level k l).Proceeds ts 1 k :=
  fun c => (level_begins ends k l c).proceeds

theorem level_starts {ts : List Token} (ends : Token.Terminated ts) (k : Nat) :
    SelfBegins ts 0 (level k) :=
  fun l c => (level_begins ends k l c).mono (Nat.zero_le k)

theorem level_forward {ts : List Token} (ends : Token.Terminated ts) (k : Nat) (l : Level) :
    (level k l).Forward ts 0 :=
  (level_proceeds ends k l).forward (Nat.zero_le 1)

theorem newlines_forward {ts : List Token} (ends : Token.Terminated ts) (n : Nat) :
    (newlines n).Forward ts 0 :=
  (newlines_proceeds ends (Nat.zero_le n)).forward (Nat.le_refl 0)

theorem statementsFrom_forward {ts : List Token} (ends : Token.Terminated ts) (fuel k n : Nat) :
    (statementsFrom fuel (level k) n).Forward ts 0 :=
  (statementsFrom_proceeds ends (level_starts ends k) (Nat.zero_le fuel) (Nat.le_refl 0)
    (Nat.zero_le n)).forward (Nat.le_refl 0)

theorem arms_forward {ts : List Token} (ends : Token.Terminated ts) (fuel k n : Nat) :
    (arms fuel (level k) n).Forward ts 0 :=
  (arms_proceeds ends (level_starts ends k) (Nat.zero_le fuel) (Nat.le_refl 0)
    (Nat.zero_le n)).forward (Nat.zero_le 1)

theorem moreExpressions_forward {ts : List Token} (ends : Token.Terminated ts) (k n : Nat) :
    (moreExpressions (level k) n).Forward ts 0 :=
  moreExpressions_eq (level k) n ▸ commas_forward ends (level_forward ends k .expression) n

theorem items_forward {ts : List Token} (ends : Token.Terminated ts) (fuel k : Nat)
    (close : Symbol) : (items fuel (level k) close).Forward ts 0 :=
  (items_proceeds ends (level_starts ends k) (Nat.zero_le fuel) close).forward (Nat.zero_le 1)

theorem callsFrom_forward {ts : List Token} (ends : Token.Terminated ts) (fuel k n : Nat)
    (t : Tree) : (callsFrom fuel (level k) n t).Forward ts 0 :=
  (callsFrom_proceeds ends (level_starts ends k) (Nat.zero_le fuel) (Nat.zero_le _) (Nat.zero_le n)
    t).forward (Nat.le_refl 0)

def leftOver (expecting : Bool) (c : Cursor) : Failure :=
  { c.failure (if expecting then statementStart ++ [.newline, .eof] else [.newline, .eof]) with
    trailing := !expecting }

theorem program_eq {fuel : Nat} {c d : Cursor} {read : Tree × Bool}
    (h : statements fuel (level fuel) c = .done read d) : program fuel c =
      if d.kind = .eof then .done read.1 d else .failed (d.deeper.getD (leftOver read.2 d)) := by
  obtain ⟨node, expecting⟩ := read
  refine (bind_done h).trans ((fromHere_eq _).trans ?_)
  dsimp only
  split
  · rfl
  · cases expecting with
    | false => rfl
    | true => exact unexpectedInSequence_eq true [.newline, .eof] d

theorem program_proceeds {ts : List Token} (ends : Token.Terminated ts) (fuel : Nat) :
    (program fuel).Proceeds ts 0 fuel := by
  intro c poised
  have self := level_begins ends fuel
  have moves := statements_proceeds ends self (Nat.le_refl fuel) c poised
  cases done : statements fuel (level fuel) c with
  | spent =>
    rw [done] at moves
    rw [show program fuel c = .spent from bind_spent done]
    exact moves
  | failed e =>
    rw [done] at moves
    rw [show program fuel c = .failed e from bind_failed done]
    exact moves
  | done read d =>
    rw [done] at moves
    rw [program_eq done]
    have stopped := statements_ends ends self poised done
    split
    · exact moves
    · next notEof =>
      have other : d.kind ∉ [.newline, .eof] := by simp [stopped.unseparated, notEof]
      have honest (none : d.deeper = none) : (leftOver read.2 d).Honest := by
        refine ⟨?_, stopped.out other none⟩
        cases read.2 <;> simp [leftOver, Cursor.failure, statementStart]
      have fails : (.failed (d.deeper.getD (leftOver read.2 d)) : Outcome Tree).Proceeds ts d.index
          0 fuel := deeper_proceeds moves.1 moves.1.current rfl honest
      exact fails.before moves.2 (Nat.le_refl 0) (by omega)

end ScriptLang.Grammar
