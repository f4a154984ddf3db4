import ScriptLang.Proofs.Progress.Grammar

/-! Readings that went astray. The value of a `RETURN` that cannot be read sends the cursor back to
where it began, and the constructs around the `RETURN` go on from there. Whatever they read then
fails where the value failed, unless they get past a given token, the edge: a parenthesis may be
taken for the arguments of a call and a sign for an operator, but what follows is read as before. -/
namespace ScriptLang

open Grammar Rule

/-- Tokens, one of which is the edge. `Fails` tells at which tokens a reading that went astray
fails, those behind the edge among them, and `Back` where it is put back to. -/
structure Drift where
  tokens : List Token
  edge : Nat
  Back : Nat → Prop
  Fails : Nat → Prop
  terminated : Token.Terminated tokens
  beyond : ∀ {i : Nat}, edge < i → Fails i
  starts : ∀ {i : Nat} {t : Token}, Fails i → i < edge → tokens[i]? = some t →
    t.kind ∈ expressionStart

namespace Drift

variable (W : Drift)

def Passed (c : Cursor) : Prop := c.Poised W.tokens ∧ W.edge < c.index

/-- The reading got past the edge, or ended at a cursor of `D`, or failed as those that went
astray. -/
def Lost {α : Type} (D : Cursor → Prop) : Outcome α → Prop
  | .done _ c => W.Passed c ∨ D c
  | .failed e => e.At W.tokens ∧ W.Fails e.index
  | .spent => True

structure Strayed (c : Cursor) : Prop where
  poised : c.Poised W.tokens
  back : W.Back c.index
  reading : ∃ k d e, d.Poised W.tokens ∧ d.index = c.index ∧
    level k .expression d = .failed e ∧ c.index < e.index ∧ W.Fails e.index ∧ c.abandoned = some e

/-- Whatever the loops of these rungs read from the cursor on is lost. -/
def Astray (rs : List Rung) (c : Cursor) : Prop := ∀ k t, W.Lost W.Strayed (onward k rs t c)

structure Halted (c : Cursor) : Prop where
  poised : c.Poised W.tokens
  starts : c.kind ∈ expressionStart
  deeper : ∃ e, c.abandoned = some e ∧ c.index < e.index ∧ W.Fails e.index

end Drift

theorem Rung.rule_proceeds {ts : List Token} (ends : Token.Terminated ts) (k : Nat) (r : Rung) :
    (r.rule (k + 1) (level k)).Proceeds ts 1 0 := by
  have self := level_begins ends k
  have less : k < k + 1 := Nat.lt_succ_self k
  have begun {F : List Token.Kind} {p : Rule Tree} (hp : p.Begins ts F (k + 1)) :
      p.Proceeds ts 1 0 :=
    fun c => (hp c).proceeds.mono (Nat.le_refl 1) (Nat.zero_le _)
  have factor := factor_begins ends self less
  have arithmetic := arithmetic_begins ends self less
  have comparison := comparison_begins ends self less
  cases r with
  | expression => exact begun (expression_begins ends self less)
  | logic => exact begun (operands_begins_same ends comparison (by omega))
  | comparison => exact begun comparison
  | chain => exact begun (operands_begins_same ends arithmetic (by omega))
  | arithmetic => exact begun arithmetic
  | term => exact begun (operands_begins_same ends factor (by omega))
  | factor => exact begun factor
  | power => exact begun (operands_begins ends (call_begins ends self less)
      (level_proceeds ends k .factor) (by omega))
  | call => exact begun (call_begins ends self less)
  | atom => exact begun (atom_begins ends self (by omega))

theorem Rung.loop_forward {ts : List Token} (ends : Token.Terminated ts) (k n : Nat) (r : Rung)
    (t : Tree) : (r.loop k n t).Forward ts 0 := by
  cases r with
  | call => exact callsFrom_forward ends (k + 1) k n t
  | power => exact operandsFrom_forward ends (level_forward ends k .factor) n t
  | _ => exact operandsFrom_forward ends ((Rung.rule_proceeds ends k _).forward (Nat.zero_le 1)) n t

theorem Rung.loop_zero (k : Nat) (r : Rung) (t : Tree) : r.loop k 0 t = Rule.spent := by
  cases r <;> rfl

theorem onward_forward {ts : List Token} (ends : Token.Terminated ts) (k : Nat) (rs : List Rung)
    (t : Tree) : (onward k rs t).Forward ts 0 := by
  induction rs generalizing t with
  | nil => exact fun _ => .pure
  | cons r rs ih =>
    intro c
    exact (r.loop_forward ends k (k + 1) t c).bind ih

namespace Drift

variable {W : Drift} {α β : Type} {D E : Cursor → Prop} {c : Cursor} {rs : List Rung}

theorem Passed.lost (h : W.Passed c) {p : Rule α} (hp : p.Forward W.tokens 0) :
    W.Lost D (p c) := by
  have ends := hp c h.1
  have past := h.2
  cases read : p c with
  | done a c' =>
    rw [read] at ends
    exact .inl ⟨ends.1, by have := ends.2; omega⟩
  | failed e =>
    rw [read] at ends
    exact ⟨ends.1, W.beyond (by have := ends.2; omega)⟩
  | spent => trivial

theorem lost_of_begins {p : Rule α} {F : List Token.Kind} {s : Nat}
    (h : p.BeginsAt W.tokens F s c) (poised : c.Poised W.tokens) (reached : W.edge ≤ c.index)
    (first : c.kind ∈ F) : W.Lost D (p c) := by
  obtain ⟨moves, opens⟩ := h poised
  cases read : p c with
  | spent => trivial
  | done a c' =>
    rw [read] at moves
    exact .inl ⟨moves.1, by have := moves.2; omega⟩
  | failed e =>
    rw [read] at moves opens
    rcases opens with ⟨-, further⟩ | ⟨out, -⟩
    · exact ⟨moves.1, W.beyond (by omega)⟩
    · exact absurd first out

namespace Lost

theorem passed {a : α} (h : W.Passed c) : W.Lost D (.done a c) := .inl h

theorem strayed {a : α} (h : D c) : W.Lost D (.done a c) := .inr h

theorem failed {e : Failure} (place : e.At W.tokens) (lost : W.Fails e.index) :
    W.Lost D (.failed e : Outcome α) :=
  ⟨place, lost⟩

theorem bind {p : Rule α} {f : α → Rule β} (h : W.Lost D (p c))
    (hf : ∀ a, (f a).Forward W.tokens 0) (stray : ∀ a d, D d → W.Lost E (f a d)) :
    W.Lost E ((p >>= f) c) := by
  cases read : p c with
  | done a d =>
    rw [read] at h
    rw [bind_done read]
    rcases h with passed | strayed
    · exact passed.lost (hf a)
    · exact stray a d strayed
  | failed e =>
    rw [read] at h
    rw [bind_failed read]
    exact h
  | spent =>
    rw [bind_spent read]
    trivial

theorem mono {o : Outcome α} (h : W.Lost D o) (weaker : ∀ d, D d → E d) : W.Lost E o := by
  cases o with
  | done a c => exact h.imp_right (weaker c)
  | failed e => exact h
  | spent => trivial

theorem value {a : α} (h : W.Lost D (.done a c)) (weaker : ∀ d, D d → E d) (b : β) :
    W.Lost E (.done b c) :=
  Or.imp_right (weaker c) h

theorem of_ending {o : Outcome α} {o' : Outcome β}
    (same : o.ending = none ∨ o.ending = o'.ending) (h : W.Lost D o') : W.Lost D o := by
  cases o with
  | spent => trivial
  | failed e =>
    cases o' with
    | failed e' =>
      obtain rfl : e = e' := by simpa [Outcome.ending] using same
      exact h
    | _ => simp [Outcome.ending] at same
  | done a c =>
    cases o' with
    | done b c' =>
      obtain rfl : c = c' := by simpa [Outcome.ending] using same
      exact h
    | _ => simp [Outcome.ending] at same

theorem level {j k : Nat} {l : Level} {o : Outcome Tree} (read : level j l c = o)
    (enough : o ≠ .spent) (h : W.Lost D o) : W.Lost D (level k l c) := by
  subst read
  have left := (level_le (Nat.le_max_left j k) l c).resolve_left enough
  rcases level_le (Nat.le_max_right j k) l c with out | right
  · rw [out]
    trivial
  · rw [right, ← left]
    exact h

theorem described {p : Rule α} (place : c.At W.tokens) (h : W.Lost D (p c))
    (expected : List Token.Kind) : W.Lost D (describing p expected c) := by
  unfold Rule.describing
  cases read : p c with
  | done a c' =>
    rw [read] at h
    exact h
  | spent => trivial
  | failed e =>
    rw [read] at h
    dsimp only
    split
    · next first => exact ⟨place.current, show W.Fails c.index from first ▸ h.2⟩
    · exact h

theorem ended {o : Outcome α} (h : W.Lost (W.Astray []) o) : W.Lost W.Strayed o := by
  cases o with
  | done a c => exact h.elim .inl fun astray => astray 0 (.breaks c.mark)
  | failed e => exact h
  | spent => trivial

end Lost

namespace Astray

theorem of_failed {j : Nat} {t : Tree} {e : Failure} (fails : onward j rs t c = .failed e)
    (place : e.At W.tokens) (further : W.Fails e.index) : W.Astray rs c := by
  intro k u
  have left := onward_within (Nat.le_max_left j k) rs t u c
  have right := onward_within (Nat.le_max_right j k) rs u u c
  rw [fails] at left
  have lost : W.Lost W.Strayed (.failed e : Outcome Tree) := ⟨place, further⟩
  exact .of_ending right (lost.of_ending (.inr (left.resolve_left nofun).symm))

theorem skip {r : Rung} (stop : r.continues c.kind = false) (h : W.Astray rs c) :
    W.Astray (r :: rs) c := by
  intro k t
  rw [onward_skip stop]
  exact h k t

theorem loop {r : Rung} (h : W.Astray (r :: rs) c) (k n : Nat) (t : Tree) :
    W.Lost (W.Astray rs) (r.loop k n t c) := by
  -- with more steps than either has, the loop does the same and the others go on behind it
  have whole (j : Nat) : W.Lost W.Strayed ((r.loop k n t >>= onward j rs) c) := by
    apply Lost.of_ending _ (h (max (max k n) j) t)
    apply (r.loop_within (by omega) (by omega) t t).bind
    exact fun _ _ => onward_within (by omega) rs _ _
  cases read : r.loop k n t c with
  | spent => trivial
  | failed e =>
    have := whole 0
    rwa [bind_failed read] at this
  | done u c' =>
    right
    intro j v
    have := whole j
    rw [bind_done read] at this
    exact .of_ending (onward_within (Nat.le_refl j) rs v u c') this

theorem powers (h : W.Astray (.power :: rs) c) (k n : Nat) (t : Tree) :
    W.Lost (fun d => W.Astray (.power :: rs) d ∧ W.Astray rs d) (Rung.power.loop k n t c) := by
  have lost := h.loop k n t
  cases read : Rung.power.loop k n t c with
  | spent => trivial
  | failed e =>
    rw [read] at lost
    exact lost
  | done u d =>
    rw [read] at lost
    have stop : Rung.power.continues d.kind = false := by
      simp only [Rung.continues, operandsFrom_done read, Option.isSome_none]
    exact lost.imp_right fun astray => ⟨.skip stop astray, astray⟩

end Astray

namespace Strayed

theorem starts (h : W.Strayed c) : c.kind ∈ expressionStart := by
  obtain ⟨k, d, e, poised, index, fails, further, -, -⟩ := h.reading
  have opens := (level_begins W.terminated k .expression d poised).2
  have current : d.current = c.current :=
    Option.some.inj (poised.current.symm.trans (index ▸ h.poised.current))
  have kind : d.kind = c.kind := congrArg Token.kind current
  rw [fails] at opens
  rcases opens with ⟨first, -⟩ | ⟨-, here, -⟩
  · exact kind ▸ first
  · omega

theorem halted (h : W.Strayed c) : W.Halted c := by
  obtain ⟨k, d, e, -, -, -, further, lost, given⟩ := h.reading
  exact ⟨h.poised, h.starts, e, given, further, lost⟩

theorem of_failed {k : Nat} {e : Failure} (poised : c.Poised W.tokens) (back : W.Back c.index)
    (fails : level k .expression c = .failed e) (further : c.index < e.index)
    (lost : W.Fails e.index) : W.Strayed { c with abandoned := some e } := by
  have moves := level_proceeds W.terminated k .expression c poised
  rw [fails] at moves
  exact ⟨poised.givenUp_at moves, back, k, c, e, poised, rfl, fails, further, lost, rfl⟩

/-- Unless it begins with an assignment or a negation, the expression is a factor and what is read
behind it. -/
theorem factor (h : W.Strayed c) (assigns : c.kind ≠ .keyword .VAR)
    (negates : c.kind ≠ .keyword .NOT) : ∃ k d e, d.kind = c.kind ∧ d.advance = c.advance ∧
      e.At W.tokens ∧ W.Fails e.index ∧
      (Grammar.factor (k + 1) (level k) >>= onward k [.term, .arithmetic, .chain, .logic]) d =
        .failed e := by
  obtain ⟨k, d, e, poised, index, fails, further, lost, -⟩ := h.reading
  have current : d.current = c.current :=
    Option.some.inj (poised.current.symm.trans (index ▸ h.poised.current))
  have kind : d.kind = c.kind := congrArg Token.kind current
  have place := (level_proceeds W.terminated k .expression) d poised
  rw [fails] at place
  cases k with
  | zero => cases fails
  | succ k =>
    rw [level_expression (kind ▸ assigns) (kind ▸ negates)] at fails
    exact ⟨k, d, e, kind, poised.toAt.advance_eq h.poised.toAt index, place.1, lost,
      describing_failed fails (by omega)⟩

theorem signed (h : W.Strayed c) (sign : UnaryOp) (rung : sign.rung = .factor)
    (is : c.kind = sign.content.kind) : W.Astray [.arithmetic, .chain, .logic] c := by
  intro k t
  have other : c.kind ≠ .keyword .VAR ∧ c.kind ≠ .keyword .NOT := by
    rw [is]
    cases sign with
    | not => cases rung
    | plus => decide
    | minus => decide
  obtain ⟨op, found⟩ : ∃ op, Rung.arithmetic.ops.find? (·.kind = c.kind) = some op := by
    rw [is]
    cases sign with
    | not => cases rung
    | plus => exact ⟨.add, by decide⟩
    | minus => exact ⟨.sub, by decide⟩
  obtain ⟨j, d, e, kind, next, place, lost, fails⟩ := h.factor other.1 other.2
  -- behind the sign, both readings begin with a factor
  have operand : (level j .factor >>= fun v => onward j [.term, .arithmetic, .chain, .logic]
      (.unary sign v (d.mark.through v.note))) c.advance = .failed e := by
    rw [← next, ← fails, bind_congr_at _ (factor_signed sign rung (kind.trans is)), bind_assoc]
    refine ((bind_done rfl).trans ?_).symm
    rw [bind_assoc]
    rfl
  have factor_ : W.Lost (W.Astray [.term, .arithmetic, .chain, .logic])
      (Grammar.factor (k + 1) (level k) c.advance) := by
    change W.Lost _ (level (k + 1) .factor c.advance)
    cases read : level j .factor c.advance with
    | spent =>
      rw [bind_spent read] at operand
      cases operand
    | failed e' =>
      rw [bind_failed read] at operand
      cases operand
      exact .level read nofun ⟨place, lost⟩
    | done v c' =>
      rw [bind_done read] at operand
      exact .level read nofun (.inr (.of_failed operand place lost))
  change W.Lost _ ((operandsFrom Rung.arithmetic.ops (term (k + 1) (level k)) (k + 1) t >>=
    onward k [.chain, .logic]) c)
  rw [bind_congr_at _ (operandsFrom_turn found), bind_assoc]
  have term_ : W.Lost (W.Astray [.arithmetic, .chain, .logic])
      (term (k + 1) (level k) c.advance) :=
    factor_.bind (fun v => Rung.term.loop_forward W.terminated k (k + 1) v)
      fun v c' astray => astray.loop k (k + 1) v
  have rest (u : Tree) : (operandsFrom Rung.arithmetic.ops (term (k + 1) (level k)) k
      (.binary op t u (t.note.through u.note)) >>= onward k [.chain, .logic]).Forward
        W.tokens 0 := by
    intro d
    exact (Rung.arithmetic.loop_forward W.terminated k k _ d).bind
      (onward_forward W.terminated k [.chain, .logic])
  apply term_.bind rest
  intro v c' astray
  apply (astray.loop k k _).bind (onward_forward W.terminated k [.chain, .logic])
  exact fun u c' astray => astray k u

end Strayed

theorem Halted.of_failed {k : Nat} {e : Failure} (poised : c.Poised W.tokens)
    (fails : statement (level k) c = .failed e) (further : c.index < e.index)
    (lost : W.Fails e.index) : W.Halted { c with abandoned := some e } := by
  have moves := statement_proceeds W.terminated (level_begins W.terminated k) c poised
  rw [fails] at moves
  refine ⟨poised.givenUp_at moves, ?_, e, rfl, further, lost⟩
  have opens := (level_begins W.terminated k .expression c poised).2
  rw [statement_failed fails (by omega)] at opens
  rcases opens with ⟨first, -⟩ | ⟨-, here, -⟩
  · exact first
  · omega

theorem Halted.kind_ne (h : W.Halted c) {x : Token.Kind} (out : x ∉ .eof :: expressionStart) :
    c.kind ≠ x := by
  rintro rfl
  exact out (List.mem_cons_of_mem _ h.starts)

theorem Halted.deeper_eq (h : W.Halted c) :
    ∃ e, c.deeper = some e ∧ e.At W.tokens ∧ W.Fails e.index := by
  obtain ⟨e, given, further, lost⟩ := h.deeper
  refine ⟨e, ?_, h.poised.abandoned e given, lost⟩
  rw [h.poised.deeper_eq W.terminated.ascending, given]
  simp [further]

theorem edge_le (place : c.At W.tokens) {x : Token.Kind} (is : c.kind = x)
    (out : x ∉ expressionStart) (lost : W.Fails c.index) : W.edge ≤ c.index := by
  by_contra before
  exact out (is ▸ W.starts lost (by omega) place.current)

theorem Passed.advance (poised : c.Poised W.tokens) (more : c.kind ≠ .eof)
    (reached : W.edge ≤ c.index) : W.Passed c.advance := by
  have next := W.terminated.advance_index poised.toAt more
  exact ⟨poised.advance, by omega⟩

theorem moreExpressions_lost (poised : c.Poised W.tokens) (comma : c.kind = .symbol .comma)
    (lost : W.Fails c.index) (k : Nat) :
    W.Lost (fun _ => False) (moreExpressions (level k) (k + 1) c) := by
  have reached := edge_le poised.toAt comma (by decide) lost
  have passed : W.Passed c.advance := .advance poised (by rw [comma]; nofun) reached
  unfold moreExpressions
  rw [bind_done (accept_pos comma)]
  apply passed.lost
  intro d
  apply (level_forward W.terminated k .expression d).bind
  intro first d'
  exact (moreExpressions_forward W.terminated k k d').bind fun _ _ => .pure

/-- What fails at the parenthesis that should close, or behind it, fails as the arguments of a call
after the first one, or behind them. -/
theorem laterItems_lost (poised : c.Poised W.tokens) {j : Nat} {v first : Tree} {e : Failure}
    (place : e.At W.tokens) (lost : W.Fails e.index)
    (fails : (symbol .rightParen >>= fun _ => onward j rs v) c = .failed e) (k : Nat) :
    W.Lost (W.Astray rs) ((do
      let rest ← moreExpressions (level k) (k + 1)
      let _ ← expect (.symbol .rightParen) [.symbol .comma, .symbol .rightParen]
      return first :: rest : Rule (List Tree)) c) := by
  by_cases closed : c.kind = .symbol .rightParen
  · rw [bind_done (show symbol .rightParen c = _ from if_pos closed)] at fails
    rw [bind_done (moreExpressions_stop (by rw [closed]; decide))]
    rw [bind_done (show expect _ _ c = _ from if_pos closed)]
    exact .inr (.of_failed fails place lost)
  · rw [bind_failed (show symbol .rightParen c = _ from if_neg closed)] at fails
    cases fails
    by_cases comma : c.kind = .symbol .comma
    · apply (moreExpressions_lost poised comma lost k).bind _ fun _ _ never => never.elim
      intro _ d
      exact (ForwardAt.expect W.terminated (by simp)).bind fun _ _ => .pure
    · rw [bind_done (moreExpressions_stop comma)]
      rw [bind_failed (show expect _ _ c = _ from if_neg closed)]
      exact ⟨place, lost⟩

theorem items_lost (poised : c.Poised W.tokens) {j : Nat} {e : Failure} (place : e.At W.tokens)
    (lost : W.Fails e.index)
    (fails : (level j .expression >>= fun v => symbol .rightParen >>= fun _ => onward j rs v) c =
      .failed e) (k : Nat) : W.Lost (W.Astray rs) (items (k + 1) (level k) .rightParen c) := by
  by_cases closes : c.kind = .symbol .rightParen
  · -- nothing begins with the parenthesis that closes, so it stands behind the edge or at it
    have reached : W.edge ≤ c.index := by
      cases j with
      | zero => cases fails
      | succ j =>
        rw [bind_failed (level_refused (by rw [closes]; decide))] at fails
        cases fails
        exact edge_le poised.toAt closes (by decide) lost
    have passed : W.Passed c.advance := .advance poised (by rw [closes]; nofun) reached
    unfold items
    rw [bind_done (accept_pos closes)]
    exact .inl passed
  rw [items_eq closes]
  have rest (first : Tree) : (do
      let rest ← moreExpressions (level k) (k + 1)
      let _ ← expect (.symbol .rightParen) [.symbol .comma, .symbol .rightParen]
      return first :: rest : Rule (List Tree)).Forward W.tokens 0 := by
    intro d
    apply (moreExpressions_forward W.terminated k (k + 1) d).bind
    intro rest d
    exact (ForwardAt.expect W.terminated (by simp)).bind fun _ _ => .pure
  cases read : level j .expression c with
  | spent =>
    rw [bind_spent read] at fails
    cases fails
  | failed e' =>
    rw [bind_failed read] at fails
    cases fails
    have first : W.Lost (fun _ => False) (level k .expression c) :=
      .level read nofun ⟨place, lost⟩
    exact (first.described poised.toAt _).bind rest fun _ _ never => never.elim
  | done v d =>
    have moves := level_proceeds W.terminated j .expression c poised
    rw [read] at moves
    rw [bind_done read] at fails
    have first : W.Lost (fun d' => d' = d) (level k .expression c) := .level read nofun (.inr rfl)
    apply (first.described poised.toAt _).bind rest
    rintro u d rfl
    exact laterItems_lost moves.1 place lost fails k

namespace Strayed

theorem opened (h : W.Strayed c) (is : c.kind = .symbol .leftParen) :
    W.Astray [.call, .power, .term, .arithmetic, .chain, .logic] c := by
  intro k t
  obtain ⟨j, d, e, kind, next, place, lost, fails⟩ := h.factor (by rw [is]; decide)
    (by rw [is]; decide)
  -- behind the parenthesis, both readings begin with an expression
  have inner : (level j .expression >>= fun v => symbol .rightParen >>= fun _ =>
      onward j [.call, .power, .term, .arithmetic, .chain, .logic] v) c.advance = .failed e := by
    have unsigned : Grammar.factor (j + 1) (level j) d = power (j + 1) (level j) d :=
      factor_eq (by rw [kind, is]; decide) (by rw [kind, is]; decide)
    have atom_ := atom_opened (j + 1) (level j) (kind.trans is)
    rw [← fails, bind_congr_at _ unsigned]
    change _ = (((atom (j + 1) (level j) >>= Rung.call.loop j (j + 1)) >>=
      Rung.power.loop j (j + 1)) >>= onward j [.term, .arithmetic, .chain, .logic]) d
    rw [bind_assoc, bind_assoc, bind_congr_at _ atom_, bind_assoc]
    refine Eq.trans ?_ (bind_done rfl).symm
    simp only [bind_assoc, pure_bind, next]
    rfl
  change W.Lost _ ((callsFrom (k + 1) (level k) (k + 1) t >>=
    onward k [.power, .term, .arithmetic, .chain, .logic]) c)
  rw [bind_congr_at _ (callsFrom_turn is), bind_assoc]
  have calls (u : Tree) : (Rung.call.loop k k u >>=
      onward k [.power, .term, .arithmetic, .chain, .logic]).Forward W.tokens 0 := by
    intro d
    exact (Rung.call.loop_forward W.terminated k k u d).bind (onward_forward W.terminated k _)
  apply (items_lost h.poised.advance place lost inner k).bind
  · intro args d
    rw [bind_assoc]
    exact ForwardAt.markFrom.bind fun _ => calls _
  · intro args d astray
    rw [bind_assoc, bind_done (show markFrom _ d = .done _ d from rfl)]
    apply (astray.loop k k _).bind (onward_forward W.terminated k _)
    exact fun u d astray => astray k u

theorem astray (h : W.Strayed c) :
    W.Astray [.call, .power, .term, .arithmetic, .chain, .logic] c := by
  have start := h.starts
  have stops (r : Rung) (idle : ∀ x ∈ expressionStart, r.continues x = false) :
      r.continues c.kind = false := idle _ start
  have chain : W.Astray [.chain, .logic] c := by
    apply Astray.skip (stops .chain (by decide))
    apply Astray.skip (stops .logic (by decide))
    exact fun _ _ => .inr h
  have arithmetic : W.Astray [.arithmetic, .chain, .logic] c := by
    by_cases plus : c.kind = .symbol .plus
    · exact h.signed .plus rfl plus
    by_cases minus : c.kind = .symbol .minus
    · exact h.signed .minus rfl minus
    have idle : ∀ x ∈ expressionStart, x ≠ .symbol .plus → x ≠ .symbol .minus →
        Rung.arithmetic.continues x = false := by decide
    exact .skip (idle _ start plus minus) chain
  by_cases opens : c.kind = .symbol .leftParen
  · exact h.opened opens
  · apply Astray.skip (r := .call) (decide_eq_false opens)
    apply Astray.skip (stops .power (by decide))
    exact .skip (stops .term (by decide)) arithmetic

end Strayed

end Drift

end ScriptLang
