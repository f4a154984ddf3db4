import ScriptLang.Proofs.Layout.Grammar
import ScriptLang.Proofs.Sequence.Onward

/-! Tokens that end too early. An expression that is still open where the tokens end cannot be
read, and reading its first token in another way does not help: whatever is read from there on, as
arguments of a call or behind a sign, is still open at the end too. -/
namespace ScriptLang

open Grammar Rule

/-- `S` tells where the tokens end too early. A place is cut off if it is such a place, or if an
expression that begins there fails at a place that is cut off. -/
inductive CutOff (ts : List Token) (S : Nat → Prop) : Nat → Prop where
  | seam {i : Nat} (h : S i) : CutOff ts S i
  | within {k : Nat} {c : Cursor} {e : Failure} (place : c.At ts)
    (fails : level k .expression c = .failed e) (later : e.index ≠ c.index)
    (cut : CutOff ts S e.index) : CutOff ts S c.index

structure Failure.CutOff (ts : List Token) (S : Nat → Prop) (e : Failure) : Prop where
  place : e.At ts
  cut : ScriptLang.CutOff ts S e.index

structure Cursor.Halted (ts : List Token) (S : Nat → Prop) (c : Cursor) : Prop where
  place : c.At ts
  cut : ScriptLang.CutOff ts S c.index
  deeper : ∀ e ∈ c.abandoned, c.index < e.index → ScriptLang.CutOff ts S e.index

structure Cursor.CutOff (ts : List Token) (S : Nat → Prop) (c : Cursor) : Prop
    extends c.Halted ts S where
  inner : ¬ S c.index

/-- The reading ends at a cursor of `D` at best, and fails at a place that is cut off if it
fails. -/
def Outcome.Lost {α : Type} (ts : List Token) (S : Nat → Prop) (D : Cursor → Prop) :
    Outcome α → Prop
  | .done _ c => D c
  | .failed e => e.CutOff ts S
  | .spent => True

/-- Whatever the loops of these rungs read from the cursor on is lost. -/
def Cursor.Astray (ts : List Token) (S : Nat → Prop) (rs : List Rung) (c : Cursor) : Prop :=
  ∀ k t, (onward k rs t c).Lost ts S (Cursor.CutOff ts S)

section Lost

variable {α β : Type} {ts : List Token} {S : Nat → Prop} {D E : Cursor → Prop}

theorem Outcome.Lost.bind {p : Rule α} {f : α → Rule β} {c : Cursor} (h : (p c).Lost ts S D)
    (hf : ∀ a c', D c' → (f a c').Lost ts S E) : ((p >>= f) c).Lost ts S E := by
  change (Rule.bind p f c).Lost ts S E
  unfold Rule.bind
  generalize p c = o at h ⊢
  cases o with
  | done a c' => exact hf a c' h
  | failed e => exact h
  | spent => trivial

theorem Outcome.Lost.mono {o : Outcome α} (h : o.Lost ts S D) (weaker : ∀ c, D c → E c) :
    o.Lost ts S E := by
  cases o with
  | done a c => exact weaker c h
  | failed e => exact h
  | spent => trivial

theorem Outcome.Lost.of_ending {o : Outcome α} {o' : Outcome β}
    (same : o.ending = none ∨ o.ending = o'.ending) (h : o'.Lost ts S D) : o.Lost ts S D := by
  cases o with
  | spent => trivial
  | failed e =>
    cases o' with
    | failed e' =>
      obtain rfl : e = e' := by simpa [Outcome.ending] using same
      exact h
    | _ => simp [Outcome.ending] at same
  | done a c =>
    cases o' with
    | done b c' =>
      obtain rfl : c = c' := by simpa [Outcome.ending] using same
      exact h
    | _ => simp [Outcome.ending] at same

theorem Cursor.Astray.cut {c : Cursor} (h : c.Astray ts S []) : c.CutOff ts S :=
  h 0 (.breaks c.mark)

theorem Cursor.Astray.skip {r : Rung} {rs : List Rung} {c : Cursor}
    (stop : r.continues c.kind = false) (h : c.Astray ts S rs) : c.Astray ts S (r :: rs) := by
  intro k t
  rw [onward_skip stop]
  exact h k t

theorem Cursor.Astray.loop {r : Rung} {rs : List Rung} {c : Cursor}
    (h : c.Astray ts S (r :: rs)) (k n : Nat) (t : Tree) :
    (r.loop k n t c).Lost ts S (Cursor.Astray ts S rs) := by
  -- with more steps than either has, the loop does the same and the others go on behind it
  have whole (j : Nat) : ((r.loop k n t >>= onward j rs) c).Lost ts S (Cursor.CutOff ts S) := by
    refine .of_ending ?_ (h (max (max k n) j) t)
    refine (r.loop_within (by omega) (by omega) t t).bind (fun _ _ => ?_) c
    exact onward_within (by omega) rs _ _
  cases read : r.loop k n t c with
  | spent => trivial
  | failed e =>
    have := whole 0
    rwa [bind_failed read] at this
  | done u c' =>
    intro j v
    have := whole j
    rw [bind_done read] at this
    exact .of_ending (onward_within (Nat.le_refl j) rs v u c') this

theorem operandsFrom_done {ops : List BinaryOp} {right : Rule Tree} {n : Nat} {t u : Tree}
    {c c' : Cursor} (h : operandsFrom ops right n t c = .done u c') :
    ops.find? (·.kind = c'.kind) = none := by
  induction n generalizing t c with
  | zero => cases h
  | succ n ih =>
    cases found : ops.find? (·.kind = c.kind) with
    | none => rw [operandsFrom_stop found] at h; cases h; exact found
    | some op =>
      rw [operandsFrom_turn found] at h
      cases read : right c.advance with
      | done v d => rw [bind_done read] at h; exact ih h
      | failed e => rw [bind_failed read] at h; cases h
      | spent => rw [bind_spent read] at h; cases h

theorem Cursor.Astray.powers {rs : List Rung} {c : Cursor} (h : c.Astray ts S (.power :: rs))
    (k n : Nat) (t : Tree) : (Rung.power.loop k n t c).Lost ts S fun c' =>
      c'.Astray ts S (.power :: rs) ∧ c'.Astray ts S rs := by
  have lost := h.loop k n t
  cases read : Rung.power.loop k n t c with
  | spent => trivial
  | failed e => rw [read] at lost; exact lost
  | done u c' =>
    rw [read] at lost
    have stop : Rung.power.continues c'.kind = false := by
      simp only [Rung.continues, operandsFrom_done read, Option.isSome_none]
    exact ⟨.skip stop lost, lost⟩

end Lost

structure EndMarked (ts : List Token) (S : Nat → Prop) : Prop where
  ascending : Token.Ascending ts
  mark : ∀ {i : Nat} {t : Token}, S i → ts[i]? = some t → t.content = .eof
  last : ∀ {i : Nat}, S i → i + 1 = ts.length

section Reading

variable {ts : List Token} {S : Nat → Prop}

theorem CutOff.starts {i : Nat} (h : CutOff ts S i) (inner : ¬ S i) {t : Token}
    (found : ts[i]? = some t) : t.kind ∈ expressionStart := by
  cases h with
  | seam end_ => exact absurd end_ inner
  | @within k c e place fails later cut =>
    obtain rfl : c.current = t := Option.some.inj (place.current.symm.trans found)
    refine Decidable.byContradiction fun out => ?_
    cases k with
    | zero => cases fails
    | succ k =>
      rw [level_refused out] at fails
      cases fails
      exact later rfl

theorem Cursor.CutOff.starts {c : Cursor} (h : c.CutOff ts S) : c.kind ∈ expressionStart :=
  h.cut.starts h.inner h.place.current

theorem EndMarked.not_cutOff (ends : EndMarked ts S) {i : Nat} {t : Token} {x : Token.Kind}
    (found : ts[i]? = some t) (is : t.kind = x) (out : x ∉ expressionStart) (other : x ≠ .eof) :
    ¬ CutOff ts S i := by
  subst is
  intro cut
  by_cases end_ : S i
  · exact other (congrArg Token.Content.kind (ends.mark end_ found))
  · exact out (cut.starts end_ found)

theorem EndMarked.failure_at (ends : EndMarked ts S) {k : Nat} {l : Level} {c : Cursor}
    {e : Failure} (place : c.At ts) (fails : level k l c = .failed e) : e.At ts := by
  have same := level_alike ⟨rfl, ends.ascending, ends.ascending⟩ k l c c ⟨place, place, rfl, rfl⟩
  rw [fails] at same
  cases same with
  | failed failure => exact failure.left

theorem Cursor.At.advance_eq {c d : Cursor} (hc : c.At ts) (hd : d.At ts)
    (index : c.index = d.index) : c.advance = d.advance := by
  have current : c.current = d.current :=
    Option.some.inj (hc.current.symm.trans (index ▸ hd.current))
  have ahead : c.ahead = d.ahead := hc.ahead.symm.trans (index ▸ hd.ahead)
  unfold Cursor.advance
  rw [ahead, current, index]

/-- Unless it begins with an assignment or a negation, an expression that is cut off is a factor
and what is read behind it. -/
theorem Cursor.CutOff.reading (ends : EndMarked ts S) {c : Cursor} (h : c.CutOff ts S)
    (assigns : c.kind ≠ .keyword .VAR) (negates : c.kind ≠ .keyword .NOT) :
    ∃ k d e, d.At ts ∧ d.kind = c.kind ∧ d.advance = c.advance ∧ e.CutOff ts S ∧
      (factor (k + 1) (level k) >>= onward k [.term, .arithmetic, .chain, .logic]) d =
        .failed e := by
  have inner := h.inner
  have place := h.place
  have cut := h.cut
  generalize index : c.index = i at inner cut
  cases cut with
  | seam end_ => exact absurd end_ inner
  | @within k d e at_ fails later cut =>
    have current : d.current = c.current :=
      Option.some.inj (at_.current.symm.trans (index ▸ place.current))
    have kind : d.kind = c.kind := congrArg Token.kind current
    have e_at : e.At ts := ends.failure_at at_ fails
    cases k with
    | zero => cases fails
    | succ k =>
      rw [level_expression (kind ▸ assigns) (kind ▸ negates)] at fails
      refine ⟨k, d, e, at_, kind, at_.advance_eq place index.symm, ⟨e_at, cut⟩, ?_⟩
      exact describing_failed fails later

theorem Outcome.Lost.level {j k : Nat} {l : Level} {c : Cursor} {o : Outcome Tree}
    {D : Cursor → Prop} (read : level j l c = o) (enough : o ≠ .spent) (h : o.Lost ts S D) :
    (level k l c).Lost ts S D := by
  subst read
  have left := (level_le (Nat.le_max_left j k) l c).resolve_left enough
  rcases level_le (Nat.le_max_right j k) l c with out | right
  · rw [out]; trivial
  · rw [right, ← left]; exact h

theorem Cursor.Astray.of_failed {j : Nat} {rs : List Rung} {c : Cursor} {t : Tree} {e : Failure}
    (fails : onward j rs t c = .failed e) (cut : e.CutOff ts S) : c.Astray ts S rs := by
  intro k u
  have left := onward_within (Nat.le_max_left j k) rs t u c
  have right := onward_within (Nat.le_max_right j k) rs u u c
  rw [fails] at left
  have lost : (Outcome.failed e : Outcome Tree).Lost ts S (Cursor.CutOff ts S) := cut
  exact .of_ending right (lost.of_ending (.inr (left.resolve_left nofun).symm))

theorem Outcome.Lost.described {α : Type} {D : Cursor → Prop} {p : Rule α} {c : Cursor}
    (place : c.At ts) (h : (p c).Lost ts S D) (expected : List Token.Kind) :
    (describing p expected c).Lost ts S D := by
  unfold Rule.describing
  generalize p c = o at h ⊢
  cases o with
  | done a c' => exact h
  | spent => trivial
  | failed e =>
    dsimp only
    split
    · next first => exact ⟨place.current, show CutOff ts S c.index from first ▸ h.cut⟩
    · exact h

theorem Cursor.CutOff.signed (ends : EndMarked ts S) {c : Cursor} (h : c.CutOff ts S)
    (sign : UnaryOp) (rung : sign.rung = .factor) (is : c.kind = sign.content.kind) :
    c.Astray ts S [.arithmetic, .chain, .logic] := by
  intro k t
  have other : c.kind ≠ .keyword .VAR ∧ c.kind ≠ .keyword .NOT := by
    rw [is]
    cases sign with
    | not => cases rung
    | plus => decide
    | minus => decide
  obtain ⟨op, found⟩ : ∃ op, Rung.arithmetic.ops.find? (·.kind = c.kind) = some op := by
    rw [is]
    cases sign with
    | not => cases rung
    | plus => exact ⟨.add, by decide⟩
    | minus => exact ⟨.sub, by decide⟩
  obtain ⟨j, d, e, place, kind, next, cut, fails⟩ := h.reading ends other.1 other.2
  -- behind the sign, both readings begin with a factor
  have operand : (level j .factor >>= fun v => onward j [.term, .arithmetic, .chain, .logic]
      (.unary sign v (d.mark.through v.note))) c.advance = .failed e := by
    rw [← next, ← fails, bind_congr_at _ (factor_signed sign rung (kind.trans is)), bind_assoc]
    refine ((bind_done rfl).trans ?_).symm
    rw [bind_assoc]
    rfl
  have factor_ : (factor (k + 1) (level k) c.advance).Lost ts S
      (Cursor.Astray ts S [.term, .arithmetic, .chain, .logic]) := by
    change (level (k + 1) .factor c.advance).Lost ts S _
    cases read : level j .factor c.advance with
    | spent => rw [bind_spent read] at operand; cases operand
    | failed e' =>
      rw [bind_failed read] at operand
      cases operand
      exact .level read nofun cut
    | done v c' =>
      rw [bind_done read] at operand
      exact .level read nofun (.of_failed operand cut)
  change ((operandsFrom Rung.arithmetic.ops (term (k + 1) (level k)) (k + 1) t >>=
    onward k [.chain, .logic]) c).Lost ts S _
  rw [bind_congr_at _ (operandsFrom_turn found), bind_assoc]
  have term_ : (term (k + 1) (level k) c.advance).Lost ts S
      (Cursor.Astray ts S [.arithmetic, .chain, .logic]) :=
    factor_.bind fun v c' astray => astray.loop k (k + 1) v
  exact term_.bind fun v c' astray => (astray.loop k k _).bind fun u c' astray => astray k u

theorem atom_opened (fuel : Nat) (self : Level → Rule Tree) {c : Cursor}
    (is : c.kind = .symbol .leftParen) : atom fuel self c = (do
      let _ ← advance
      let inner ← self .expression
      let _ ← symbol .rightParen
      return inner : Rule Tree) c := by
  refine (fromHere_eq _).trans (congrFun ?_ c)
  rw [Token.Content.eq_symbol is]

theorem items_eq {fuel : Nat} {self : Level → Rule Tree} {close : Symbol} {c : Cursor}
    (other : c.kind ≠ .symbol close) : items fuel self close c = (do
      let first ← describing (self .expression) (.symbol close :: expressionStart)
      let rest ← moreExpressions self fuel
      let _ ← expect (.symbol close) [.symbol .comma, .symbol close]
      return first :: rest : Rule (List Tree)) c :=
  bind_done (accept_neg other)

theorem moreExpressions_stop {n : Nat} {self : Level → Rule Tree} {c : Cursor}
    (other : c.kind ≠ .symbol .comma) : moreExpressions self (n + 1) c = .done [] c :=
  bind_done (accept_neg other)

theorem callsFrom_turn {fuel n : Nat} {self : Level → Rule Tree} {t : Tree} {c : Cursor}
    (is : c.kind = .symbol .leftParen) : callsFrom fuel self (n + 1) t c = (do
      let args ← items fuel self .rightParen
      callsFrom fuel self n (.call t args (← markFrom t.note)) : Rule Tree) c.advance := by
  rw [callsFrom]
  exact bind_done (accept_pos is)

theorem items_lost (ends : EndMarked ts S) {c : Cursor} (place : c.At ts) {j : Nat}
    {rs : List Rung} {e : Failure} (cut : e.CutOff ts S)
    (fails : (level j .expression >>= fun v => symbol .rightParen >>= fun _ => onward j rs v) c =
      .failed e) (k : Nat) :
    (items (k + 1) (level k) .rightParen c).Lost ts S (Cursor.Astray ts S rs) := by
  have open_ : c.kind ≠ .symbol .rightParen := by
    intro closes
    have out : c.kind ∉ expressionStart := by rw [closes]; decide
    cases j with
    | zero => cases fails
    | succ j =>
      rw [bind_failed (level_refused out)] at fails
      cases fails
      exact ends.not_cutOff place.current closes (by decide) (by decide) cut.cut
  rw [items_eq open_]
  cases read : level j .expression c with
  | spent => rw [bind_spent read] at fails; cases fails
  | failed e' =>
    rw [bind_failed read] at fails
    cases fails
    have first : (level k .expression c).Lost ts S fun _ => False := .level read nofun cut
    exact (first.described place _).bind fun _ _ never => never.elim
  | done v c' =>
    rw [bind_done read] at fails
    have first : (level k .expression c).Lost ts S fun d => d = c' := .level read nofun rfl
    refine (first.described place _).bind ?_
    rintro u c' rfl
    by_cases closes : c'.kind = .symbol .rightParen
    · rw [bind_done (show symbol .rightParen c' = _ from if_pos closes)] at fails
      rw [bind_done (moreExpressions_stop (by rw [closes]; decide))]
      rw [bind_done (show expect _ _ c' = _ from if_pos closes)]
      exact Cursor.Astray.of_failed fails cut
    · rw [bind_failed (show symbol .rightParen c' = _ from if_neg closes)] at fails
      cases fails
      have comma : c'.kind ≠ .symbol .comma := fun comma =>
        ends.not_cutOff cut.place comma (by decide) (by decide) cut.cut
      rw [bind_done (moreExpressions_stop comma)]
      rw [bind_failed (show expect _ _ c' = _ from if_neg closes)]
      exact ⟨cut.place, cut.cut⟩

theorem Cursor.CutOff.opened (ends : EndMarked ts S) {c : Cursor} (h : c.CutOff ts S)
    (is : c.kind = .symbol .leftParen) :
    c.Astray ts S [.call, .power, .term, .arithmetic, .chain, .logic] := by
  intro k t
  obtain ⟨j, d, e, -, kind, next, cut, fails⟩ := h.reading ends (by rw [is]; decide)
    (by rw [is]; decide)
  -- behind the parenthesis, both readings begin with an expression
  have inner : (level j .expression >>= fun v => symbol .rightParen >>= fun _ =>
      onward j [.call, .power, .term, .arithmetic, .chain, .logic] v) c.advance = .failed e := by
    have unsigned : factor (j + 1) (level j) d = power (j + 1) (level j) d :=
      factor_eq (by rw [kind, is]; decide) (by rw [kind, is]; decide)
    have atom_ := atom_opened (j + 1) (level j) (kind.trans is)
    rw [← fails, bind_congr_at _ unsigned]
    change _ = (((atom (j + 1) (level j) >>= Rung.call.loop j (j + 1)) >>=
      Rung.power.loop j (j + 1)) >>= onward j [.term, .arithmetic, .chain, .logic]) d
    rw [bind_assoc, bind_assoc, bind_congr_at _ atom_, bind_assoc]
    refine Eq.trans ?_ (bind_done rfl).symm
    simp only [bind_assoc, pure_bind, next]
    rfl
  change ((callsFrom (k + 1) (level k) (k + 1) t >>=
    onward k [.power, .term, .arithmetic, .chain, .logic]) c).Lost ts S _
  rw [bind_congr_at _ (callsFrom_turn is), bind_assoc]
  refine (items_lost ends h.place.advance cut inner k).bind fun args c' astray => ?_
  rw [bind_assoc, bind_done (show markFrom _ c' = .done _ c' from rfl)]
  exact (astray.loop k k _).bind fun u c' astray => astray k u

/-- Whatever loops go on at an expression that is cut off, they read into it. -/
theorem Cursor.CutOff.astray (ends : EndMarked ts S) {c : Cursor} (h : c.CutOff ts S) :
    c.Astray ts S [.call, .power, .term, .arithmetic, .chain, .logic] := by
  have start := h.starts
  have stops (r : Rung) (idle : ∀ x ∈ expressionStart, r.continues x = false) :
      r.continues c.kind = false := idle _ start
  have chain : c.Astray ts S [.chain, .logic] := by
    refine .skip (stops .chain (by decide)) (.skip (stops .logic (by decide)) ?_)
    exact fun _ _ => h
  have arithmetic : c.Astray ts S [.arithmetic, .chain, .logic] := by
    by_cases plus : c.kind = .symbol .plus
    · exact h.signed ends .plus rfl plus
    by_cases minus : c.kind = .symbol .minus
    · exact h.signed ends .minus rfl minus
    refine .skip ?_ chain
    have idle : ∀ x ∈ expressionStart, x ≠ .symbol .plus → x ≠ .symbol .minus →
        Rung.arithmetic.continues x = false := by decide
    exact idle _ start plus minus
  by_cases opens : c.kind = .symbol .leftParen
  · exact h.opened ends opens
  · refine .skip (decide_eq_false opens) (.skip (stops .power (by decide)) ?_)
    exact .skip (stops .term (by decide)) arithmetic

end Reading

section Halted

variable {ts : List Token} {S : Nat → Prop} {D : Cursor → Prop} {c : Cursor} {α β : Type}

theorem Cursor.CutOff.of_failed {k : Nat} {e : Failure} (place : c.At ts) (inner : ¬ S c.index)
    (fails : e.index ≠ c.index → level k .expression c = .failed e) (cut : e.CutOff ts S) :
    Cursor.CutOff ts S { c with abandoned := some e } where
  place := ⟨place.current, place.ahead, by simpa using cut.place⟩
  cut := by
    by_cases first : e.index = c.index
    · exact first ▸ cut.cut
    · exact ScriptLang.CutOff.within (c := c) place (fails first) first cut.cut
  deeper := by
    rintro f ⟨⟩ _
    exact cut.cut
  inner := inner

theorem Cursor.Halted.of_ended (ends : EndMarked ts S) (place : c.At ts) (ended : S c.index) :
    c.Halted ts S where
  place := place
  cut := .seam ended
  deeper e mem further := by
    have inside := (List.getElem?_eq_some_iff.1 (place.abandoned e mem)).1
    have last := ends.last ended
    omega

theorem Cursor.Halted.other (ends : EndMarked ts S) (h : c.Halted ts S) {x : Token.Kind}
    (out : x ∉ .eof :: expressionStart) : c.kind ≠ x := by
  rintro rfl
  rw [List.mem_cons, not_or] at out
  exact ends.not_cutOff h.place.current rfl out.2 out.1 h.cut

theorem Cursor.Halted.failure (h : c.Halted ts S) (expected : List Token.Kind) :
    (c.failure expected).CutOff ts S :=
  ⟨h.place.current, h.cut⟩

theorem Cursor.Halted.lost_expect (ends : EndMarked ts S) (h : c.Halted ts S) {x : Token.Kind}
    (out : x ∉ .eof :: expressionStart) (expected : List Token.Kind) (f : Token → Rule β) :
    ((expect x expected >>= f) c).Lost ts S D := by
  rw [bind_failed (show expect x expected c = _ from if_neg (h.other ends out))]
  exact h.failure expected

theorem Cursor.Halted.lost_accept (ends : EndMarked ts S) (h : c.Halted ts S) {x : Token.Kind}
    (out : x ∉ .eof :: expressionStart) {p p' : Rule β} (no : (p' c).Lost ts S D) :
    ((do if ← accept x then p else p' : Rule β) c).Lost ts S D := by
  rw [bind_done (accept_neg (h.other ends out))]
  exact no

theorem Cursor.Halted.lost_unexpected (ends : EndMarked ts S) (h : c.Halted ts S)
    (expecting : Bool) (terminators : List Token.Kind) :
    ((unexpectedInSequence expecting terminators : Rule β) c).Lost ts S D := by
  unfold unexpectedInSequence
  rw [fromHere_eq]
  cases deeper : c.deeper with
  | none => exact h.failure _
  | some e =>
    rw [h.place.deeper_eq ends.ascending, Option.filter_eq_some_iff] at deeper
    exact ⟨h.place.abandoned e deeper.1, h.deeper e deeper.1 (of_decide_eq_true deeper.2)⟩

theorem statement_ended (ends : EndMarked ts S) (place : c.At ts) (ended : S c.index) (k : Nat) :
    (statement (level k) c).Lost ts S D := by
  have eof : c.kind = .eof := congrArg Token.Content.kind (ends.mark ended place.current)
  cases k with
  | zero =>
    rw [statement_eq (by rw [eof]; decide)]
    trivial
  | succ k =>
    rw [statement_refused (by rw [eof]; decide)]
    exact ⟨place.current, .seam ended⟩

theorem Cursor.Halted.lost_newlines (ends : EndMarked ts S) (h : c.Halted ts S) (n : Nat)
    {f : Bool → Rule β} (no : (f false c).Lost ts S D) :
    ((newlines n >>= f) c).Lost ts S D := by
  cases n with
  | zero => trivial
  | succ n =>
    have stop : newlines (n + 1) c = .done false c :=
      bind_done (accept_neg (h.other ends (by decide)))
    rw [bind_done stop]
    exact no

theorem Cursor.Halted.lost_moreExpressions (ends : EndMarked ts S) (h : c.Halted ts S) {n : Nat}
    {self : Level → Rule Tree} {f : List Tree → Rule β} (no : (f [] c).Lost ts S D) :
    ((moreExpressions self n >>= f) c).Lost ts S D := by
  cases n with
  | zero => trivial
  | succ n =>
    rw [bind_done (moreExpressions_stop (h.other ends (by decide)))]
    exact no

theorem statementsFrom_ended (ends : EndMarked ts S) (place : c.At ts) (ended : S c.index)
    (fuel k n : Nat) : (statementsFrom fuel (level k) n c).Lost ts S (Cursor.Halted ts S) := by
  cases n with
  | zero => trivial
  | succ n =>
    have lost : (statement (level k) c).Lost ts S fun _ => False :=
      statement_ended ends place ended k
    rw [statementsFrom]
    cases read : statement (level k) c with
    | done a c' => rw [read] at lost; exact lost.elim
    | spent => rw [bind_spent (attempt_spent read)]; trivial
    | failed e =>
      rw [read] at lost
      rw [bind_done (attempt_failed read)]
      exact .of_ended ends ⟨place.current, place.ahead, by simpa using lost.place⟩ ended

end Halted

end ScriptLang
