import ScriptLang.Proofs.Print.Ladder
import ScriptLang.Proofs.Sequence.Steps

/-! Reading on behind an operand. An expression is a first factor and what the loops of the rungs
make of it, one after the other. How such a reading ends depends on the cursor, not on what was
read before, nor, as long as they suffice, on the number of steps. -/
namespace ScriptLang

open Grammar Rule

def Outcome.ending {α : Type} : Outcome α → Option (Except Failure Cursor)
  | .done _ c => some (.ok c)
  | .failed e => some (.error e)
  | .spent => none

/-- `p` ends as `q` does, unless it runs out of steps. -/
def Rule.Within {α β : Type} (p : Rule α) (q : Rule β) : Prop :=
  ∀ c, (p c).ending = none ∨ (p c).ending = (q c).ending

instance : LawfulMonad Rule := LawfulMonad.mk' Rule
  (fun p => by
    funext c
    change Rule.bind p _ c = p c
    unfold Rule.bind
    cases p c <;> rfl)
  (fun _ _ => rfl)
  (fun p f g => by
    funext c
    change Rule.bind (Rule.bind p f) g c = Rule.bind p (fun a => Rule.bind (f a) g) c
    unfold Rule.bind
    cases p c <;> rfl)

namespace Rule

variable {α β γ δ : Type}

theorem bind_failed {p : Rule α} {f : α → Rule β} {c : Cursor} {e : Failure}
    (h : p c = .failed e) : (p >>= f) c = .failed e := by
  change Rule.bind p f c = _
  unfold Rule.bind
  rw [h]

theorem bind_spent {p : Rule α} {f : α → Rule β} {c : Cursor} (h : p c = .spent) :
    (p >>= f) c = .spent := by
  change Rule.bind p f c = _
  unfold Rule.bind
  rw [h]

theorem accept_pos {c : Cursor} {x : Token.Kind} (h : c.kind = x) :
    accept x c = .done true c.advance :=
  if_pos h

theorem accept_neg {c : Cursor} {x : Token.Kind} (h : c.kind ≠ x) : accept x c = .done false c :=
  if_neg h

theorem attempt_failed {p : Rule α} {c : Cursor} {e : Failure} (h : p c = .failed e) :
    attempt p c = .done none { c with abandoned := some e } := by
  unfold attempt
  rw [h]

theorem attempt_spent {p : Rule α} {c : Cursor} (h : p c = .spent) : attempt p c = .spent := by
  unfold attempt
  rw [h]

theorem attempt_ne_failed (p : Rule α) (c : Cursor) (e : Failure) : attempt p c ≠ .failed e := by
  unfold attempt
  cases p c <;> exact nofun

theorem describing_failed {p : Rule α} {expected : List Token.Kind} {c : Cursor} {e : Failure}
    (h : describing p expected c = .failed e) (further : e.index ≠ c.index) :
    p c = .failed e := by
  unfold describing at h
  cases read : p c with
  | failed f =>
    rw [read] at h
    dsimp only at h
    split at h
    · cases h; exact absurd rfl further
    · exact h
  | _ => rw [read] at h; cases h

theorem bind_congr_at {p q : Rule α} (f : α → Rule β) {c d : Cursor} (h : p c = q d) :
    (p >>= f) c = (q >>= f) d := by
  change Rule.bind p f c = Rule.bind q f d
  unfold Rule.bind
  rw [h]

theorem Le.within {p q : Rule α} (h : p.Le q) : p.Within q := by
  intro c
  rcases h c with out | same
  · rw [out]; exact .inl rfl
  · rw [same]; exact .inr rfl

theorem Within.bind {p : Rule α} {q : Rule β} {f : α → Rule γ} {g : β → Rule δ}
    (hp : p.Within q) (hf : ∀ a b, (f a).Within (g b)) : (p >>= f).Within (q >>= g) := by
  intro c
  change (Rule.bind p f c).ending = none ∨ (Rule.bind p f c).ending = (Rule.bind q g c).ending
  unfold Rule.bind
  have same := hp c
  cases left : p c with
  | spent => exact .inl rfl
  | failed e =>
    rw [left] at same
    cases right : q c with
    | failed e' => rw [right] at same; exact .inr (by simpa [Outcome.ending] using same)
    | _ => rw [right] at same; simp [Outcome.ending] at same
  | done a c₁ =>
    rw [left] at same
    cases right : q c with
    | done b c₂ =>
      rw [right] at same
      obtain rfl : c₁ = c₂ := by simpa [Outcome.ending] using same
      exact hf a b c₁
    | _ => rw [right] at same; simp [Outcome.ending] at same

end Rule

section Loops

variable {k k' : Nat}

theorem operandsFrom_turn {ops : List BinaryOp} {op : BinaryOp} {right : Rule Tree} {n : Nat}
    {t : Tree} {c : Cursor} (found : ops.find? (·.kind = c.kind) = some op) :
    operandsFrom ops right (n + 1) t c = (right >>= fun u =>
      operandsFrom ops right n (.binary op t u (t.note.through u.note))) c.advance := by
  rw [operandsFrom, bind_done (show here c = .done c c from rfl), found]
  exact bind_done rfl

theorem operandsFrom_within {ops : List BinaryOp} {right right' : Rule Tree}
    (hright : right.Within right') {n n' : Nat} (less : n ≤ n') (t t' : Tree) :
    (operandsFrom ops right n t).Within (operandsFrom ops right' n' t') := by
  induction n generalizing n' t t' with
  | zero => exact fun _ => .inl rfl
  | succ n ih =>
    obtain ⟨n', rfl⟩ := Nat.exists_eq_add_one_of_ne_zero (Nat.ne_zero_of_lt less)
    intro c
    cases found : ops.find? (·.kind = c.kind) with
    | none =>
      rw [operandsFrom_stop found, operandsFrom_stop found]
      exact .inr rfl
    | some op =>
      unfold operandsFrom
      have here_ : here c = .done c c := rfl
      rw [bind_done here_, bind_done here_, found]
      exact (Le.refl _).within.bind (fun _ _ => hright.bind fun _ _ => ih (by omega) _ _) c

theorem callsFrom_within (le : k ≤ k') {n n' : Nat} (less : n ≤ n') (t t' : Tree) :
    (callsFrom (k + 1) (level k) n t).Within (callsFrom (k' + 1) (level k') n' t') := by
  induction n generalizing n' t t' with
  | zero => exact fun _ => .inl rfl
  | succ n ih =>
    obtain ⟨n', rfl⟩ := Nat.exists_eq_add_one_of_ne_zero (Nat.ne_zero_of_lt less)
    intro c
    by_cases more : c.kind = .symbol .leftParen
    · unfold callsFrom
      rw [bind_done (accept_pos more), bind_done (accept_pos more)]
      refine (items_le (level_le le) (by omega) _).within.bind (fun _ _ => ?_) c.advance
      exact Within.bind (fun _ => .inr rfl) fun _ _ => ih (by omega) _ _
    · rw [callsFrom_stop more, callsFrom_stop more]
      exact .inr rfl

end Loops

namespace Rung

variable {k k' : Nat}

theorem rule_le (le : k ≤ k') (r : Rung) :
    (r.rule (k + 1) (level k)).Le (r.rule (k' + 1) (level k')) := by
  have self := level_le le
  have more : k + 1 ≤ k' + 1 := by omega
  have call : (Grammar.call (k + 1) (level k)).Le (Grammar.call (k' + 1) (level k')) :=
    (atom_le self more).bind fun _ => callsFrom_le self more more _
  cases r with
  | expression => exact expression_le self more
  | logic => exact operands_le more (comparison_le self more) _ (comparison_le self more)
  | comparison => exact comparison_le self more
  | chain => exact operands_le more (arithmetic_le self more) _ (arithmetic_le self more)
  | arithmetic => exact arithmetic_le self more
  | term => exact operands_le more (factor_le self more) _ (factor_le self more)
  | factor => exact factor_le self more
  | power => exact operands_le more call _ (self .factor)
  | call => exact call
  | atom => exact atom_le self more

def loop (k : Nat) : Rung → Nat → Tree → Rule Tree
  | call => callsFrom (k + 1) (level k)
  | power => operandsFrom power.ops (level k .factor)
  | r => operandsFrom r.ops (r.next.rule (k + 1) (level k))

def continues : Rung → Token.Kind → Bool
  | call, x => x = .symbol .leftParen
  | r, x => (r.ops.find? (·.kind = x)).isSome

theorem loop_within (le : k ≤ k') (r : Rung) {n n' : Nat} (less : n ≤ n') (t t' : Tree) :
    (r.loop k n t).Within (r.loop k' n' t') := by
  cases r with
  | call => exact callsFrom_within le less t t'
  | power => exact operandsFrom_within (level_le le _).within less t t'
  | _ => exact operandsFrom_within (rule_le le _).within less t t'

theorem loop_stop {r : Rung} {c : Cursor} (h : r.continues c.kind = false) (n : Nat) (t : Tree) :
    r.loop k (n + 1) t c = .done t c := by
  cases r with
  | call => exact callsFrom_stop (of_decide_eq_false h)
  | _ =>
    rw [loop]
    · exact operandsFrom_stop (by simpa [continues] using h)
    all_goals exact nofun

end Rung

/-- What is read behind a tree by the loops of some rungs, one after the other. -/
def onward (k : Nat) : List Rung → Tree → Rule Tree
  | [], t => pure t
  | r :: rs, t => r.loop k (k + 1) t >>= onward k rs

section Onward

variable {k k' : Nat}

theorem onward_within (le : k ≤ k') (rs : List Rung) (t t' : Tree) :
    (onward k rs t).Within (onward k' rs t') := by
  induction rs generalizing t t' with
  | nil => exact fun _ => .inr rfl
  | cons r rs ih => exact (r.loop_within le (by omega) t t').bind fun _ _ => ih _ _

theorem onward_skip {r : Rung} {c : Cursor} (h : r.continues c.kind = false) (rs : List Rung)
    (t : Tree) : onward k (r :: rs) t c = onward k rs t c :=
  bind_done (r.loop_stop h k t)

end Onward

section Openings

variable {k fuel : Nat} {self : Level → Rule Tree} {c : Cursor}

theorem fromHere_eq {α : Type} (f : Cursor → Rule α) : (here >>= f) c = f c c := bind_done rfl

theorem expression_eq (assigns : c.kind ≠ .keyword .VAR) : expression fuel self c =
    describing (Rung.logic.rule fuel self) expressionStart c := by
  refine (fromHere_eq _).trans (congrFun ?_ c)
  split
  · next eq => exact absurd eq assigns
  · rfl

theorem comparison_eq (negates : c.kind ≠ .keyword .NOT) :
    comparison fuel self c = Rung.chain.rule fuel self c := by
  refine (fromHere_eq _).trans (congrFun ?_ c)
  split
  · next eq => exact absurd eq negates
  · rfl

theorem factor_eq (plus : c.kind ≠ .symbol .plus) (minus : c.kind ≠ .symbol .minus) :
    factor fuel self c = power fuel self c := by
  refine (fromHere_eq _).trans (congrFun ?_ c)
  split
  · next eq => exact absurd eq plus
  · next eq => exact absurd eq minus
  · rfl

theorem factor_signed (op : UnaryOp) (signed : op.rung = .factor) (h : c.kind = op.content.kind) :
    factor fuel self c = (do
      let _ ← advance
      let operand ← self .factor
      return .unary op operand (c.mark.through operand.note) : Rule Tree) c := by
  refine (fromHere_eq _).trans (congrFun ?_ c)
  rw [h]
  cases op with
  | not => cases signed
  | plus => rfl
  | minus => rfl

theorem statement_eq (out : c.kind ∉ [.keyword .RETURN, .keyword .CONTINUE, .keyword .BREAK]) :
    statement self c = describing (self .expression) statementStart c := by
  refine (fromHere_eq _).trans (congrFun ?_ c)
  split
  · next eq => exact absurd (by simp [eq]) out
  · next eq => exact absurd (by simp [eq]) out
  · next eq => exact absurd (by simp [eq]) out
  · rfl

theorem Rung.rule_refused (out : c.kind ∉ expressionStart) {r : Rung} (inner : r ≠ .expression) :
    r.rule fuel self c = .failed (c.failure atomStart) := by
  have other {k : Token.Kind} (start : k ∈ expressionStart) : c.kind ≠ k := by
    rintro rfl
    exact out start
  refine Rung.ladder (q := .atom) (P := fun r => r ≠ .expression →
    r.rule fuel self c = .failed (c.failure atomStart)) ?_ ?_ (by cases r <;> decide) inner
  · intro _
    change _ = (unexpected atomStart : Rule Tree) c
    refine (fromHere_eq _).trans (congrFun ?_ c)
    split
    case h_11 => rfl
    all_goals
      rename_i is
      refine absurd (Cursor.kind_of_content is) (other ?_)
      simp [Token.Content.kind, expressionStart]
  · intro r _ next inner
    cases r with
    | expression => exact absurd rfl inner
    | comparison => exact (comparison_eq (other (by decide))).trans (next (by decide))
    | factor =>
      exact (factor_eq (other (by decide)) (other (by decide))).trans (next (by decide))
    | atom => exact next (by decide)
    | _ => exact bind_failed (next (by decide))

theorem level_refused (out : c.kind ∉ expressionStart) :
    level (k + 1) .expression c = .failed (c.failure expressionStart) := by
  refine (expression_eq ?_).trans ?_
  · intro eq
    rw [eq] at out
    exact out (by decide)
  · unfold Rule.describing
    rw [Rung.rule_refused out (by decide)]
    simp [Cursor.failure]

theorem statement_refused (out : c.kind ∉ statementStart) :
    statement (level (k + 1)) c = .failed (c.failure statementStart) := by
  unfold statementStart at out
  rw [List.mem_append, not_or] at out
  rw [statement_eq out.1]
  unfold Rule.describing
  rw [level_refused out.2]
  simp [Cursor.failure]

/-- An expression is a factor and what is read behind it. -/
theorem level_expression (assigns : c.kind ≠ .keyword .VAR) (negates : c.kind ≠ .keyword .NOT) :
    level (k + 1) .expression c = describing (factor (k + 1) (level k) >>=
      onward k [.term, .arithmetic, .chain, .logic]) expressionStart c := by
  refine (expression_eq assigns).trans ?_
  have same : Rung.logic.rule (k + 1) (level k) c = (factor (k + 1) (level k) >>=
      onward k [.term, .arithmetic, .chain, .logic]) c := by
    refine (bind_congr_at _ (comparison_eq negates)).trans (congrFun ?_ c)
    change ((((factor (k + 1) (level k) >>= Rung.term.loop k (k + 1)) >>=
      Rung.arithmetic.loop k (k + 1)) >>= Rung.chain.loop k (k + 1)) >>=
        Rung.logic.loop k (k + 1)) = _
    simp only [onward, bind_assoc, bind_pure]
  unfold Rule.describing
  rw [same]

end Openings

end ScriptLang
