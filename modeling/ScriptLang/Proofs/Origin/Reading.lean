import ScriptLang.Proofs.Phrase.Sound
import ScriptLang.Proofs.Sequence.Program
import ScriptLang.Proofs.Subtree

/-! Where the constructs of a tree come from. A `RETURN` whose value cannot be read is read without
one, and what stands behind it is offered to the constructs around it. They take it only if no
expression can begin with it, with two exceptions: a parenthesis may be taken for the arguments of
a call, and a sign for an operator. Behind a sign taken for an operator no expression comes to its
end. -/
namespace ScriptLang

open Grammar Rule

/-- A `RETURN` behind which no expression could be read. -/
structure Token.Valueless (ts : List Token) (i : Nat) : Prop where
  returns : ∃ t, ts[i]? = some t ∧ t.kind = .keyword .RETURN
  fails : ∃ k d e, d.At ts ∧ d.index = i + 1 ∧ level k .expression d = .failed e

def Token.Kind.Parts (x : Token.Kind) : Prop := x ∈ expressionStart → x = .symbol .leftParen

instance (x : Token.Kind) : Decidable x.Parts := inferInstanceAs (Decidable (_ → _))

namespace Node

/-- What is known of a construct that was read from the tokens: a `RETURN` without a value has a
token behind it that parts it from what follows, and an `IF` is spelt by the tokens from its first
one on. -/
def Settled (ts : List Token) : Tree → Prop
  | .returns none mark => Token.Valueless ts mark.index ∧
    ∃ t, ts[mark.index + 1]? = some t ∧ t.kind.Parts
  | .cond arms last mark => ∃ cs rest,
    (ts.map Token.content).drop mark.index = .keyword .IF :: cs ++ rest ∧
      Phrase.Atom (.keyword .IF :: cs) (erase (.cond arms last mark))
  | _ => True

def Dangles (ts : List Token) (i : Nat) (n : Tree) : Prop :=
  ∃ mark, n = .returns none mark ∧ Token.Valueless ts mark.index ∧ mark.index + 1 = i

/-- Settled, but for what the token with this number, the next one, will tell. -/
def Open (ts : List Token) (i : Nat) (n : Tree) : Prop := n.Settled ts ∨ n.Dangles ts i

theorem Every.mono {P Q : Tree → Prop} {n : Tree} (h : n.Every P) (imp : ∀ p, P p → Q p) :
    n.Every Q := by
  induction h with
  | mk own _ ih => exact .mk (imp _ own) ih

theorem Every.node {P : Tree → Prop} {n : Tree} (own : P n) (parts : ∀ q ∈ n.parts, q.Every P)
    (bodies : ∀ q ∈ n.bodies, q.Every P) : n.Every P := by
  apply Every.mk own
  intro q mem
  rcases mem_children.1 mem with part | body
  · exact parts q part
  · exact bodies q body

theorem Every.opened {ts : List Token} {n : Tree} (h : n.Every (Settled ts)) (i : Nat) :
    n.Every (Open ts i) :=
  h.mono fun _ => .inl

theorem Every.settled_or {ts : List Token} {i : Nat} {n : Tree} (h : n.Every (Open ts i)) :
    n.Every (Settled ts) ∨ ∃ j, Token.Valueless ts j ∧ j + 1 = i := by
  by_cases dangling : ∃ j, Token.Valueless ts j ∧ j + 1 = i
  · exact .inr dangling
  · left
    apply h.mono
    intro p state
    rcases state with settled | ⟨mark, _, valueless, next⟩
    · exact settled
    · exact absurd ⟨mark.index, valueless, next⟩ dangling

theorem Every.settle {ts : List Token} {c : Cursor} (place : c.At ts) {n : Tree}
    (h : n.Every (Open ts c.index)) (parts : c.kind.Parts) : n.Every (Settled ts) := by
  apply h.mono
  intro p state
  rcases state with settled | ⟨mark, rfl, valueless, next⟩
  · exact settled
  · refine ⟨valueless, c.current, ?_, parts⟩
    rw [next]
    exact place.current

end Node

/-- If `p` reads something at `c`, then something that is `P` where the cursor stands afterwards,
which is in the list again. -/
def Rule.ReadsAt {α : Type} (ts : List Token) (P : α → Cursor → Prop) (p : Rule α) (c : Cursor) :
    Prop :=
  c.At ts → ∀ a c', p c = .done a c' → c'.At ts ∧ P a c'

def Rule.Reads {α : Type} (ts : List Token) (P : α → Cursor → Prop) (p : Rule α) : Prop :=
  ∀ c, p.ReadsAt ts P c

namespace Rule.ReadsAt

variable {α β : Type} {ts : List Token} {P : α → Cursor → Prop} {Q : β → Cursor → Prop}
variable {c : Cursor}

theorem pure {a : α} (h : P a c) : (Pure.pure a : Rule α).ReadsAt ts P c := by
  intro place b c' eq
  cases eq
  exact ⟨place, h⟩

theorem placed {p : Rule α} (h : c.At ts → p.ReadsAt ts P c) : p.ReadsAt ts P c :=
  fun place => h place place

theorem spent : (Rule.spent : Rule α).ReadsAt ts P c := by
  intro _ _ _ eq
  cases eq

theorem unexpected {expected : List Token.Kind} :
    (Rule.unexpected expected : Rule α).ReadsAt ts P c := by
  intro _ _ _ eq
  cases eq

theorem bind {p : Rule α} {f : α → Rule β} (hp : p.ReadsAt ts P c)
    (hf : ∀ a c', c'.At ts → P a c' → (f a).ReadsAt ts Q c') : (p >>= f).ReadsAt ts Q c := by
  intro place b c' eq
  change Rule.bind p f c = .done b c' at eq
  unfold Rule.bind at eq
  cases read : p c with
  | failed e =>
    rw [read] at eq
    cases eq
  | spent =>
    rw [read] at eq
    cases eq
  | done a d =>
    rw [read] at eq
    have ⟨place', ha⟩ := hp place a d read
    exact hf a d place' ha place' b c' eq

theorem mono {P' : α → Cursor → Prop} {p : Rule α} (hp : p.ReadsAt ts P c)
    (imp : ∀ a c', P a c' → P' a c') : p.ReadsAt ts P' c := by
  intro place a c' eq
  have ⟨place', ha⟩ := hp place a c' eq
  exact ⟨place', imp a c' ha⟩

theorem advance : Rule.advance.ReadsAt ts (fun _ c' => c' = c.advance) c := by
  intro place t c' eq
  cases eq
  exact ⟨place.advance, rfl⟩

theorem ifAccept {x : Token.Kind} {p q : Rule α} (yes : c.kind = x → p.ReadsAt ts P c.advance)
    (no : q.ReadsAt ts P c) : (do if ← accept x then p else q : Rule α).ReadsAt ts P c := by
  intro place a c' eq
  by_cases is : c.kind = x
  · rw [bind_done (accept_pos is)] at eq
    exact yes is place.advance a c' eq
  · rw [bind_done (accept_neg is)] at eq
    exact no place a c' eq

theorem expect {x : Token.Kind} {expected : List Token.Kind} :
    (Rule.expect x expected).ReadsAt ts (fun _ _ => c.kind = x) c := by
  intro place t c' eq
  unfold Rule.expect at eq
  split at eq
  · next is =>
    cases eq
    exact ⟨place.advance, is⟩
  · cases eq

theorem name : Rule.name.ReadsAt ts (fun _ _ => True) c := by
  intro place n c' eq
  unfold Rule.name at eq
  split at eq
  · cases eq
    exact ⟨place.advance, trivial⟩
  · cases eq

theorem markFrom (start : Mark) :
    (Rule.markFrom start).ReadsAt ts (fun m c' => m.index = start.index ∧ c' = c) c := by
  intro place m c' eq
  cases eq
  exact ⟨place, rfl, rfl⟩

theorem fromHere {f : Cursor → Rule α} (h : (f c).ReadsAt ts P c) :
    (Rule.here >>= f).ReadsAt ts P c := h

theorem attempt {p : Rule α} (hp : p.ReadsAt ts P c) (failing : ∀ e, p c = .failed e → e.At ts) :
    (Rule.attempt p).ReadsAt ts (fun a c' => match a with
      | some b => P b c'
      | none => c'.index = c.index ∧ ∃ e, p c = .failed e) c := by
  intro place a c' eq
  cases read : p c with
  | done b d =>
    unfold Rule.attempt at eq
    rw [read] at eq
    cases eq
    exact hp place b _ read
  | failed e =>
    rw [attempt_failed read] at eq
    cases eq
    refine ⟨⟨place.current, place.ahead, ?_⟩, rfl, e, rfl⟩
    intro f mem
    cases mem
    exact failing e read
  | spent =>
    rw [attempt_spent read] at eq
    cases eq

theorem describing {p : Rule α} (hp : p.ReadsAt ts P c) (expected : List Token.Kind) :
    (Rule.describing p expected).ReadsAt ts P c := by
  intro place a c' eq
  unfold Rule.describing at eq
  split at eq
  · cases eq
  · exact hp place a c' eq

end Rule.ReadsAt

theorem Rule.Alike.failure_at {α : Type} {ts : List Token} {V : α → α → Prop} {p : Rule α}
    (h : Rule.Alike ts ts V p p) {c : Cursor} (place : c.At ts) {e : Failure}
    (fails : p c = .failed e) : e.At ts := by
  have same := h c c ⟨place, place, rfl, rfl⟩
  rw [fails] at same
  cases same with
  | failed failure => exact failure.left

theorem Cursor.At.rest_eq {ts : List Token} {c : Cursor} (place : c.At ts) :
    c.rest = (ts.map Token.content).drop c.index := by
  obtain ⟨within, current⟩ := List.getElem?_eq_some_iff.1 place.current
  rw [← List.map_drop, List.drop_eq_getElem_cons within, current, place.ahead]
  rfl

theorem Token.Closed.drop {xs : List Token.Content} (h : Token.Closed xs) {i : Nat}
    (within : i < xs.length) : Token.Closed (xs.drop i) := by
  induction i generalizing xs with
  | zero => exact h
  | succ i ih =>
    match xs with
    | [] => cases h
    | [x] => simp at within
    | x :: y :: xs => exact ih h.2 (Nat.lt_of_succ_lt_succ within)

theorem Cursor.At.closed {ts : List Token} {c : Cursor} (place : c.At ts)
    (h : Token.Closed (ts.map Token.content)) : Token.Closed c.rest := by
  rw [place.rest_eq]
  apply h.drop
  rw [List.length_map]
  exact (List.getElem?_eq_some_iff.1 place.current).1

theorem Token.Closed.advance_index {ts : List Token} (h : Token.Closed (ts.map Token.content))
    {c : Cursor} (place : c.At ts) (more : c.kind ≠ .eof) : c.advance.index = c.index + 1 := by
  have rest := place.closed h
  unfold Cursor.rest at rest
  unfold Cursor.advance
  cases ahead : c.ahead with
  | nil =>
    rw [ahead] at rest
    exact absurd (congrArg Token.Content.kind rest) more
  | cons t us => rfl

theorem Token.Ended.advance_index {ts : List Token} (ended : Token.Ended ts) {c : Cursor}
    (place : c.At ts) (more : c.kind ≠ .eof) : c.advance.index = c.index + 1 :=
  (Token.closed_of_ended ended).advance_index place more

/-- The loops of these rungs do not come to their end from the cursor on, whatever was read
before it. -/
def Cursor.Doomed (rs : List Rung) (c : Cursor) : Prop :=
  ∀ k t u c', onward k rs t c ≠ .done u c'

namespace Cursor.Doomed

variable {rs : List Rung} {c c' : Cursor}

theorem absurd_nil (h : c.Doomed []) : False := h 0 (.breaks c.mark) _ _ rfl

theorem of_ending {k : Nat} {t : Tree} {α : Type} {o : Outcome α} (h : c.Doomed rs)
    (same : o.ending = none ∨ o.ending = (onward k rs t c).ending) (a : α) (d : Cursor) :
    o ≠ .done a d := by
  rintro rfl
  cases read : onward k rs t c with
  | done u c' => exact h k t u c' read
  | failed e =>
    rw [read] at same
    simp [Outcome.ending] at same
  | spent =>
    rw [read] at same
    simp [Outcome.ending] at same

theorem loop {r : Rung} (h : c.Doomed (r :: rs)) {k n : Nat} {t u : Tree}
    (read : r.loop k n t c = .done u c') : c'.Doomed rs := by
  intro j v w d done
  -- with more steps than either has, the loop does the same and the others go on behind it
  have same : (r.loop k n t >>= fun _ => onward j rs v).Within
      (onward (max (max k n) j) (r :: rs) t) := by
    apply (r.loop_within (by omega) (by omega) t t).bind
    intro _ u'
    exact onward_within (by omega) rs v u'
  apply h.of_ending (same c) w d
  rw [bind_done read]
  exact done

end Cursor.Doomed

theorem level_ne_done {j k : Nat} {l : Level} {c c' : Cursor} {e : Failure} {t : Tree}
    (fails : level j l c = .failed e) : level k l c ≠ .done t c' := by
  intro done
  have left := (level_le (Nat.le_max_left j k) l c).resolve_left (by rw [fails]; exact nofun)
  have right := (level_le (Nat.le_max_right j k) l c).resolve_left (by rw [done]; exact nofun)
  rw [← right, fails, done] at left
  cases left

theorem sign_of_arithmetic {x : Token.Kind} {op : BinaryOp}
    (found : Rung.arithmetic.ops.find? (·.kind = x) = some op) :
    ∃ sign : UnaryOp, sign.rung = .factor ∧ x = sign.content.kind := by
  have mem := List.mem_of_find?_eq_some found
  have is : op.kind = x := by simpa using List.find?_some found
  subst is
  cases op with
  | add => exact ⟨.plus, rfl, rfl⟩
  | sub => exact ⟨.minus, rfl, rfl⟩
  | _ => exact absurd mem (by decide)

/-- A sign behind a `RETURN` whose value could not be read, taken for an operator: had what follows
it come to an end, so would an expression that begins with the sign. -/
theorem Token.Valueless.doomed {ts : List Token} {i : Nat} (h : Token.Valueless ts i) {c : Cursor}
    (place : c.At ts) (index : i + 1 = c.index) {op : BinaryOp}
    (found : Rung.arithmetic.ops.find? (·.kind = c.kind) = some op) :
    c.Doomed [.arithmetic, .chain, .logic] := by
  obtain ⟨j, d, e, place', index', fails⟩ := h.fails
  obtain ⟨sign, rung, is⟩ := sign_of_arithmetic found
  have current : d.current = c.current := by
    have same : ts[d.index]? = ts[c.index]? := by rw [index', index]
    rw [place'.current, place.current] at same
    exact Option.some.inj same
  have is' : d.kind = sign.content.kind := (congrArg Token.kind current).trans is
  have next : d.advance = c.advance := place'.advance_eq place (index'.trans index)
  intro k t u c' done
  -- the operand behind the operator, and what the loops make of it
  have operand : (factor (k + 1) (level k) >>= fun v => Rung.term.loop k (k + 1) v >>= fun w =>
      Rung.arithmetic.loop k k (.binary op t w (t.note.through w.note)) >>=
        onward k [.chain, .logic]) c.advance = .done u c' := by
    change (operandsFrom Rung.arithmetic.ops (term (k + 1) (level k)) (k + 1) t >>=
      onward k [.chain, .logic]) c = _ at done
    rw [bind_congr_at _ (operandsFrom_turn found), bind_assoc] at done
    change ((factor (k + 1) (level k) >>= Rung.term.loop k (k + 1)) >>= _) c.advance = _ at done
    rw [bind_assoc] at done
    exact done
  obtain ⟨v, d₁, first, rest⟩ := bind_eq_done operand
  have expression : (factor (k + 2) (level (k + 1)) >>=
      onward (k + 1) [.term, .arithmetic, .chain, .logic]) d =
        onward (k + 1) [.term, .arithmetic, .chain, .logic]
          (.unary sign v (d.mark.through v.note)) d₁ := by
    rw [bind_congr_at _ (factor_signed sign rung is'), bind_assoc]
    apply (bind_done rfl).trans
    rw [next, bind_assoc]
    exact bind_done first
  have same : (Rung.term.loop k (k + 1) v >>= fun w =>
      Rung.arithmetic.loop k k (.binary op t w (t.note.through w.note)) >>=
        onward k [.chain, .logic]).Within
      (onward (k + 1) [.term, .arithmetic, .chain, .logic]
        (.unary sign v (d.mark.through v.note))) := by
    apply (Rung.term.loop_within (by omega) (by omega) _ _).bind
    intro w w'
    apply (Rung.arithmetic.loop_within (by omega) (by omega) _ _).bind
    exact onward_within (by omega) [.chain, .logic]
  have ends := (same d₁).resolve_left (by rw [rest]; exact nofun)
  rw [rest, ← expression] at ends
  have other : d.kind ≠ .keyword .VAR ∧ d.kind ≠ .keyword .NOT := by
    rw [is']
    cases sign with
    | not => cases rung
    | plus => decide
    | minus => decide
  have whole := level_expression (k := k + 1) other.1 other.2
  unfold Rule.describing at whole
  cases read : (factor (k + 2) (level (k + 1)) >>=
      onward (k + 1) [.term, .arithmetic, .chain, .logic]) d with
  | done w d₂ =>
    rw [read] at whole
    exact level_ne_done fails whole
  | failed f =>
    rw [read] at ends
    cases ends
  | spent =>
    rw [read] at ends
    cases ends

end ScriptLang
