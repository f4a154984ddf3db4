import ScriptLang.Proofs.Print.Forms

/-! Where trees stand. A tree is read at the rung it is written at by the rule of its own
construct; looser rungs read on to it, and at tighter ones it stands in parentheses. -/
namespace ScriptLang

open Grammar Rule

theorem Rung.admits_of_atom {x : Token.Content} (h : x.kind ∈ atomStart) (r : Rung) :
    r.Admits x := by
  have other {k : Token.Kind} (out : k ∉ atomStart) : x.kind ≠ k := by
    rintro rfl
    exact out h
  refine ⟨?_, fun _ => other (by decide), fun _ => other (by decide), fun _ => other (by decide),
    fun _ => other (by decide)⟩
  have subset : atomStart ⊆ expressionStart := by decide
  exact subset h

def Headed (n : Node Unit) : Prop :=
  ∃ x xs, n.written = x :: xs ∧ x.kind ∈ expressionStart ∧
    ∀ r : Rung, r.rank ≤ n.strength → r.Admits x

theorem headed_of_atom {n : Node Unit} {x : Token.Content} {xs : List Token.Content}
    (written : n.written = x :: xs) (h : x.kind ∈ atomStart) : Headed n :=
  ⟨x, xs, written, (Rung.admits_of_atom h .atom).start, fun r _ => Rung.admits_of_atom h r⟩

theorem Headed.operand {n : Node Unit} (h : Headed n) (r : Rung) :
    ∃ x xs, n.operand r = x :: xs ∧ r.Admits x := by
  obtain ⟨x, xs, written, -, admits⟩ := h
  unfold Node.operand Node.enclose
  split
  · next le => exact ⟨x, xs, written, admits r le⟩
  · exact ⟨_, _, rfl, Rung.admits_of_atom (by decide) r⟩

theorem headed {role : Role} {n : Node Unit} (h : Canonical role n) :
    role = .expression → Headed n := by
  induction h with
  | int | string | access =>
    exact fun _ => headed_of_atom (by rw [Node.written]) (by simp [atomStart, Token.Content.kind])
  | assign named h =>
    intro _
    refine ⟨.keyword .VAR, _, by rw [Node.written], by decide, fun r low => ?_⟩
    have low : r.rank ≤ 1 := low
    exact ⟨by decide, fun _ => by omega, fun _ => by omega, fun _ => by omega, fun _ => by omega⟩
  | @unary op v h ih =>
    intro _
    refine ⟨op.content, _, by rw [Node.written], by cases op <;> decide, fun r low => ?_⟩
    cases op with
    | not =>
      have low : r.rank ≤ 3 := low
      exact ⟨by decide, fun _ => by decide, fun _ => by omega, fun _ => by decide,
        fun _ => by decide⟩
    | plus | minus =>
      have low : r.rank ≤ 7 := low
      exact ⟨by decide, fun _ => by decide, fun _ => by decide, fun _ => by omega,
        fun _ => by omega⟩
  | @binary op l r left right ihl ihr =>
    intro _
    obtain ⟨x, xs, written, admits⟩ := (ihl rfl).operand op.leftRung
    refine ⟨x, xs ++ op.content :: r.operand op.rightRung, ?_, admits.start, fun q low => ?_⟩
    · rw [Node.written, show Node.enclose op.leftRung l l.written = _ from written]
      rfl
    · have low : q.rank ≤ op.rung.rank := low
      exact admits.mono (by cases op <;> exact Nat.le_trans low (by decide))
  | @call f args callee h ih =>
    intro _
    obtain ⟨x, xs, written, admits⟩ := (ih rfl).operand .call
    refine ⟨x, xs ++ .symbol .leftParen :: (Node.writtenRow args ++ [.symbol .rightParen]), ?_,
      admits.start, fun q low => admits.mono low⟩
    rw [Node.written, show Node.enclose .call f f.written = _ from written]
    rfl
  | list | cond | forLoop | whileLoop | function =>
    exact fun _ => headed_of_atom (by rw [Node.written]) (by decide)
  | returns | returnsValue | breaks | continues | expression | block =>
    intro role
    cases role

section Refusal

variable {α β : Type} {bound fuel : Nat} {self : Level → Rule Tree} {T : Token.Content → Prop}

theorem Rule.Refuses.bind {p : Rule α} (h : p.Refuses bound T) (f : α → Rule β) :
    (p >>= f).Refuses bound T := by
  intro c other short
  obtain ⟨e, failed⟩ := h c other short
  refine ⟨e, ?_⟩
  change Rule.bind p f c = _
  unfold Rule.bind
  rw [failed]

theorem Rule.Refuses.describing {p : Rule α} (h : p.Refuses bound T) (expected : List Token.Kind) :
    (Rule.describing p expected).Refuses bound T := by
  intro c other short
  obtain ⟨e, failed⟩ := h c other short
  unfold Rule.describing
  rw [failed]
  exact ⟨_, rfl⟩

theorem here_refuses {f : Cursor → Rule α}
    (h : ∀ c : Cursor, T c.current.content → (f c).Refuses bound T) :
    (Rule.here >>= f).Refuses bound T :=
  fun c other short => h c other c other short

theorem atom_refuses : (atom fuel self).Refuses bound (·.kind ∉ expressionStart) := by
  refine here_refuses fun c other => ?_
  split
  case h_11 => exact fun d _ _ => ⟨_, rfl⟩
  all_goals
    rename_i is
    rw [is] at other
    exact absurd (by simp [Token.Content.kind, expressionStart]) other

theorem Rung.refuses_of_next {r : Rung}
    (h : (r.next.rule fuel self).Refuses bound (·.kind ∉ expressionStart)) :
    (r.rule fuel self).Refuses bound (·.kind ∉ expressionStart) := by
  have other {c : Cursor} {k : Token.Kind} (out : c.current.content.kind ∉ expressionStart)
      (start : k ∈ expressionStart) : c.kind ≠ k := by
    rintro rfl
    exact out start
  cases r with
  | expression =>
    refine here_refuses fun c out => ?_
    split
    · next eq => exact absurd eq (other out (by decide))
    · exact h.describing _
  | comparison =>
    refine here_refuses fun c out => ?_
    split
    · next eq => exact absurd eq (other out (by decide))
    · exact h
  | factor =>
    refine here_refuses fun c out => ?_
    split
    · next eq => exact absurd eq (other out (by decide))
    · next eq => exact absurd eq (other out (by decide))
    · exact h
  | logic | chain | arithmetic | term | power | call => exact h.bind _
  | atom => exact h

theorem Rung.refuses (r : Rung) :
    (r.rule fuel self).Refuses bound (·.kind ∉ expressionStart) :=
  Rung.ladder (P := fun r => (r.rule fuel self).Refuses bound (·.kind ∉ expressionStart))
    atom_refuses (fun _ _ => refuses_of_next) (by cases r <;> decide : r.rank ≤ Rung.atom.rank)

def Grammar.Level.rung : Level → Rung
  | .expression => .expression
  | .comparison => .comparison
  | .factor => .factor

theorem level_succ (k : Nat) (l : Level) : level (k + 1) l = l.rung.rule (k + 1) (level k) := by
  cases l <;> rfl

theorem level_refuses (k : Nat) (l : Level) :
    (level k l).Refuses k (·.kind ∉ expressionStart) := by
  cases k with
  | zero => exact fun c _ short => absurd short (by simp [Cursor.rest])
  | succ k =>
    rw [level_succ]
    exact l.rung.refuses

theorem statement_refuses (k : Nat) : EndsBlocks k (level k) := by
  refine here_refuses fun c out => ?_
  have other {k : Token.Kind} (start : k ∈ statementStart) : c.kind ≠ k := by
    rintro rfl
    exact out start
  split
  · next eq => exact absurd eq (other (by decide))
  · next eq => exact absurd eq (other (by decide))
  · next eq => exact absurd eq (other (by decide))
  · refine Rule.Refuses.describing (fun d out short => level_refuses k .expression d ?_ short) _
    have subset : expressionStart ⊆ statementStart := by decide
    exact fun start => out (subset start)

end Refusal

section Standing

variable {k : Nat} {n : Node Unit} {q r : Rung}

def Rung.Loops (r : Rung) : Prop := r = .logic ∨ r = .chain ∨ r = .arithmetic ∨ r = .term

instance : DecidablePred Rung.Loops := fun _ => inferInstanceAs (Decidable (_ ∨ _))

theorem Rung.Loops.rule_eq (h : r.Loops) (fuel : Nat) (self : Level → Rule Tree) :
    r.rule fuel self = operands fuel (r.next.rule fuel self) r.ops (r.next.rule fuel self) := by
  obtain rfl | rfl | rfl | rfl := h <;> rfl

/-- A tree is read from what is written for itself: at the rungs it may stand bare at, by the
loop of its own rung, and wherever an expression is ended by a line or a parenthesis. -/
structure Unenclosed (k : Nat) (n : Node Unit) : Prop where
  takes : ∀ r : Rung, r.rank ≤ n.strength →
    Takes (k + 1) (r.rule (k + 1) (level k)) n.written r.Stops (Spelt n)
  joins : ∀ r : Rung, r.Loops → n.strength = r.rank → Joins (k + 1) (r.rule (k + 1) (level k))
    (operandsFrom r.ops (r.next.rule (k + 1) (level k))) n.written r.next.Stops n
  calls : n.strength = Rung.call.rank → Joins (k + 1) (call (k + 1) (level k))
    (callsFrom (k + 1) (level k)) n.written Rung.atom.Stops n
  ended : Takes (k + 1) (expression (k + 1) (level k)) n.written Ends (Spelt n)

structure Standing (k : Nat) (n : Node Unit) : Prop where
  takes : ∀ r : Rung, Takes (k + 1) (r.rule (k + 1) (level k)) (n.operand r) r.Stops (Spelt n)
  joins : ∀ r : Rung, r.Loops → Joins (k + 1) (r.rule (k + 1) (level k))
    (operandsFrom r.ops (r.next.rule (k + 1) (level k))) (n.operand r) r.next.Stops n
  calls : Joins (k + 1) (call (k + 1) (level k)) (callsFrom (k + 1) (level k)) (n.operand .call)
    Rung.atom.Stops n

theorem Node.operand_of_le (h : r.rank ≤ n.strength) : n.operand r = n.written := if_pos h

theorem Node.operand_of_lt (h : n.strength < r.rank) :
    n.operand r = .symbol .leftParen :: (n.written ++ [.symbol .rightParen]) :=
  if_neg (by omega)

theorem Node.operand_next (other : n.strength ≠ r.rank) (tighter : r.rank < q.rank) :
    n.operand r = n.operand r.next := by
  have next := Rung.rank_next tighter
  by_cases le : r.rank ≤ n.strength
  · rw [operand_of_le le, operand_of_le (by omega)]
  · rw [operand_of_lt (by omega), operand_of_lt (by omega)]

theorem parenthesised (h : ∀ k, Unenclosed k n) (r : Rung) :
    Takes (k + 1) (r.rule (k + 1) (level k))
      (.symbol .leftParen :: (n.written ++ [.symbol .rightParen])) r.Stops (Spelt n) := by
  -- the level below is used up by the parenthesis, so `h` is needed at every level
  have inner : Takes k (level k .expression) n.written (· = .symbol .rightParen) (Spelt n) := by
    cases k with
    | zero => exact .zero
    | succ k => exact (h k).ended.mono (Nat.le_refl _) fun x eq => .inr eq
  have atom : Takes (k + 1) (Rung.atom.rule (k + 1) (level k))
      (.symbol .leftParen :: (n.written ++ [.symbol .rightParen])) r.Stops (Spelt n) :=
    atom_takes_parens inner (Nat.le_refl k)
  exact Rung.descend atom (Rung.admits_of_atom (by decide) .atom) (Nat.le_refl _)
    (by cases r <;> decide) fun _ => id

theorem Unenclosed.standing (h : ∀ k, Unenclosed k n) (k : Nat) : Standing k n := by
  have takes (r : Rung) :
      Takes (k + 1) (r.rule (k + 1) (level k)) (n.operand r) r.Stops (Spelt n) := by
    by_cases le : r.rank ≤ n.strength
    · rw [Node.operand_of_le le]
      exact (h k).takes r le
    · rw [Node.operand_of_lt (by omega)]
      exact parenthesised h r
  refine ⟨takes, fun r loops => ?_, ?_⟩
  · by_cases own : n.strength = r.rank
    · rw [Node.operand_of_le (by omega)]
      exact (h k).joins r loops own
    -- at a rung not its own a tree is the first operand, and nothing has been joined to it
    · have tighter : r.rank < Rung.atom.rank := by
        obtain rfl | rfl | rfl | rfl := loops <;> decide
      rw [Node.operand_next own tighter, loops.rule_eq]
      exact Joins.first (takes r.next) (Nat.le_refl _)
  · by_cases own : n.strength = Rung.call.rank
    · rw [Node.operand_of_le (by omega)]
      exact (h k).calls own
    · rw [Node.operand_next own (q := .atom) (by decide)]
      exact Joins.first (takes .atom) (Nat.le_refl _)

theorem Unenclosed.ofRung (head : Headed n) (strength : n.strength = q.rank)
    (own : Takes (k + 1) (q.rule (k + 1) (level k)) n.written q.Stops (Spelt n))
    (joins : q.Loops → Joins (k + 1) (q.rule (k + 1) (level k))
      (operandsFrom q.ops (q.next.rule (k + 1) (level k))) n.written q.next.Stops n)
    (calls : q = .call → Joins (k + 1) (call (k + 1) (level k)) (callsFrom (k + 1) (level k))
      n.written Rung.atom.Stops n) : Unenclosed k n := by
  obtain ⟨x, xs, written, -, admits⟩ := head
  have looser {S : Token.Content → Prop} (r : Rung) (le : r.rank ≤ q.rank)
      (stops : ∀ y, S y → r.Stops y) :
      Takes (k + 1) (r.rule (k + 1) (level k)) n.written S (Spelt n) := by
    rw [written] at own ⊢
    refine Rung.descend (own.mono (Nat.le_refl _) fun y stop => (stops y stop).mono le)
      (admits q (by omega)) (Nat.le_refl _) le stops
  refine ⟨fun r le => looser r (by omega) fun _ => id, fun r loops eq => ?_, fun eq => ?_, ?_⟩
  · obtain rfl : r = q := Rung.eq_of_rank (by omega)
    exact joins loops
  · exact calls (Rung.eq_of_rank (by omega))
  · exact looser .expression (by cases q <;> decide) fun y ends => ends.closing.stops _

theorem Unenclosed.single (head : Headed n) (strength : n.strength = q.rank)
    (alone : ¬q.Loops ∧ q ≠ .call)
    (own : Takes (k + 1) (q.rule (k + 1) (level k)) n.written q.Stops (Spelt n)) :
    Unenclosed k n :=
  .ofRung head strength own (fun loops => absurd loops alone.1) fun eq => absurd eq alone.2

/-- A construct that ends with its own `END`, or else reads on until something ends it. -/
theorem Unenclosed.construct (closed : Bool) {x : Token.Content} {xs : List Token.Content}
    (written : n.written = x :: xs) (start : x.kind ∈ atomStart)
    (strength : n.strength = if closed then Rung.atom.rank else 0)
    (own : Takes (k + 1) (atom (k + 1) (level k)) n.written (EndsChain closed) (Spelt n)) :
    Unenclosed k n := by
  cases closed with
  | true =>
    exact .single (q := .atom) (headed_of_atom written start) strength (by decide)
      (own.mono (Nat.le_refl _) fun _ _ eq => by cases eq)
  | false =>
    have strength : n.strength = 0 := strength
    refine ⟨fun r le => ?_, fun r _ eq => ?_, fun eq => ?_, ?_⟩
    · cases r <;> simp [Rung.rank, strength] at le
    · cases r <;> simp [Rung.rank, strength] at eq
    · simp [Rung.rank, strength] at eq
    · have inline : Takes (k + 1) (Rung.atom.rule (k + 1) (level k)) n.written Ends (Spelt n) :=
        own.mono (Nat.le_refl _) fun _ ends _ => ends
      rw [written] at inline ⊢
      exact Rung.descend (r := .expression) inline (Rung.admits_of_atom start .atom)
        (Nat.le_refl _) (by decide) fun y ends => ends.closing.stops _

end Standing

end ScriptLang
