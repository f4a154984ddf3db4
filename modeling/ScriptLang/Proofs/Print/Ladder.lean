import ScriptLang.Node.Map
import ScriptLang.Proofs.Print
import ScriptLang.Proofs.Print.Taking

/-! The ladder of precedence as rules climb it. What a rule reads, the rules of all looser rungs
read too, as long as no operator of theirs follows; operators of one rung are joined from the left
by a loop, which is followed from one operand to the next. -/
namespace ScriptLang

open Grammar Rule

namespace Rung

def next : Rung → Rung
  | expression => logic
  | logic => comparison
  | comparison => chain
  | chain => arithmetic
  | arithmetic => term
  | term => factor
  | factor => power
  | power => call
  | call | atom => atom

def ops : Rung → List BinaryOp
  | logic => [.and, .or]
  | chain => [.eq, .ne, .lt, .gt, .lte, .gte]
  | arithmetic => [.add, .sub]
  | term => [.mul, .div]
  | power => [.pow]
  | _ => []

def rule (fuel : Nat) (self : Level → Rule Tree) : Rung → Rule Tree
  | expression => Grammar.expression fuel self
  | logic => operands fuel (Grammar.comparison fuel self) logic.ops (Grammar.comparison fuel self)
  | comparison => Grammar.comparison fuel self
  | chain => operands fuel (Grammar.arithmetic fuel self) chain.ops (Grammar.arithmetic fuel self)
  | arithmetic => Grammar.arithmetic fuel self
  | term => Grammar.term fuel self
  | factor => Grammar.factor fuel self
  | power => Grammar.power fuel self
  | call => Grammar.call fuel self
  | atom => Grammar.atom fuel self

/-- Tokens that what is written at a rung may begin with. -/
structure Admits (r : Rung) (x : Token.Content) : Prop where
  start : x.kind ∈ expressionStart
  assigns : 2 ≤ r.rank → x.kind ≠ .keyword .VAR
  negates : 4 ≤ r.rank → x.kind ≠ .keyword .NOT
  plus : 8 ≤ r.rank → x.kind ≠ .symbol .plus
  minus : 8 ≤ r.rank → x.kind ≠ .symbol .minus

theorem Admits.mono {r q : Rung} {x : Token.Content} (h : q.Admits x) (le : r.rank ≤ q.rank) :
    r.Admits x :=
  ⟨h.start, fun low => h.assigns (by omega), fun low => h.negates (by omega),
    fun low => h.plus (by omega), fun low => h.minus (by omega)⟩

/-- Tokens that no rule of the rung, or of a tighter one, reads on at. -/
structure Stops (r : Rung) (x : Token.Content) : Prop where
  operator : ∀ op : BinaryOp, x = op.content → op.rung.rank < r.rank
  call : x = .symbol .leftParen → Rung.call.rank < r.rank

theorem Stops.mono {r q : Rung} {x : Token.Content} (h : r.Stops x) (le : r.rank ≤ q.rank) :
    q.Stops x :=
  ⟨fun op eq => Nat.lt_of_lt_of_le (h.operator op eq) le,
    fun eq => Nat.lt_of_lt_of_le (h.call eq) le⟩

theorem rank_next {r q : Rung} (h : r.rank < q.rank) : r.next.rank = r.rank + 1 := by
  cases r <;> first | rfl | (cases q <;> simp [rank] at h)

theorem eq_of_rank {r q : Rung} (h : r.rank = q.rank) : r = q := by
  cases r <;> cases q <;> first | rfl | cases h

theorem ladder {P : Rung → Prop} {q r : Rung} (base : P q)
    (step : ∀ r : Rung, r.rank < q.rank → P r.next → P r) (looser : r.rank ≤ q.rank) : P r := by
  obtain ⟨d, far⟩ := Nat.exists_eq_add_of_le looser
  induction d generalizing r with
  | zero => exact eq_of_rank (r := r) (q := q) far.symm ▸ base
  | succ d ih =>
    have below : r.rank < q.rank := by omega
    have next := rank_next below
    exact step r below (ih (by omega) (by omega))

theorem rung_of_mem {r : Rung} {op : BinaryOp} (mem : op ∈ r.ops) : op.rung = r := by
  cases r <;> simp only [ops, List.mem_cons, List.not_mem_nil, or_false] at mem
  case power => rw [mem]; rfl
  all_goals rcases mem with rfl | rfl | rfl | rfl | rfl | rfl <;> rfl

theorem Stops.find_none {r : Rung} {x : Token.Content} (h : r.Stops x) :
    r.ops.find? (·.kind = x.kind) = none := by
  rw [List.find?_eq_none]
  intro op mem same
  have below := h.operator op (Token.Content.eq_content (by simpa using same))
  rw [rung_of_mem mem] at below
  omega

end Rung

abbrev Spelt (n : Node Unit) (t : Tree) : Prop := t.erase = n

/-- A loop that joins operands has got to `n`, with a step for every token left. -/
def Joins (bound : Nat) (p : Rule Tree) (go : Nat → Tree → Rule Tree) (cs : List Token.Content)
    (S : Token.Content → Prop) (n : Node Unit) : Prop :=
  ∀ c x ds, c.rest = cs ++ x :: ds → S x → c.rest.length ≤ bound →
    ∃ m t c', p c = go m t c' ∧ c'.rest = x :: ds ∧ Spelt n t ∧ (x :: ds).length ≤ m

section Loops

variable {bound less fuel : Nat} {p q : Rule Tree} {go : Nat → Tree → Rule Tree}
variable {cs ds : List Token.Content} {S T : Token.Content → Prop} {n a b : Node Unit}

theorem Joins.first (h : Takes bound q cs S (Spelt n)) (le : bound ≤ fuel) :
    Joins bound (q >>= go fuel) go cs S n := by
  intro c x es rest stop short
  obtain ⟨t, c', done, rest', spelt⟩ := h c x es rest stop short
  refine ⟨fuel, t, c', bind_done done, rest', spelt, ?_⟩
  rw [rest, List.length_append] at short
  omega

theorem Joins.more {y : Token.Content} (h : Joins bound p go cs S a) (stop : S y)
    (le : bound ≤ less + 1)
    (turn : ∀ m t c x es, Spelt a t → c.current.content = y → c.advance.rest = ds ++ x :: es →
      T x → c.advance.rest.length ≤ less →
      ∃ u c', go (m + 1) t c = go m u c' ∧ c'.rest = x :: es ∧ Spelt b u) :
    Joins bound p go (cs ++ y :: ds) T b := by
  intro c x es rest next short
  have split : c.rest = cs ++ y :: (ds ++ x :: es) := by
    rw [rest, List.append_assoc, List.cons_append]
  obtain ⟨m, t, c₁, reached, rest₁, spelt, enough⟩ := h c _ _ split stop short
  rw [split] at short
  simp only [List.length_append, List.length_cons] at short enough
  obtain ⟨fs, cons⟩ := append_eq_firstOf ds es x
  rw [cons] at rest₁
  have rest₂ : c₁.advance.rest = ds ++ x :: es := by
    rw [Cursor.rest_advance_of_cons rest₁, cons]
  have short₂ : c₁.advance.rest.length ≤ less := by
    rw [rest₂, List.length_append, List.length_cons]
    omega
  obtain ⟨m, rfl⟩ : ∃ m', m = m' + 1 := Nat.exists_eq_add_of_le' (by omega)
  -- the turn spends one step, and at least the token `y` is gone
  obtain ⟨u, c', step, rest', spelt'⟩ :=
    turn m t c₁ x es spelt (Cursor.content_of_rest rest₁) rest₂ next short₂
  refine ⟨m, u, c', reached.trans step, rest', spelt', ?_⟩
  rw [List.length_cons]
  omega

theorem Joins.done (h : Joins bound p go cs S n) (stop : ∀ x, T x → S x)
    (ends : ∀ m t c, T c.current.content → go (m + 1) t c = .done t c) :
    Takes bound p cs T (Spelt n) := by
  intro c x es rest next short
  obtain ⟨m, t, c', reached, rest', spelt, enough⟩ := h c x es rest (stop x next) short
  rw [List.length_cons] at enough
  obtain ⟨m, rfl⟩ : ∃ m', m = m' + 1 := Nat.exists_eq_add_of_le' (by omega)
  have last : go (m + 1) t c' = .done t c' := ends m t c' (Cursor.content_of_rest rest' ▸ next)
  exact ⟨t, c', reached.trans last, rest', spelt⟩

end Loops

section Operands

variable {bound less m : Nat} {cs ds : List Token.Content} {S T : Token.Content → Prop}
variable {right p : Rule Tree} {ops : List BinaryOp} {op : BinaryOp} {n a b : Node Unit}

theorem operandsFrom_stop {c : Cursor} {t : Tree} (h : ops.find? (·.kind = c.kind) = none) :
    operandsFrom ops right (m + 1) t c = .done t c := by
  unfold operandsFrom
  rw [bind_done (show here c = .done c c from rfl), h]
  rfl

theorem operandsFrom_more {c c' : Cursor} {t u : Tree}
    (h : ops.find? (·.kind = c.kind) = some op) (read : right c.advance = .done u c') :
    operandsFrom ops right (m + 1) t c =
      operandsFrom ops right m (.binary op t u (t.note.through u.note)) c' := by
  rw [operandsFrom, bind_done (show here c = .done c c from rfl), h]
  exact (bind_done rfl).trans (bind_done read)

theorem Joins.operand (h : Joins bound p (operandsFrom ops right) cs S a)
    (found : ops.find? (·.kind = op.kind) = some op) (stop : S op.content)
    (le : bound ≤ less + 1) (hright : Takes less right ds T (Spelt b)) :
    Joins bound p (operandsFrom ops right) (cs ++ op.content :: ds) T (.binary op a b ()) := by
  refine h.more stop le fun m t c x es spelt is rest next short => ?_
  obtain ⟨u, c', read, rest', spelt'⟩ := hright c.advance x es rest next short
  have kind : c.kind = op.kind := (Cursor.kind_of_content is).trans (by cases op <;> rfl)
  refine ⟨_, c', operandsFrom_more (by rw [kind]; exact found) read, rest', ?_⟩
  rw [Spelt, Node.erase_binary, spelt, spelt']

theorem Joins.joined (h : Joins bound p (operandsFrom ops right) cs S n)
    (stop : ∀ x, T x → S x ∧ ops.find? (·.kind = x.kind) = none) :
    Takes bound p cs T (Spelt n) :=
  h.done (fun x next => (stop x next).1) fun _ _ _ next => operandsFrom_stop (stop _ next).2

end Operands

inductive Closing : Token.Content → Prop where
  | newline : Closing .newline
  | comma : Closing (.symbol .comma)
  | rightParen : Closing (.symbol .rightParen)
  | rightBracket : Closing (.symbol .rightBracket)
  | to : Closing (.keyword .TO)
  | step : Closing (.keyword .STEP)
  | then : Closing (.keyword .THEN)
  | elif : Closing (.keyword .ELIF)
  | else : Closing (.keyword .ELSE)

theorem Closing.stops {x : Token.Content} (h : Closing x) (r : Rung) : r.Stops x := by
  constructor
  · intro op eq
    subst eq
    cases op <;> cases h
  · rintro rfl
    cases h

section Calls

variable {bound less fuel m : Nat} {self : Level → Rule Tree} {cs ds : List Token.Content}
variable {S T : Token.Content → Prop} {p : Rule Tree} {n f : Node Unit} {args : List (Node Unit)}

theorem callsFrom_stop {c : Cursor} {t : Tree} (h : c.kind ≠ .symbol .leftParen) :
    callsFrom fuel self (m + 1) t c = .done t c := by
  have declined : accept (.symbol .leftParen) c = .done false c := by
    unfold accept
    rw [if_neg h]
  exact bind_done declined

theorem callsFrom_more {c c' : Cursor} {t : Tree} {us : List Tree}
    (h : c.kind = .symbol .leftParen)
    (read : items fuel self .rightParen c.advance = .done us c') :
    callsFrom fuel self (m + 1) t c =
      callsFrom fuel self m (.call t us (t.note.upTo c'.previous.span)) c' := by
  have accepted : accept (.symbol .leftParen) c = .done true c.advance := by
    unfold accept
    rw [if_pos h]
  exact (bind_done accepted).trans ((bind_done read).trans (bind_done rfl))

theorem Joins.call (h : Joins bound p (callsFrom fuel self) cs S f)
    (stop : S (.symbol .leftParen)) (le : bound ≤ less + 1)
    (hargs : Takes less (items fuel self .rightParen) ds T fun us => us.map Node.erase = args) :
    Joins bound p (callsFrom fuel self) (cs ++ .symbol .leftParen :: ds) T (.call f args ()) := by
  refine h.more stop le fun m t c x es spelt is rest next short => ?_
  obtain ⟨us, c', read, rest', spelts⟩ := hargs c.advance x es rest next short
  refine ⟨_, c', callsFrom_more (Cursor.kind_of_content is) read, rest', ?_⟩
  rw [Spelt, Node.erase_call, spelt, spelts]

theorem Joins.called (h : Joins bound p (callsFrom fuel self) cs S n)
    (stop : ∀ x, T x → S x ∧ x.kind ≠ .symbol .leftParen) : Takes bound p cs T (Spelt n) :=
  h.done (fun x next => (stop x next).1) fun _ _ _ next => callsFrom_stop (stop _ next).2

end Calls

section Climb

variable {bound fuel : Nat} {self : Level → Rule Tree} {x : Token.Content}
variable {xs : List Token.Content} {S : Token.Content → Prop} {n : Node Unit} {r q : Rung}

theorem Rung.climb (h : Takes bound (r.next.rule fuel self) (x :: xs) S (Spelt n))
    (admits : r.next.Admits x) (le : bound ≤ fuel) (stops : ∀ y, S y → r.Stops y) :
    Takes bound (r.rule fuel self) (x :: xs) S (Spelt n) := by
  have none (y : Token.Content) (stop : S y) : S y ∧ r.ops.find? (·.kind = y.kind) = none :=
    ⟨stop, (stops y stop).find_none⟩
  cases r with
  | expression =>
    refine .fromHere fun c is => ?_
    have kind := Cursor.kind_of_content is
    split
    · next eq => exact absurd (kind ▸ eq) (admits.assigns (by decide))
    · exact Takes.describing h _
  | logic | chain | arithmetic | term | power => exact (Joins.first h le).joined none
  | comparison =>
    refine .fromHere fun c is => ?_
    have kind := Cursor.kind_of_content is
    split
    · next eq => exact absurd (kind ▸ eq) (admits.negates (by decide))
    · exact h
  | factor =>
    refine .fromHere fun c is => ?_
    have kind := Cursor.kind_of_content is
    split
    · next eq => exact absurd (kind ▸ eq) (admits.plus (by decide))
    · next eq => exact absurd (kind ▸ eq) (admits.minus (by decide))
    · exact h
  | call =>
    refine (Joins.first h le).called fun y stop => ⟨stop, fun eq => ?_⟩
    have below := (stops y stop).call (Token.Content.eq_symbol eq)
    omega
  | atom => exact h

theorem Rung.descend (h : Takes bound (q.rule fuel self) (x :: xs) S (Spelt n))
    (admits : q.Admits x) (le : bound ≤ fuel) (looser : r.rank ≤ q.rank)
    (stops : ∀ y, S y → r.Stops y) : Takes bound (r.rule fuel self) (x :: xs) S (Spelt n) := by
  refine Rung.ladder (P := fun r => (∀ y, S y → r.Stops y) →
    Takes bound (r.rule fuel self) (x :: xs) S (Spelt n)) (fun _ => h) ?_ looser stops
  intro r below read stops
  have next := Rung.rank_next below
  have inner := read fun y stop => (stops y stop).mono (by omega)
  exact Rung.climb inner (admits.mono (by omega)) le stops

end Climb

end ScriptLang
