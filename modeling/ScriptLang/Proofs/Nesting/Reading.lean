import ScriptLang.Proofs.Origin.Reading

/-! Which tokens a tree covers. Trees that are read one after the other cover tokens one after the
other, and a construct covers its children in their order; what a rule reads covers tokens from
where it began to before where it ended. -/
namespace ScriptLang

open Grammar

/-- The span of the tree goes from the token with number `a` to the one with number `b`. -/
structure Node.Covers (ts : List Token) (a b : Nat) (n : Tree) : Prop where
  le : a ≤ b
  span : ∃ t u, ts[a]? = some t ∧ ts[b]? = some u ∧ n.span = t.span.through u.span

def Mark.From (ts : List Token) (a : Nat) (m : Mark) : Prop :=
  ∃ t, ts[a]? = some t ∧ m.span.source = t.span.source ∧ m.span.start = t.span.start

theorem Cursor.At.mark_from {ts : List Token} {c : Cursor} (place : c.At ts) :
    c.mark.From ts c.index :=
  ⟨c.current, place.current, rfl, rfl⟩

namespace Mark.From

variable {ts : List Token} {a b k : Nat} {start : Mark} {n m : Tree}

theorem covers (h : start.From ts a) (le : a ≤ b) {u : Token} (last : ts[b]? = some u)
    (note : n.note = start.upTo u.span) : n.Covers ts a b := by
  obtain ⟨t, ht, source, first⟩ := h
  refine ⟨le, t, u, ht, last, ?_⟩
  unfold Node.span
  simp [note, Mark.upTo, Span.through, source, first]

theorem covers_through (h : start.From ts a) (last : m.Covers ts k b) (le : a ≤ b)
    (note : n.note = start.through m.note) : n.Covers ts a b := by
  obtain ⟨_, u, -, hu, span⟩ := last.span
  apply h.covers le hu
  rw [note]
  unfold Node.span at span
  simp [Mark.through, Mark.upTo, Span.through, span]

end Mark.From

/-- Trees that cover tokens one after the other, from number `lo` on and before number `hi`. -/
inductive Node.Row (ts : List Token) : Nat → Nat → List Tree → Prop where
  | nil {lo hi : Nat} (le : lo ≤ hi) : Row ts lo hi []
  | cons {lo a b hi : Nat} {n : Tree} {ns : List Tree} (le : lo ≤ a) (first : n.Covers ts a b)
    (rest : Row ts (b + 1) hi ns) : Row ts lo hi (n :: ns)

/-- The children of the tree lie in it in their order. -/
def Node.Nested (ts : List Token) (n : Tree) : Prop :=
  ∃ a b, n.Covers ts a b ∧ Node.Row ts a (b + 1) n.children

structure Node.Spread (ts : List Token) (lo hi : Nat) (ns : List Tree) : Prop where
  row : Node.Row ts lo hi ns
  every : ∀ n ∈ ns, n.Every (Node.Nested ts)

namespace Node

variable {ts : List Token} {lo mid hi a b : Nat} {n m : Tree} {ns ms : List Tree}

theorem Covers.note_from (h : n.Covers ts a b) : n.note.From ts a := by
  obtain ⟨t, u, ht, -, span⟩ := h.span
  unfold Node.span at span
  exact ⟨t, ht, by rw [span]; rfl, by rw [span]; rfl⟩

namespace Row

theorem le (h : Row ts lo hi ns) : lo ≤ hi := by
  induction h with
  | nil le => exact le
  | cons le first _ ih => have := first.le; omega

theorem widen {lo' hi' : Nat} (h : Row ts lo hi ns) (low : lo' ≤ lo) (high : hi ≤ hi') :
    Row ts lo' hi' ns := by
  induction h generalizing lo' with
  | nil le => exact .nil (by omega)
  | cons le first _ ih => exact .cons (by omega) first (ih (Nat.le_refl _) high)

theorem append (h : Row ts lo mid ns) (more : Row ts mid hi ms) : Row ts lo hi (ns ++ ms) := by
  induction h with
  | nil le => exact more.widen le (Nat.le_refl _)
  | cons le first _ ih => exact .cons le first (ih more)

theorem single (h : n.Covers ts a b) (low : lo ≤ a) (high : b < hi) : Row ts lo hi [n] :=
  .cons low h (.nil high)

theorem ends (h : Row ts lo hi (n :: ns)) : ∃ a b, lo ≤ a ∧ b < hi ∧ Row ts a (b + 1) (n :: ns) ∧
    (∃ k, n.Covers ts a k) ∧ ∃ k, ((n :: ns).getLast (by simp)).Covers ts k b := by
  induction ns generalizing lo n with
  | nil =>
    cases h with
    | cons low first rest =>
      have := rest.le
      exact ⟨_, _, low, by omega, single first (by omega) (by omega), ⟨_, first⟩, _, first⟩
  | cons m ns ih =>
    cases h with
    | cons low first rest =>
      obtain ⟨a, b, low', high, row, -, last⟩ := ih rest
      have whole := row.widen low' (Nat.le_refl (b + 1))
      exact ⟨_, b, low, high, .cons (by omega) first whole, ⟨_, first⟩, by simpa using last⟩

theorem covers (h : Row ts lo hi ns) {q : Tree} (mem : q ∈ ns) :
    ∃ a b, lo ≤ a ∧ b < hi ∧ q.Covers ts a b := by
  induction h with
  | nil _ => cases mem
  | cons low first rest ih =>
    rcases List.mem_cons.1 mem with rfl | mem
    · have := rest.le
      exact ⟨_, _, low, by omega, first⟩
    · obtain ⟨a, b, low', high, covers⟩ := ih mem
      have := first.le
      exact ⟨a, b, by omega, high, covers⟩

end Row

namespace Spread

theorem nil (le : lo ≤ hi) : Spread ts lo hi [] := ⟨.nil le, by simp⟩

theorem widen {lo' hi' : Nat} (h : Spread ts lo hi ns) (low : lo' ≤ lo) (high : hi ≤ hi') :
    Spread ts lo' hi' ns :=
  ⟨h.row.widen low high, h.every⟩

theorem append (h : Spread ts lo mid ns) (more : Spread ts mid hi ms) :
    Spread ts lo hi (ns ++ ms) := by
  refine ⟨h.row.append more.row, ?_⟩
  intro q mem
  rcases List.mem_append.1 mem with mem | mem
  · exact h.every q mem
  · exact more.every q mem

theorem cons (h : Spread ts lo mid [n]) (more : Spread ts mid hi ns) :
    Spread ts lo hi (n :: ns) :=
  h.append more

theorem node (covers : n.Covers ts a b) (inner : Spread ts a (b + 1) n.children) (low : lo ≤ a)
    (high : b < hi) : Spread ts lo hi [n] := by
  refine ⟨.single covers low high, ?_⟩
  intro q mem
  rw [List.mem_singleton.1 mem]
  exact .mk ⟨a, b, covers, inner.row⟩ inner.every

theorem covers (h : Spread ts lo hi [n]) : ∃ a b, lo ≤ a ∧ b < hi ∧ n.Covers ts a b ∧
    Spread ts a (b + 1) [n] := by
  obtain ⟨row, every⟩ := h
  cases row with
  | cons low first rest =>
    have := rest.le
    exact ⟨_, _, low, by omega, first, .single first (by omega) (by omega), every⟩

theorem spanning (h : Spread ts lo hi (m :: ms)) (children : n.children = m :: ms)
    (note : n.note = m.note.through ((m :: ms).getLast (by simp)).note) : Spread ts lo hi [n] := by
  obtain ⟨a, b, low, high, row, ⟨k, first⟩, k', last⟩ := h.row.ends
  have inner : Spread ts a (b + 1) n.children := by
    rw [children]
    exact ⟨row, h.every⟩
  apply node _ inner low high
  apply first.note_from.covers_through last _ note
  obtain ⟨a', b', low', high', covers⟩ := row.covers (List.mem_cons_self ..)
  have := covers.le
  omega

theorem prefixed {start : Mark} (first : start.From ts a) (h : Spread ts lo hi [m]) (lt : a < lo)
    (children : n.children = [m]) (note : n.note = start.through m.note) : Spread ts a hi [n] := by
  obtain ⟨k, b, low, high, covers, inner⟩ := h.covers
  have := covers.le
  apply node (first.covers_through covers (by omega) note) _ (Nat.le_refl a) high
  rw [children]
  exact inner.widen (by omega) (Nat.le_refl _)

theorem closed {start : Mark} (first : start.From ts a) (h : Spread ts a (b + 1) ms) (le : a ≤ b)
    {u : Token} (last : ts[b]? = some u) (children : n.children = ms)
    (note : n.note = start.upTo u.span) : Spread ts a (b + 1) [n] := by
  apply node (first.covers le last note) _ (Nat.le_refl a) (Nat.lt_succ_self b)
  rw [children]
  exact h

end Spread

end Node

/-- The token read last stands just before the current one. -/
def Cursor.Behind (ts : List Token) (c : Cursor) : Prop :=
  ∀ j, c.index = j + 1 → ts[j]? = some c.previous

theorem Cursor.At.behind_advance {ts : List Token} {c : Cursor} (place : c.At ts)
    (next : c.advance.index = c.index + 1) : c.advance.Behind ts := by
  have previous : c.advance.previous = c.current := by
    unfold Cursor.advance
    split <;> rfl
  intro j eq
  obtain rfl : c.index = j := by omega
  rw [previous]
  exact place.current

def Rule.SpansAt {α : Type} (ts : List Token) (P : α → Nat → Prop) (p : Rule α) (c : Cursor) :
    Prop :=
  c.Behind ts → p.ReadsAt ts (fun a c' => c'.Behind ts ∧ c.index ≤ c'.index ∧ P a c'.index) c

/-- Wherever `p` begins, what it reads is `P` to the numbers of where it began and ended. -/
def Rule.Spans {α : Type} (ts : List Token) (P : Nat → α → Nat → Prop) (p : Rule α) : Prop :=
  ∀ c, p.SpansAt ts (P c.index) c

namespace Rule.SpansAt

variable {α β : Type} {ts : List Token} {P : α → Nat → Prop} {Q : β → Nat → Prop} {c : Cursor}

theorem pure {a : α} (h : P a c.index) : (Pure.pure a : Rule α).SpansAt ts P c :=
  fun behind => .pure ⟨behind, Nat.le_refl _, h⟩

theorem spent : (Rule.spent : Rule α).SpansAt ts P c := fun _ => .spent

theorem unexpected {expected : List Token.Kind} :
    (Rule.unexpected expected : Rule α).SpansAt ts P c :=
  fun _ => .unexpected

theorem bind {p : Rule α} {f : α → Rule β} (hp : p.SpansAt ts P c)
    (hf : ∀ a d, c.index ≤ d.index → P a d.index → (f a).SpansAt ts Q d) :
    (p >>= f).SpansAt ts Q c := by
  intro behind
  apply (hp behind).bind
  rintro a d _ ⟨behind', le, ha⟩
  apply (hf a d le ha behind').mono
  rintro b c' ⟨behind'', le', hb⟩
  exact ⟨behind'', by omega, hb⟩

theorem placed {p : Rule α} (h : c.At ts → p.SpansAt ts P c) : p.SpansAt ts P c :=
  fun behind => .placed fun place => h place behind

theorem fromHere {f : Cursor → Rule α} (h : (f c).SpansAt ts P c) :
    (Rule.here >>= f).SpansAt ts P c :=
  fun behind => .fromHere (h behind)

theorem describing {p : Rule α} (hp : p.SpansAt ts P c) (expected : List Token.Kind) :
    (Rule.describing p expected).SpansAt ts P c :=
  fun behind => (hp behind).describing expected

theorem advance (ended : Token.Ended ts) (more : c.kind ≠ .eof) :
    Rule.advance.SpansAt ts (fun _ j => j = c.index + 1) c := by
  intro _ place t c' eq
  cases eq
  have next := ended.advance_index place more
  exact ⟨place.advance, place.behind_advance next, by omega, next⟩

theorem expect (ended : Token.Ended ts) {x : Token.Kind} (more : x ≠ .eof)
    {expected : List Token.Kind} :
    (Rule.expect x expected).SpansAt ts (fun _ j => j = c.index + 1) c := by
  intro behind place t c' eq
  unfold Rule.expect at eq
  split at eq
  · next is => exact advance ended (is ▸ more) behind place t c' eq
  · cases eq

theorem name (ended : Token.Ended ts) :
    Rule.name.SpansAt ts (fun _ j => j = c.index + 1) c := by
  intro behind place n c' eq
  unfold Rule.name at eq
  split at eq
  · next is =>
    cases eq
    exact advance ended (by rw [Cursor.kind_of_content is]; nofun) behind place c.current _ rfl
  · cases eq

theorem ifAccept (ended : Token.Ended ts) {x : Token.Kind} (more : x ≠ .eof) {p q : Rule α}
    (yes : ∀ d, d.index = c.index + 1 → p.SpansAt ts P d) (no : q.SpansAt ts P c) :
    (do if ← accept x then p else q : Rule α).SpansAt ts P c := by
  intro behind
  apply ReadsAt.placed
  intro place
  apply ReadsAt.ifAccept
  · intro is
    have next := ended.advance_index place (is ▸ more)
    apply (yes c.advance next (place.behind_advance next)).mono
    rintro a c' ⟨behind', le, ha⟩
    exact ⟨behind', by omega, ha⟩
  · exact no behind

theorem markFrom {k : Nat} (start : Mark) (later : c.index = k + 1) :
    (Rule.markFrom start).SpansAt ts
      (fun m j => j = k + 1 ∧ ∃ u, ts[k]? = some u ∧ m = start.upTo u.span) c := by
  intro behind place m c' eq
  cases eq
  exact ⟨place, behind, Nat.le_refl _, later, c.previous, behind k later, rfl⟩

theorem attempt {p : Rule α} (hp : p.SpansAt ts P c)
    (failing : c.At ts → ∀ e, p c = .failed e → e.At ts) :
    (Rule.attempt p).SpansAt ts (fun a j => ∀ b ∈ a, P b j) c := by
  intro behind place a c' eq
  cases read : p c with
  | done b d =>
    unfold Rule.attempt at eq
    rw [read] at eq
    cases eq
    obtain ⟨place', behind', le, hb⟩ := hp behind place b _ read
    exact ⟨place', behind', le, by rintro _ ⟨⟩; exact hb⟩
  | failed e =>
    rw [attempt_failed read] at eq
    cases eq
    refine ⟨⟨place.current, place.ahead, ?_⟩, behind, Nat.le_refl _, nofun⟩
    rintro f ⟨⟩
    exact failing place e read
  | spent =>
    rw [attempt_spent read] at eq
    cases eq

end Rule.SpansAt

end ScriptLang
