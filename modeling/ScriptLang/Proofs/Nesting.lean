import ScriptLang.Proofs.Nesting.Grammar
import ScriptLang.Proofs.Origin.Grammar
import ScriptLang.Proofs.Token.Tiling

/-! The places of a tree. Each construct goes from the start of a token to the end of one, and what
stands in it lies inside of it, one part behind the other. -/
namespace ScriptLang

namespace Token.Apart

variable {source : Source} {ts : List Token} {i j : Nat} {t u : Token}

theorem stop_le (h : Apart source ts) (ht : ts[i]? = some t) (hu : ts[j]? = some u) (lt : i < j) :
    t.span.stop.offset ≤ u.span.start.offset := by
  obtain ⟨hi, rfl⟩ := List.getElem?_eq_some_iff.1 ht
  obtain ⟨hj, rfl⟩ := List.getElem?_eq_some_iff.1 hu
  exact List.pairwise_iff_getElem.1 h.order i j hi hj lt

theorem start_le (h : Apart source ts) (ht : ts[i]? = some t) (hu : ts[j]? = some u) (le : i ≤ j) :
    t.span.start.offset ≤ u.span.start.offset := by
  rcases Nat.eq_or_lt_of_le le with rfl | lt
  · cases ht.symm.trans hu
    exact Nat.le_refl _
  · have := h.nonempty t (List.mem_of_getElem? ht)
    have := h.stop_le ht hu lt
    omega

theorem stop_mono (h : Apart source ts) (ht : ts[i]? = some t) (hu : ts[j]? = some u)
    (le : i ≤ j) : t.span.stop.offset ≤ u.span.stop.offset := by
  rcases Nat.eq_or_lt_of_le le with rfl | lt
  · cases ht.symm.trans hu
    exact Nat.le_refl _
  · have := h.nonempty u (List.mem_of_getElem? hu)
    have := h.stop_le ht hu lt
    omega

end Token.Apart

namespace Node

variable {source : Source} {ts : List Token} {a b a' b' lo hi : Nat} {n q : Tree}

theorem Covers.inside (apart : Token.Apart source ts) (outer : n.Covers ts a b)
    (inner : q.Covers ts a' b') (low : a ≤ a') (high : b' ≤ b) :
    n.span.start.offset ≤ q.span.start.offset ∧ q.span.stop.offset ≤ n.span.stop.offset := by
  obtain ⟨t, u, ht, hu, span⟩ := outer.span
  obtain ⟨t', u', ht', hu', span'⟩ := inner.span
  rw [span, span']
  exact ⟨apart.start_le ht ht' low, apart.stop_mono hu' hu high⟩

theorem Row.apart (apart : Token.Apart source ts) {ns : List Tree} (h : Row ts lo hi ns) :
    ns.Pairwise fun p q => p.span.stop.offset ≤ q.span.start.offset := by
  induction h with
  | nil _ => exact .nil
  | cons _ first rest ih =>
    apply List.Pairwise.cons _ ih
    intro q mem
    obtain ⟨a', b', low, -, covers⟩ := rest.covers mem
    obtain ⟨t, u, ht, hu, span⟩ := first.span
    obtain ⟨t', u', ht', hu', span'⟩ := covers.span
    rw [span, span']
    exact apart.stop_le hu ht' low

end Node

theorem nested_of_parse {source : Source} {ts : List Token} {ast : Tree}
    (scanned : scan source = .ok ts) (read : parse ts = .ok ast) : ast.Every (Node.Nested ts) := by
  have ended := ended_of_scan scanned
  cases ts with
  | nil => cases Token.closed_of_ended ended
  | cons t ts =>
    have ⟨c, done⟩ := parse_cons_eq_ok.1 read
    exact Grammar.program_nested ended (.ofTokens t ts) nofun done

/-- The span of a tree in the tree of a text begins with a token of the text and ends with one, the
spans of its children lie in it, and each child lies behind those before it. -/
theorem spans_nested {source : Source} {ts : List Token} {ast n : Tree}
    (scanned : scan source = .ok ts) (read : parse ts = .ok ast) (inside : ast.Contains n) :
    n.span.source = source ∧ (∃ t ∈ ts, n.span.start = t.span.start) ∧
    (∃ t ∈ ts, n.span.stop = t.span.stop) ∧ n.span.start.offset < n.span.stop.offset ∧
    (∀ q ∈ n.children, n.span.start.offset ≤ q.span.start.offset ∧
      q.span.stop.offset ≤ n.span.stop.offset) ∧
    n.children.Pairwise fun p q => p.span.stop.offset ≤ q.span.start.offset := by
  have apart := apart_of_scan scanned
  obtain ⟨a, b, covers, row⟩ := (nested_of_parse scanned read).contained inside
  obtain ⟨t, u, ht, hu, span⟩ := covers.span
  have first := List.mem_of_getElem? ht
  have last := List.mem_of_getElem? hu
  refine ⟨?_, ⟨t, first, by rw [span]; rfl⟩, ⟨u, last, by rw [span]; rfl⟩, ?_, ?_,
    row.apart apart⟩
  · rw [span]
    exact apart.source t first
  · rw [span]
    exact Nat.lt_of_le_of_lt (apart.start_le ht hu covers.le) (apart.nonempty u last)
  · intro q mem
    obtain ⟨a', b', low, high, inner⟩ := row.covers mem
    exact covers.inside apart inner low (Nat.lt_succ_iff.1 high)

/-- A loop with an operand in parentheses, a call, a step and an empty body, whose place is the
`END` behind it. -/
theorem spans_nested_loop : ∃ ts ast n,
    scan ⟨"loop", "FOR i = (1) TO f(2, 3) STEP 4 THEN\nEND"⟩ = .ok ts ∧ parse ts = .ok ast ∧
    ast.Contains n ∧ n.children.map (fun q => (q.span.start.offset, q.span.stop.offset)) =
      [(9, 10), (15, 22), (28, 29), (35, 38)] ∧
    n.span.source = ⟨"loop", "FOR i = (1) TO f(2, 3) STEP 4 THEN\nEND"⟩ ∧
    (∃ t ∈ ts, n.span.start = t.span.start) ∧ (∃ t ∈ ts, n.span.stop = t.span.stop) ∧
    n.span.start.offset < n.span.stop.offset ∧
    (∀ q ∈ n.children, n.span.start.offset ≤ q.span.start.offset ∧
      q.span.stop.offset ≤ n.span.stop.offset) ∧
    n.children.Pairwise fun p q => p.span.stop.offset ≤ q.span.start.offset := by
  have ⟨ts, ast, n, scanned, read, inside, found⟩ := exists_in_tree
    ⟨"loop", "FOR i = (1) TO f(2, 3) STEP 4 THEN\nEND"⟩ 5
    (fun _ n => n.children.map (fun q => (q.span.start.offset, q.span.stop.offset)) =
      [(9, 10), (15, 22), (28, 29), (35, 38)]) (by decide +kernel)
  exact ⟨ts, ast, n, scanned, read, inside, of_decide_eq_true found,
    spans_nested scanned read inside⟩

end ScriptLang
