import ScriptLang.Proofs.Origin.Grammar

/-! Statements that return nothing. A value behind `RETURN` that can be read is read; and what
cannot be read as a value is refused by all that stands around, unless it begins with a
parenthesis, which may be taken for the arguments of a call. -/
namespace ScriptLang

open Grammar

/-- A `RETURN` without a value comes from a `RETURN` at which reading an expression fails, and
behind which stands no token that begins an expression, other than a parenthesis. -/
theorem return_without_value {source : Source} {ts : List Token} {ast : Tree} {mark : Mark}
    (scanned : scan source = .ok ts) (read : parse ts = .ok ast)
    (inside : ast.Contains (.returns none mark)) : ∃ t u, ts[mark.index]? = some t ∧
      t.kind = .keyword .RETURN ∧ ts[mark.index + 1]? = some u ∧
      (u.kind ∈ expressionStart → u.kind = .symbol .leftParen) ∧
      ∃ k d e, d.At ts ∧ d.index = mark.index + 1 ∧ level k .expression d = .failed e := by
  have ⟨valueless, u, next, parts⟩ := (settled_of_parse scanned read).contained inside
  have ⟨t, here, is⟩ := valueless.returns
  exact ⟨t, u, here, is, next, parts, valueless.fails⟩

def Node.returnsBefore (kinds : List Token.Kind) (ts : List Token) : Tree → Bool
  | .returns none mark => (ts[mark.index + 1]?).any (·.kind ∈ kinds)
  | _ => false

theorem Node.returnsBefore_eq_true {kinds : List Token.Kind} {ts : List Token} {n : Tree}
    (h : n.returnsBefore kinds ts = true) : ∃ mark u, n = .returns none mark ∧
      ts[mark.index + 1]? = some u ∧ u.kind ∈ kinds := by
  unfold returnsBefore at h
  split at h
  · next mark =>
    have ⟨u, next, mem⟩ := (Option.any_eq_true _ _).1 h
    exact ⟨mark, u, rfl, next, of_decide_eq_true mem⟩
  · cases h

theorem return_without_value_elif : ∃ ts ast mark t u,
    scan ⟨"choice", "IF x THEN RETURN ELIF y THEN RETURN -1 ELSE 2"⟩ = .ok ts ∧
    parse ts = .ok ast ∧ ast.Contains (.returns none mark) ∧ ts[mark.index]? = some t ∧
    t.kind = .keyword .RETURN ∧ ts[mark.index + 1]? = some u ∧ u.kind = .keyword .ELIF ∧
    ∃ k d e, d.At ts ∧ d.index = mark.index + 1 ∧ level k .expression d = .failed e := by
  have ⟨ts, ast, p, scanned, read, inside, found⟩ := exists_in_tree
    ⟨"choice", "IF x THEN RETURN ELIF y THEN RETURN -1 ELSE 2"⟩ 5
    (fun ts => Node.returnsBefore [.keyword .ELIF] ts) (by decide +kernel)
  have ⟨mark, u, eq, next, mem⟩ := Node.returnsBefore_eq_true found
  subst eq
  have ⟨t, _, here, is, _, _, fails⟩ := return_without_value scanned read inside
  have elif := List.mem_singleton.1 mem
  exact ⟨ts, ast, mark, t, u, scanned, read, inside, here, is, next, elif, fails⟩

/-- A value that is no expression, `(1, 2)`, is taken for the arguments of a call of the whole
`IF`, and the `RETURN` has none. -/
theorem return_before_parenthesis : ∃ ts ast mark u,
    scan ⟨"<stdin>", "IF 1 THEN RETURN (1, 2)"⟩ = .ok ts ∧ parse ts = .ok ast ∧
    ast.Contains (.returns none mark) ∧ ts[mark.index + 1]? = some u ∧
    u.kind ∈ expressionStart := by
  have ⟨ts, ast, p, scanned, read, inside, found⟩ := exists_in_tree
    ⟨"<stdin>", "IF 1 THEN RETURN (1, 2)"⟩ 5
    (fun ts => Node.returnsBefore expressionStart ts) (by decide +kernel)
  have ⟨mark, u, eq, next, mem⟩ := Node.returnsBefore_eq_true found
  subst eq
  exact ⟨ts, ast, mark, u, scanned, read, inside, next, mem⟩

end ScriptLang
