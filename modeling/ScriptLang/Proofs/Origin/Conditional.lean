import ScriptLang.Proofs.Origin.Grammar

/-! How an `IF` is closed. Its arms and what follows them stand in the tokens one after the other,
and an `END` of its own comes last if its last body is a block. A block before the last body does
not see to that. -/
namespace ScriptLang

namespace Phrase

open Token.Content

def Begins (cs : List Token.Content) : Prop := ∃ x xs, cs = x :: xs ∧ x ≠ newline

theorem Begins.append {cs : List Token.Content} (h : Begins cs) (ds : List Token.Content) :
    Begins (cs ++ ds) := by
  have ⟨x, xs, eq, other⟩ := h
  exact ⟨x, xs ++ ds, by rw [eq]; rfl, other⟩

mutual

theorem Statement.begins : ∀ {cs n}, Statement cs n → Begins cs
  | _, _, .returns | _, _, .returnsValue _ | _, _, .continues | _, _, .breaks =>
    ⟨_, _, rfl, nofun⟩
  | _, _, .expression h => h.begins

theorem Expression.begins : ∀ {cs n}, Expression cs n → Begins cs
  | _, _, .assign _ _ => ⟨_, _, rfl, nofun⟩
  | _, _, .logic h => h.begins

theorem Logic.begins : ∀ {cs n}, Logic cs n → Begins cs
  | _, _, .one h => h.begins
  | _, _, .more left _ _ => left.begins.append _

theorem Comparison.begins : ∀ {cs n}, Comparison cs n → Begins cs
  | _, _, .not _ => ⟨_, _, rfl, nofun⟩
  | _, _, .chain h => h.begins

theorem Chain.begins : ∀ {cs n}, Chain cs n → Begins cs
  | _, _, .one h => h.begins
  | _, _, .more left _ _ => left.begins.append _

theorem Arithmetic.begins : ∀ {cs n}, Arithmetic cs n → Begins cs
  | _, _, .one h => h.begins
  | _, _, .more left _ _ => left.begins.append _

theorem Term.begins : ∀ {cs n}, Term cs n → Begins cs
  | _, _, .one h => h.begins
  | _, _, .more left _ _ => left.begins.append _

theorem Factor.begins : ∀ {cs n}, Factor cs n → Begins cs
  | _, _, .plus _ | _, _, .minus _ => ⟨_, _, rfl, nofun⟩
  | _, _, .power h => h.begins

theorem Power.begins : ∀ {cs n}, Power cs n → Begins cs
  | _, _, .one h => h.begins
  | _, _, .more left _ _ => left.begins.append _

theorem Call.begins : ∀ {cs n}, Call cs n → Begins cs
  | _, _, .atom h => h.begins
  | _, _, .call callee _ => (callee.begins.append _).append _

theorem Atom.begins : ∀ {cs n}, Atom cs n → Begins cs
  | _, _, .int _ | _, _, .float _ | _, _, .string _ | _, _, .access _ => ⟨_, _, rfl, nofun⟩
  | _, _, .parens _ | _, _, .list _ => ⟨_, _, rfl, nofun⟩
  | _, _, .cond .. | _, _, .forLoop .. | _, _, .whileLoop .. | _, _, .function .. =>
    ⟨_, _, rfl, nofun⟩

end

theorem Atom.chain {cs : List Token.Content} {n : Node Unit} (h : Atom (keyword .IF :: cs) n) :
    ∃ front ending arms block last closed, cs = front ++ ending ∧ Arms front arms block ∧
      Ending ending last closed ∧ (block = true → ending ≠ []) ∧
      n = .cond (arms.map fun a => { a with suppress := a.suppress || (!block && closed) }) last
        () := by
  generalize eq : keyword .IF :: cs = ds at h
  cases h with
  | cond h ending ended =>
    have tail := (List.cons.inj eq).2
    exact ⟨_, _, _, _, _, _, tail, h, ending, ended, rfl⟩
  | _ => cases eq

theorem Ending.closes {cs : List Token.Content} {last : Option (Otherwise (Node Unit))}
    {closed block : Bool} (h : Ending cs last closed) (ended : block = true → cs ≠ [])
    (final : (last.isNone ∧ block = true) ∨ [keyword .ELSE, newline] <+: cs) :
    ∃ inner, cs = inner ++ [keyword .END] := by
  cases h with
  | none =>
    rcases final with ⟨_, isBlock⟩ | ⟨_, eq⟩
    · exact absurd rfl (ended isBlock)
    · cases eq
  | closed => exact ⟨[], rfl⟩
  | inline h =>
    rcases final with ⟨isNone, _⟩ | ⟨rest, eq⟩
    · cases isNone
    · have ⟨x, xs, begins, other⟩ := h.begins
      rw [begins] at eq
      cases eq
      exact absurd rfl other
  | closedInline h => exact ⟨_, rfl⟩
  | block h => exact ⟨_, rfl⟩

end Phrase

/-- The tokens of an `IF`, from its first one on, are those of its arms and of what follows them;
and if its last body, after the last `THEN` or after `ELSE`, is a block, then the last of its
tokens is an `END`, which is in none of its parts. -/
theorem last_block_ended {source : Source} {ts : List Token} {ast : Tree} {arms : List (Arm Tree)}
    {last : Option (Otherwise Tree)} {mark : Mark} (scanned : scan source = .ok ts)
    (read : parse ts = .ok ast) (inside : ast.Contains (.cond arms last mark)) :
    ∃ front ending rest chain block closed,
      (ts.map Token.content).drop mark.index = .keyword .IF :: (front ++ ending) ++ rest ∧
      Phrase.Arms front chain block ∧
      Phrase.Ending ending (last.map (Otherwise.map Node.erase)) closed ∧
      arms.map (Arm.map Node.erase) =
        chain.map (fun a => { a with suppress := a.suppress || (!block && closed) }) ∧
      ((last.isNone ∧ block = true) ∨ [.keyword .ELSE, .newline] <+: ending →
        ∃ inner, ending = inner ++ [.keyword .END]) := by
  have ⟨cs, rest, tokens, atom⟩ := (settled_of_parse scanned read).contained inside
  obtain ⟨front, ending, chain, block, last', closed, rfl, harms, hending, ended, eq⟩ := atom.chain
  rw [Node.erase_cond] at eq
  injection eq with sameArms sameLast
  subst sameLast
  refine ⟨front, ending, rest, chain, block, closed, tokens, harms, hending, sameArms, ?_⟩
  intro final
  apply hending.closes ended
  rw [Option.isNone_map]
  exact final

def Node.condFrom (kinds : List Token.Kind) (ts : List Token) : Tree → Bool
  | .cond _ _ mark => kinds.isPrefixOf ((ts.map Token.kind).drop mark.index)
  | _ => false

theorem Node.condFrom_eq_true {kinds : List Token.Kind} {ts : List Token} {n : Tree}
    (h : n.condFrom kinds ts = true) : ∃ arms last mark, n = .cond arms last mark ∧
      kinds <+: (ts.map Token.kind).drop mark.index := by
  unfold condFrom at h
  split at h
  · next arms last mark => exact ⟨arms, last, mark, rfl, List.isPrefixOf_iff_prefix.1 h⟩
  · cases h

theorem last_block_ended_nested : ∃ ts ast arms last mark,
    scan ⟨"nested", "WHILE 1 THEN\nIF x THEN 1 ELSE\nIF y THEN\n2\nEND\nEND\nEND"⟩ = .ok ts ∧
    parse ts = .ok ast ∧ ast.Contains (.cond arms last mark) ∧
    ∃ front ending rest chain block closed,
      (ts.map Token.content).drop mark.index = .keyword .IF :: (front ++ ending) ++ rest ∧
      Phrase.Arms front chain block ∧
      Phrase.Ending ending (last.map (Otherwise.map Node.erase)) closed ∧
      arms.map (Arm.map Node.erase) =
        chain.map (fun a => { a with suppress := a.suppress || (!block && closed) }) ∧
      ((last.isNone ∧ block = true) ∨ [.keyword .ELSE, .newline] <+: ending →
        ∃ inner, ending = inner ++ [.keyword .END]) := by
  have ⟨ts, ast, p, scanned, read, inside, found⟩ := exists_in_tree
    ⟨"nested", "WHILE 1 THEN\nIF x THEN 1 ELSE\nIF y THEN\n2\nEND\nEND\nEND"⟩ 9
    (fun ts => Node.condFrom [.keyword .IF, .identifier, .keyword .THEN, .newline] ts)
    (by decide +kernel)
  have ⟨arms, last, mark, eq, _⟩ := Node.condFrom_eq_true found
  subst eq
  exact ⟨ts, ast, arms, last, mark, scanned, read, inside, last_block_ended scanned read inside⟩

/-- A block before an inline body after `ELSE`: the `IF` is read though there is no `END`. -/
theorem block_arm_without_end : ∃ ts ast arms last mark,
    scan ⟨"<stdin>", "IF 1 THEN\n2\nELSE 3"⟩ = .ok ts ∧ parse ts = .ok ast ∧
    ast.Contains (.cond arms last mark) ∧
    [.keyword .IF, .int, .keyword .THEN, .newline] <+: (ts.map Token.kind).drop mark.index ∧
    ∀ t ∈ ts, t.kind ≠ .keyword .END := by
  have ⟨ts, ast, p, scanned, read, inside, found⟩ := exists_in_tree
    ⟨"<stdin>", "IF 1 THEN\n2\nELSE 3"⟩ 5
    (fun ts n => n.condFrom [.keyword .IF, .int, .keyword .THEN, .newline] ts &&
      ts.all (·.kind ≠ .keyword .END)) (by decide +kernel)
  have ⟨begins, unclosed⟩ := Bool.and_eq_true_iff.1 found
  have ⟨arms, last, mark, eq, tokens⟩ := Node.condFrom_eq_true begins
  subst eq
  refine ⟨ts, ast, arms, last, mark, scanned, read, inside, tokens, ?_⟩
  intro t mem
  exact of_decide_eq_true (List.all_eq_true.1 unclosed t mem)

end ScriptLang
