import ScriptLang.Node.Parse
import ScriptLang.Proofs.Phrase

/-! What a rule reads. A rule that succeeds has moved its cursor past some tokens, in order and
without leaving any out, whatever it tried on the way; `Rule.Sound` says what those tokens are to
the value it gives. -/
namespace ScriptLang

/-- The end is marked, by the last of the tokens and by no other. -/
def Token.Closed : List Token.Content → Prop
  | [] => False
  | [x] => x = .eof
  | x :: y :: xs => x ≠ .eof ∧ Closed (y :: xs)

namespace Token.Content

theorem eq_keyword {x : Token.Content} {k : Keyword} (h : x.kind = .keyword k) :
    x = .keyword k := by
  cases x <;> cases h
  rfl

theorem eq_symbol {x : Token.Content} {s : Symbol} (h : x.kind = .symbol s) : x = .symbol s := by
  cases x <;> cases h
  rfl

theorem eq_content {x : Token.Content} {op : BinaryOp} (h : op.kind = x.kind) :
    x = op.content := by
  cases op <;> first
    | exact eq_symbol h.symm
    | exact eq_keyword h.symm

theorem eq_newline {x : Token.Content} (h : x.kind = .newline) : x = .newline := by
  cases x <;> cases h
  rfl

theorem eq_eof {x : Token.Content} (h : x.kind = .eof) : x = .eof := by
  cases x <;> cases h
  rfl

/-- A token that says no more than its kind does, and not the end. -/
structure Fixed (x : Token.Content) : Prop where
  only : ∀ y : Token.Content, y.kind = x.kind → y = x
  more : x.kind ≠ .eof

theorem fixed_keyword (k : Keyword) : (keyword k).Fixed := ⟨fun _ => eq_keyword, nofun⟩

theorem fixed_symbol (s : Symbol) : (symbol s).Fixed := ⟨fun _ => eq_symbol, nofun⟩

theorem fixed_newline : newline.Fixed := ⟨fun _ => eq_newline, nofun⟩

end Token.Content

namespace Cursor

def rest (c : Cursor) : List Token.Content := c.current.content :: c.ahead.map Token.content

theorem rest_advance {c : Cursor} (closed : Token.Closed c.rest) (h : c.kind ≠ .eof) :
    c.rest = c.current.content :: c.advance.rest ∧ Token.Closed c.advance.rest := by
  unfold rest at closed ⊢
  unfold Cursor.advance
  cases ahead : c.ahead with
  | nil =>
    rw [ahead] at closed
    exact absurd (congrArg Token.Content.kind closed) h
  | cons t ts =>
    rw [ahead] at closed
    exact ⟨rfl, closed.2⟩

end Cursor

/-- If `p` reads something at `c`, then tokens that are `P` to it. -/
def Rule.SoundAt {α : Type} (P : List Token.Content → α → Prop) (p : Rule α) (c : Cursor) : Prop :=
  Token.Closed c.rest → ∀ a c', p c = .done a c' →
    Token.Closed c'.rest ∧ ∃ cs, c.rest = cs ++ c'.rest ∧ P cs a

def Rule.Sound {α : Type} (P : List Token.Content → α → Prop) (p : Rule α) : Prop :=
  ∀ c, p.SoundAt P c

namespace Rule

variable {α β : Type} {P : List Token.Content → α → Prop} {Q : List Token.Content → β → Prop}

theorem SoundAt.bind {p : Rule α} {f : α → Rule β} {c : Cursor} (hp : p.SoundAt P c)
    (hf : ∀ cs a, P cs a → (f a).Sound fun ds => Q (cs ++ ds)) : (p >>= f).SoundAt Q c := by
  intro closed b c' eq
  change Rule.bind p f c = .done b c' at eq
  unfold Rule.bind at eq
  cases read : p c with
  | failed e => rw [read] at eq; cases eq
  | spent => rw [read] at eq; cases eq
  | done a c₁ =>
    rw [read] at eq
    obtain ⟨closed₁, cs, rest, spelt⟩ := hp closed a c₁ read
    obtain ⟨closed', ds, rest', spelt'⟩ := hf cs a spelt c₁ closed₁ b c' eq
    refine ⟨closed', cs ++ ds, ?_, spelt'⟩
    rw [rest, rest', List.append_assoc]

theorem SoundAt.advance {x : Token.Content} {c : Cursor} {f : Token → Rule α}
    (is : c.current.content = x) (more : x.kind ≠ .eof)
    (hf : (f c.current).Sound fun cs => P (x :: cs)) : (Rule.advance >>= f).SoundAt P c := by
  intro closed a c' eq
  have unended : c.kind ≠ .eof := by
    unfold Cursor.kind Token.kind
    rw [is]
    exact more
  obtain ⟨rest, closed₁⟩ := Cursor.rest_advance closed unended
  obtain ⟨closed', cs, rest', spelt⟩ := hf c.advance closed₁ a c' eq
  refine ⟨closed', x :: cs, ?_, spelt⟩
  rw [rest, rest', is, List.cons_append]

namespace Sound

theorem pure {a : α} (h : P [] a) : (Pure.pure a : Rule α).Sound P := by
  intro c closed b c' eq
  cases eq
  exact ⟨closed, [], rfl, h⟩

theorem spent : (Rule.spent : Rule α).Sound P := fun _ _ _ _ eq => by cases eq

theorem unexpected (expected : List Token.Kind) : (Rule.unexpected expected : Rule α).Sound P :=
  fun _ _ _ _ eq => by cases eq

theorem bind {p : Rule α} {f : α → Rule β} (hp : p.Sound P)
    (hf : ∀ cs a, P cs a → (f a).Sound fun ds => Q (cs ++ ds)) : (p >>= f).Sound Q :=
  fun c => (hp c).bind hf

theorem mono {p : Rule α} {P' : List Token.Content → α → Prop} (hp : p.Sound P)
    (imp : ∀ cs a, P cs a → P' cs a) : p.Sound P' := by
  intro c closed a c' eq
  obtain ⟨closed', cs, rest, spelt⟩ := hp c closed a c' eq
  exact ⟨closed', cs, rest, imp cs a spelt⟩

theorem fromHere {f : Cursor → Rule α} (h : ∀ c, (f c).SoundAt P c) : (here >>= f).Sound P := by
  intro c closed a c' eq
  exact h c closed a c' eq

theorem ifAccept {x : Token.Content} (fixed : x.Fixed) {p q : Rule α}
    (yes : p.Sound fun cs => P (x :: cs)) (no : q.Sound P) :
    (do if ← accept x.kind then p else q : Rule α).Sound P := by
  intro c closed a c' eq
  by_cases h : c.kind = x.kind
  · have is : c.current.content = x := fixed.only _ h
    have taken : p c.advance = .done a c' := by
      change Rule.bind (accept x.kind) _ c = _ at eq
      unfold Rule.bind accept at eq
      rw [if_pos h] at eq
      exact eq
    obtain ⟨rest, closed₁⟩ := Cursor.rest_advance closed (h ▸ fixed.more)
    obtain ⟨closed', cs, rest', spelt⟩ := yes c.advance closed₁ a c' taken
    refine ⟨closed', x :: cs, ?_, spelt⟩
    rw [rest, rest', is, List.cons_append]
  · have left : q c = .done a c' := by
      change Rule.bind (accept x.kind) _ c = _ at eq
      unfold Rule.bind accept at eq
      rw [if_neg h] at eq
      exact eq
    exact no c closed a c' left

theorem expect {x : Token.Content} (fixed : x.Fixed) (expected : List Token.Kind) :
    (Rule.expect x.kind expected).Sound fun cs _ => cs = [x] := by
  intro c closed a c' eq
  unfold Rule.expect at eq
  split at eq
  · next h =>
    cases eq
    obtain ⟨rest, closed'⟩ := Cursor.rest_advance closed (h ▸ fixed.more)
    refine ⟨closed', [x], ?_, rfl⟩
    rw [rest, fixed.only _ h]
    rfl
  · cases eq

theorem name : Rule.name.Sound fun cs n => cs = [.identifier n] := by
  intro c closed n c' eq
  unfold Rule.name at eq
  split at eq
  · next content =>
    cases eq
    have more : c.kind ≠ .eof := by unfold Cursor.kind Token.kind; rw [content]; nofun
    obtain ⟨rest, closed'⟩ := Cursor.rest_advance closed more
    exact ⟨closed', _, by rw [rest, content]; rfl, rfl⟩
  · cases eq

theorem markFrom (start : Mark) : (Rule.markFrom start).Sound fun cs _ => cs = [] := by
  intro c closed m c' eq
  cases eq
  exact ⟨closed, [], rfl, rfl⟩

theorem attempt {p : Rule α} (hp : p.Sound P) :
    (Rule.attempt p).Sound fun cs a => (a = none ∧ cs = []) ∨ ∃ b, a = some b ∧ P cs b := by
  intro c closed a c' eq
  unfold Rule.attempt at eq
  cases read : p c with
  | done b c₁ =>
    rw [read] at eq
    cases eq
    obtain ⟨closed', cs, rest, spelt⟩ := hp c closed b _ read
    exact ⟨closed', cs, rest, .inr ⟨b, rfl, spelt⟩⟩
  | failed e =>
    rw [read] at eq
    cases eq
    exact ⟨closed, [], rfl, .inl ⟨rfl, rfl⟩⟩
  | spent => rw [read] at eq; cases eq

theorem describing {p : Rule α} (hp : p.Sound P) (expected : List Token.Kind) :
    (Rule.describing p expected).Sound P := by
  intro c closed a c' eq
  unfold Rule.describing at eq
  split at eq
  · cases eq
  · exact hp c closed a c' eq

end Sound

end Rule

end ScriptLang
