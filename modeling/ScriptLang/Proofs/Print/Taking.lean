import ScriptLang.Proofs.Phrase.Reading

/-! What a rule can be relied on to read. `Rule.Takes` says that a rule reads the given tokens,
however many follow, as long as the first of those that follow is one to stop at. Rules need as
many steps as there are tokens left, so it also bounds those. -/
namespace ScriptLang

abbrev firstOf (cs : List Token.Content) (x : Token.Content) : Token.Content := cs.headD x

/-- With at most `bound` tokens left, of which the first are `cs` and the next is one of `Stop`,
the rule reads just `cs`, and what it makes of them satisfies `V`. -/
def Rule.Takes {α : Type} (bound : Nat) (p : Rule α) (cs : List Token.Content)
    (Stop : Token.Content → Prop) (V : α → Prop) : Prop :=
  ∀ c x ds, c.rest = cs ++ x :: ds → Stop x → c.rest.length ≤ bound →
    ∃ a c', p c = .done a c' ∧ c'.rest = x :: ds ∧ V a

def Rule.Refuses {α : Type} (bound : Nat) (p : Rule α) (T : Token.Content → Prop) : Prop :=
  ∀ c : Cursor, T c.current.content → c.rest.length ≤ bound → ∃ e, p c = .failed e

theorem Cursor.content_of_rest {c : Cursor} {x : Token.Content} {xs : List Token.Content}
    (h : c.rest = x :: xs) : c.current.content = x :=
  (List.cons.inj h).1

theorem Cursor.kind_of_content {c : Cursor} {x : Token.Content} (h : c.current.content = x) :
    c.kind = x.kind :=
  congrArg Token.Content.kind h

theorem Cursor.rest_advance_of_cons {c : Cursor} {x y : Token.Content} {xs : List Token.Content}
    (h : c.rest = x :: y :: xs) : c.advance.rest = y :: xs := by
  unfold Cursor.rest at h
  obtain ⟨-, ahead⟩ := List.cons.inj h
  unfold Cursor.advance
  cases eq : c.ahead with
  | nil => rw [eq] at ahead; cases ahead
  | cons t ts => rw [eq] at ahead; exact ahead

theorem append_eq_firstOf (cs ds : List Token.Content) (x : Token.Content) :
    ∃ es, cs ++ x :: ds = firstOf cs x :: es := by
  cases cs with
  | nil => exact ⟨ds, rfl⟩
  | cons y cs => exact ⟨cs ++ x :: ds, rfl⟩

namespace Rule

variable {α β : Type} {bound : Nat} {cs ds : List Token.Content}
variable {S T : Token.Content → Prop} {V : α → Prop} {W : β → Prop}

theorem bind_done {p : Rule α} {f : α → Rule β} {c c' : Cursor} {a : α}
    (h : p c = .done a c') : (p >>= f) c = f a c' := by
  change Rule.bind p f c = _
  unfold Rule.bind
  rw [h]

namespace Takes

theorem mono {p : Rule α} {less : Nat} (h : Takes bound p cs S V) (le : less ≤ bound)
    (stop : ∀ x, T x → S x) : Takes less p cs T V :=
  fun c x es rest next short => h c x es rest (stop x next) (by omega)

theorem less {p : Rule α} (h : Takes (bound + 1) p cs S V) : Takes bound p cs S V :=
  h.mono (Nat.le_succ bound) fun _ => id

/-- Without a step nothing is to be shown, as there is always a token left. -/
theorem zero {p : Rule α} : Takes 0 p cs S V := by
  intro c x es rest _ short
  rw [rest] at short
  simp at short

theorem counted {go : Nat → Rule α} {m : Nat} (enough : bound ≤ m)
    (h : ∀ b n, bound = b + 1 → m = n + 1 → Takes (b + 1) (go (n + 1)) cs S V) :
    Takes bound (go m) cs S V := by
  cases bound with
  | zero => exact zero
  | succ b =>
    obtain ⟨n, rfl⟩ := Nat.exists_eq_add_of_le' (Nat.le_of_add_left_le enough)
    exact h b n rfl rfl

theorem pure {a : α} (h : V a) : Takes bound (Pure.pure a) [] S V :=
  fun c _ _ rest _ _ => ⟨a, c, rfl, rest, h⟩

/-- What follows has a step less for each token that was read. -/
theorem bindLess {p : Rule α} {f : α → Rule β} {less : Nat} (hp : Takes bound p cs S V)
    (le : bound ≤ less + cs.length) (next : ∀ x, T x → S (firstOf ds x))
    (hf : ∀ a, V a → Takes less (f a) ds T W) : Takes bound (p >>= f) (cs ++ ds) T W := by
  intro c x es rest stop short
  obtain ⟨fs, first⟩ := append_eq_firstOf ds es x
  have split : c.rest = cs ++ firstOf ds x :: fs := by rw [rest, List.append_assoc, first]
  obtain ⟨a, c₁, done, rest₁, value⟩ := hp c _ _ split (next x stop) short
  have short₁ : c₁.rest.length ≤ less := by
    rw [split, List.length_append] at short
    rw [rest₁]
    omega
  rw [bind_done done]
  exact hf a value c₁ x es (by rw [rest₁, first]) stop short₁

theorem bind {p : Rule α} {f : α → Rule β} (hp : Takes bound p cs S V)
    (next : ∀ x, T x → S (firstOf ds x)) (hf : ∀ a, V a → Takes bound (f a) ds T W) :
    Takes bound (p >>= f) (cs ++ ds) T W :=
  hp.bindLess (Nat.le_add_right _ _) next hf

theorem last {p : Rule α} {f : α → Rule β} (hp : Takes bound p cs S V)
    (hf : ∀ a, V a → Takes bound (f a) [] S W) : Takes bound (p >>= f) cs S W := by
  have whole := hp.bind (fun x stop => stop) hf
  rw [List.append_nil] at whole
  exact whole

theorem token {p : Rule α} {f : α → Rule β} {x : Token.Content}
    (hp : ∀ c : Cursor, c.current.content = x → ∃ a, p c = .done a c.advance ∧ V a)
    (hf : ∀ a, V a → Takes bound (f a) ds T W) : Takes (bound + 1) (p >>= f) (x :: ds) T W := by
  intro c y es rest stop short
  obtain ⟨fs, first⟩ := append_eq_firstOf ds es y
  have split : c.rest = x :: firstOf ds y :: fs := by rw [rest, List.cons_append, first]
  obtain ⟨a, done, value⟩ := hp c (Cursor.content_of_rest split)
  have rest₁ : c.advance.rest = firstOf ds y :: fs := Cursor.rest_advance_of_cons split
  have short₁ : c.advance.rest.length ≤ bound := by
    rw [split, List.length_cons] at short
    rw [rest₁]
    omega
  rw [bind_done done]
  exact hf a value _ y es (by rw [rest₁, first]) stop short₁

theorem advance {f : Token → Rule β} {x : Token.Content}
    (hf : ∀ t, Takes bound (f t) ds T W) :
    Takes (bound + 1) (Rule.advance >>= f) (x :: ds) T W :=
  token (V := fun _ => True) (fun _ _ => ⟨_, rfl, trivial⟩) fun t _ => hf t

theorem expect {f : Token → Rule β} (x : Token.Content) (expected : List Token.Kind)
    (hf : ∀ t, Takes bound (f t) ds T W) :
    Takes (bound + 1) (Rule.expect x.kind expected >>= f) (x :: ds) T W := by
  refine token (V := fun _ => True) (fun c is => ?_) fun t _ => hf t
  refine ⟨c.current, ?_, trivial⟩
  unfold Rule.expect
  rw [if_pos (Cursor.kind_of_content is)]

theorem name {f : String → Rule β} (n : String) (hf : Takes bound (f n) ds T W) :
    Takes (bound + 1) (Rule.name >>= f) (.identifier n :: ds) T W := by
  refine token (V := (· = n)) (fun c is => ⟨n, ?_, rfl⟩) fun _ eq => eq ▸ hf
  unfold Rule.name
  rw [is]

theorem markFrom {f : Mark → Rule β} (start : Mark) (hf : ∀ m, Takes bound (f m) cs T W) :
    Takes bound (Rule.markFrom start >>= f) cs T W :=
  fun c x es rest stop short => hf _ c x es rest stop short

theorem here {f : Cursor → Rule β} (hf : ∀ c, Takes bound (f c) cs T W) :
    Takes bound (Rule.here >>= f) cs T W :=
  fun c x es rest stop short => hf c c x es rest stop short

theorem fromHere {f : Cursor → Rule β} {x : Token.Content}
    (hf : ∀ c : Cursor, c.current.content = x → Takes bound (f c) (x :: cs) T W) :
    Takes bound (Rule.here >>= f) (x :: cs) T W := by
  intro c y es rest stop short
  exact hf c (Cursor.content_of_rest rest) c y es rest stop short

theorem fromStop {f : Cursor → Rule β} {x : Token.Content}
    (hf : ∀ c : Cursor, c.current.content = x → Takes bound (f c) [] (· = x) W) :
    Takes bound (Rule.here >>= f) [] (· = x) W := by
  rintro c _ es rest rfl short
  exact hf c (Cursor.content_of_rest rest) c _ es rest rfl short

theorem accepted {p q : Rule β} (x : Token.Content) (hp : Takes bound p ds T W) :
    Takes (bound + 1) (do if ← accept x.kind then p else q) (x :: ds) T W := by
  refine token (V := (· = true)) (fun c is => ⟨true, ?_, rfl⟩) ?_
  · unfold accept
    rw [if_pos (Cursor.kind_of_content is)]
  · rintro _ rfl
    exact hp

theorem declined {p q : Rule β} {k : Token.Kind} (other : ∀ x, T x → (firstOf cs x).kind ≠ k)
    (hq : Takes bound q cs T W) : Takes bound (do if ← accept k then p else q) cs T W := by
  intro c x es rest stop short
  obtain ⟨fs, first⟩ := append_eq_firstOf cs es x
  have is : c.current.content = firstOf cs x := Cursor.content_of_rest (rest.trans first)
  have done : accept k c = .done false c := by
    unfold accept
    rw [if_neg (Cursor.kind_of_content is ▸ other x stop)]
  rw [bind_done done]
  exact hq c x es rest stop short

theorem attempt {p : Rule α} (hp : Takes bound p cs S V) :
    Takes bound (Rule.attempt p) cs S fun o => ∃ a, o = some a ∧ V a := by
  intro c x es rest stop short
  obtain ⟨a, c', done, rest', value⟩ := hp c x es rest stop short
  refine ⟨some a, c', ?_, rest', a, rfl, value⟩
  unfold Rule.attempt
  rw [done]

theorem givenUp {p : Rule α} (hp : p.Refuses bound S) :
    Takes bound (Rule.attempt p) [] S fun o => o = none := by
  intro c x es rest stop short
  obtain ⟨e, failed⟩ := hp c (Cursor.content_of_rest rest ▸ stop) short
  refine ⟨none, { c with abandoned := some e }, ?_, rest, rfl⟩
  unfold Rule.attempt
  rw [failed]

theorem describing {p : Rule α} (hp : Takes bound p cs S V) (expected : List Token.Kind) :
    Takes bound (Rule.describing p expected) cs S V := by
  intro c x es rest stop short
  obtain ⟨a, c', done, reached⟩ := hp c x es rest stop short
  refine ⟨a, c', ?_, reached⟩
  unfold Rule.describing
  rw [done]

end Takes

end Rule

end ScriptLang
