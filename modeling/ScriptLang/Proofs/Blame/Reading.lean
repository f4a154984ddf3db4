import ScriptLang.Proofs.Blame.Drift

/-! Reading two lists of tokens that agree up to some token, the edge. Up to it both are read in the
same way. If the first list is refused at the edge, then the second one gets past it if its token
there is among those that would have been accepted; and if it has the same token there, it is
refused as well. Readings of the first list that get past the edge are of no interest, unless they
are sent back to where they began. -/
namespace ScriptLang

open Grammar Rule

def Grammar.closers : List Token.Kind :=
  [.keyword .THEN, .keyword .TO, .symbol .rightParen, .symbol .rightBracket, .symbol .comma]

/-- A `RETURN` stands just before the token, and an expression that begins with the token fails
further on. -/
structure Token.Dangling (ts : List Token) (i : Nat) : Prop where
  returns : ∃ j t, j + 1 = i ∧ ts[j]? = some t ∧ t.kind = .keyword .RETURN
  fails : ∃ k d e, d.Poised ts ∧ d.index = i ∧ level k .expression d = .failed e ∧ i < e.index

/-- The token has the number `i` or a larger one, or an expression that begins with it fails at
such a token, perhaps by way of others. -/
inductive Token.Reaches (ts : List Token) (i : Nat) : Nat → Prop where
  | reached {j : Nat} (h : i ≤ j) : Reaches ts i j
  | back {k : Nat} {c : Cursor} {e : Failure} (poised : c.Poised ts)
    (fails : level k .expression c = .failed e) (further : c.index < e.index)
    (h : Reaches ts i e.index) : Reaches ts i c.index

theorem Token.Reaches.starts {ts : List Token} (ends : Token.Terminated ts) {i j : Nat}
    (h : Token.Reaches ts i j) (before : j < i) {t : Token} (found : ts[j]? = some t) :
    t.kind ∈ expressionStart := by
  cases h with
  | reached h => omega
  | @back k c e poised fails further h =>
    have opens := (level_begins ends k .expression c poised).2
    obtain rfl : c.current = t := Option.some.inj (poised.current.symm.trans found)
    rw [fails] at opens
    rcases opens with ⟨first, -⟩ | ⟨-, here, -⟩
    · exact first
    · omega

/-- Two lists of tokens that agree before the edge. If they do not agree at the edge either, or a
`RETURN` dangles there, then nothing but the end comes behind the edge in the second list. -/
structure Fork where
  left : List Token
  right : List Token
  edge : Nat
  here : Token
  there : Token
  same : ∀ {j : Nat}, j < edge → left[j]? = right[j]?
  here_at : left[edge]? = some here
  there_at : right[edge]? = some there
  leftEnds : Token.Terminated left
  rightEnds : Token.Terminated right
  near : here.content ≠ there.content ∨ Token.Dangling left edge →
    ∀ {j : Nat} {t : Token}, edge < j → right[j]? = some t → t.kind = .eof

namespace Fork

variable (J : Fork)

/-- At the edge the two lists may be read in different ways. -/
def Parts : Prop := J.here.content ≠ J.there.content ∨ Token.Dangling J.left J.edge

/-- Readings of the first list that are not refused at the edge. -/
def stray : Drift where
  tokens := J.left
  edge := J.edge
  Back j := j ≠ J.edge
  Fails j := Token.Reaches J.left J.edge j ∧ j ≠ J.edge
  terminated := J.leftEnds
  beyond lt := ⟨.reached (Nat.le_of_lt lt), by omega⟩
  starts lost before found := lost.1.starts J.leftEnds before found

def blocked : Drift where
  tokens := J.left
  edge := J.edge
  Back j := j ≠ J.edge
  Fails := Token.Reaches J.left J.edge
  terminated := J.leftEnds
  beyond lt := .reached (Nat.le_of_lt lt)
  starts lost before found := lost.starts J.leftEnds before found

def branch : Drift where
  tokens := J.right
  edge := J.edge
  Back _ := True
  Fails j := J.edge < j
  terminated := J.rightEnds
  beyond lt := lt
  starts lost before _ := by omega

theorem fails_of_blocked {c : Cursor} (h : J.blocked.Strayed c) : J.stray.Fails c.index := by
  obtain ⟨k, d, e, poised, index, fails, further, reaches, -⟩ := h.reading
  have back : Token.Reaches J.left J.edge d.index :=
    .back poised fails (by omega) reaches
  exact ⟨index ▸ back, h.back⟩

theorem fails_of_stray {c : Cursor} (h : J.stray.Strayed c) : J.stray.Fails c.index := by
  obtain ⟨k, d, e, poised, index, fails, further, lost, given⟩ := h.reading
  exact J.fails_of_blocked
    ⟨h.poised, h.back, k, d, e, poised, index, fails, further, lost.1, given⟩

end Fork

/-- Failures of the two readings: at the same token before the edge, or, where the first is at the
edge, the second is behind it if the first asks for the token that the second list has there. -/
inductive Failure.Forks (J : Fork) (e f : Failure) : Prop where
  | before (index : e.index = f.index) (lt : e.index < J.edge)
  | edge (index : e.index = J.edge) (past : J.there.kind ∈ e.expected → J.edge < f.index)
  | beyond (lt : J.edge < e.index)

/-- Cursors at the same token, which is not behind the edge. -/
structure Cursor.Forks (J : Fork) (c d : Cursor) : Prop where
  left : c.Poised J.left
  right : d.Poised J.right
  index : c.index = d.index
  le : c.index ≤ J.edge
  abandoned : Option.Rel (Failure.Forks J) c.abandoned d.abandoned

/-- How the two lists are read. `D` tells where a reading that went astray may end, and `view` what
is known of the value of both. -/
inductive Outcome.Forks {α σ : Type} (J : Fork) (D : Drift → Cursor → Prop) (view : α → σ) :
    Outcome α → Outcome α → Prop where
  | done {a b : α} {c d : Cursor} (value : view a = view b) (cursors : c.Forks J d) :
    Forks J D view (.done a c) (.done b d)
  | failed {e f : Failure} (left : e.At J.left) (right : f.At J.right) (failures : e.Forks J f) :
    Forks J D view (.failed e) (.failed f)
  /-- The first reading will not be refused at the edge. -/
  | stray {o : Outcome α} (h : J.stray.Lost (D J.stray) o) (o' : Outcome α) : Forks J D view o o'
  /-- The first reading was refused at the edge, the second got past it. -/
  | blocked {o : Outcome α} {b : α} {d : Cursor} (parts : J.Parts)
    (h : J.blocked.Lost (D J.blocked) o) (past : J.branch.Passed d) :
    Forks J D view o (.done b d)
  /-- The first reading stopped before the edge, the second got past it. -/
  | stopped {a : α} {c : Cursor} {o' : Outcome α} (parts : J.Parts)
    (closes : J.there.kind ∉ closers) (poised : c.Poised J.left) (index : c.index = J.edge)
    (h : J.branch.Lost (D J.branch) o') : Forks J D view (.done a c) o'
  | spent (o : Outcome α) : Forks J D view o .spent

structure Rule.Forks {α σ : Type} (J : Fork) (D : Drift → Cursor → Prop) (view : α → σ)
    (p q : Rule α) : Prop where
  left : p.Forward J.left 0
  right : q.Forward J.right 0
  forks : ∀ c d : Cursor, c.Forks J d → (p c).Forks J D view (q d)

/-- What a rule does behind readings that went astray. -/
structure Rule.Meets {α σ : Type} (J : Fork) (D E : Drift → Cursor → Prop) (view : α → σ)
    (p q : Rule α) : Prop where
  stray : ∀ c, D J.stray c → J.stray.Lost (E J.stray) (p c)
  blocked : J.Parts → ∀ c d, D J.blocked c → J.branch.Passed d → (p c).Forks J E view (q d)
  branch : J.Parts → J.there.kind ∉ closers → ∀ c d, c.Poised J.left → c.index = J.edge →
    D J.branch d → (p c).Forks J E view (q d)

abbrev Straight : Drift → Cursor → Prop := fun _ _ => False

namespace Cursor.Forks

variable {J : Fork} {c d : Cursor}

theorem content (h : c.Forks J d) (before : c.index < J.edge) :
    c.current.content = d.current.content := by
  have same := J.same before
  rw [h.left.current, h.index, h.right.current] at same
  rw [Option.some.inj same]

theorem kind (h : c.Forks J d) (before : c.index < J.edge) : c.kind = d.kind :=
  congrArg Token.Content.kind (h.content before)

theorem here (h : c.Forks J d) (at_ : c.index = J.edge) : c.current = J.here :=
  Option.some.inj (h.left.current.symm.trans (at_ ▸ J.here_at))

theorem there (h : c.Forks J d) (at_ : c.index = J.edge) : d.current = J.there := by
  have found := h.right.current
  rw [← h.index, at_, J.there_at] at found
  exact (Option.some.inj found).symm

theorem parts (h : c.Forks J d) (at_ : c.index = J.edge) (other : c.kind ≠ d.kind) : J.Parts := by
  left
  intro same
  apply other
  change c.current.content.kind = d.current.content.kind
  rw [h.here at_, h.there at_, same]

theorem failure (h : c.Forks J d) {expected : List Token.Kind}
    (out : c.index = J.edge → d.kind ∉ expected) (expected' : List Token.Kind) :
    (c.failure expected).Forks J (d.failure expected') := by
  rcases Nat.lt_or_eq_of_le h.le with before | at_
  · exact .before h.index before
  · apply Failure.Forks.edge at_
    intro mem
    have is : d.kind = J.there.kind := congrArg Token.kind (h.there at_)
    exact absurd (is ▸ mem) (out at_)

theorem advance (h : c.Forks J d) (before : c.index < J.edge) (more : c.kind ≠ .eof) :
    c.advance.Forks J d.advance where
  left := h.left.advance
  right := h.right.advance
  index := by
    rw [J.leftEnds.advance_index h.left.toAt more,
      J.rightEnds.advance_index h.right.toAt (h.kind before ▸ more), h.index]
  le := by
    rw [J.leftEnds.advance_index h.left.toAt more]
    omega
  abandoned := by
    rw [advance_abandoned, advance_abandoned]
    exact .none

theorem passed (h : c.Forks J d) (at_ : c.index = J.edge) (more : c.kind ≠ .eof) :
    J.stray.Passed c.advance :=
  .advance (W := J.stray) h.left more (Nat.le_of_eq at_.symm)

theorem passed_right (h : c.Forks J d) (at_ : c.index = J.edge) (more : d.kind ≠ .eof) :
    J.branch.Passed d.advance :=
  .advance (W := J.branch) h.right more (Nat.le_of_eq (at_.symm.trans h.index))

theorem givenUp (h : c.Forks J d) {e f : Failure} (failures : e.Forks J f)
    (left : Cursor.Poised J.left { c with abandoned := some e })
    (right : Cursor.Poised J.right { d with abandoned := some f }) :
    Cursor.Forks J { c with abandoned := some e } { d with abandoned := some f } :=
  ⟨left, right, h.index, h.le, .some failures⟩

/-- A failure here, unless a reading that was given up here had got further: then that one is passed
on. What is named here does not stand in the second list. -/
theorem deeper (h : c.Forks J d) {e f : Failure} (index : e.index = c.index)
    (index' : f.index = d.index) (left : e.At J.left) (right : f.At J.right)
    (out : c.index = J.edge → d.deeper = none → d.kind ∉ e.expected) :
    (c.deeper.getD e).At J.left ∧ (d.deeper.getD f).At J.right ∧
      (c.deeper.getD e).Forks J (d.deeper.getD f) := by
  have eq := h.left.deeper_eq J.leftEnds.ascending
  have eq' := h.right.deeper_eq J.rightEnds.ascending
  have same := h.index
  have le := h.le
  have given := h.left.abandoned
  have given' := h.right.abandoned
  have related := h.abandoned
  -- neither had got further
  have named (none : d.deeper = none) : e.Forks J f := by
    rcases Nat.lt_or_eq_of_le h.le with before | at_
    · exact .before (by omega) (by omega)
    · apply Failure.Forks.edge (index.trans at_)
      intro mem
      have is : d.kind = J.there.kind := congrArg Token.kind (h.there at_)
      exact absurd (is ▸ mem) (out at_ none)
  generalize c.abandoned = x at eq given related
  generalize d.abandoned = y at eq' given' related
  cases related with
  | none =>
    have none' : d.deeper = none := eq'
    rw [show c.deeper = none from eq, none']
    exact ⟨left, right, named none'⟩
  | @some e₁ f₁ failures =>
    have place := given e₁ rfl
    have place' := given' f₁ rfl
    by_cases further : c.index < e₁.index
    · have some_ : c.deeper = some e₁ := by rw [eq]; simp [further]
      by_cases further' : d.index < f₁.index
      · have some' : d.deeper = some f₁ := by rw [eq']; simp [further']
        rw [some_, some']
        exact ⟨place, place', failures⟩
      · have none' : d.deeper = none := by rw [eq']; simpa using further'
        rw [some_, none']
        refine ⟨place, right, ?_⟩
        cases failures with
        | before same less => omega
        | beyond less => exact .beyond less
        | edge at_ past =>
          apply Failure.Forks.edge at_
          intro mem
          have := past mem
          omega
    · have none_ : c.deeper = none := by rw [eq]; simpa using further
      by_cases further' : d.index < f₁.index
      · have some' : d.deeper = some f₁ := by rw [eq']; simp [further']
        rw [none_, some']
        refine ⟨left, place', ?_⟩
        cases failures with
        | before same less => omega
        | beyond less => omega
        | edge at_ past =>
          exact .edge (show e.index = J.edge by omega) fun _ => show J.edge < f₁.index by omega
      · have none' : d.deeper = none := by rw [eq']; simpa using further'
        rw [none_, none']
        exact ⟨left, right, named none'⟩

end Cursor.Forks

theorem Drift.Passed.eof {J : Fork} {d : Cursor} (h : J.branch.Passed d) (parts : J.Parts) :
    d.kind = .eof :=
  J.near parts h.2 h.1.current

section Edge

variable {J : Fork} {α σ : Type} {D : Drift → Cursor → Prop} {view : α → σ} {o o' : Outcome α}

theorem Outcome.Forks.reached (parts : J.Parts) (h : o.Forward J.left J.edge 0)
    (closes : J.there.kind ∉ closers ∨ o.Forward J.left J.edge 1)
    (past : J.branch.Lost (fun _ => False) o') : o.Forks J D view o' := by
  cases o with
  | spent => exact .stray (o := .spent) trivial _
  | done a c =>
    by_cases at_ : c.index = J.edge
    · have other : J.there.kind ∉ closers := by
        apply closes.resolve_right
        intro moved
        have := moved.2
        omega
      exact .stopped parts other h.1 at_ (past.mono fun _ never => never.elim)
    · have passed : J.stray.Passed c := ⟨h.1, show J.edge < c.index by have := h.2; omega⟩
      exact .stray (.passed passed) _
  | failed e =>
    by_cases at_ : e.index = J.edge
    · cases o' with
      | spent => exact .spent _
      | done b d =>
        have reaches : J.blocked.Fails e.index := .reached (Nat.le_of_eq at_.symm)
        exact .blocked parts (.failed h.1 reaches) (past.resolve_right fun never => never)
      | failed f => exact .failed h.1 past.1 (.edge at_ fun _ => past.2)
    · have beyond : J.edge < e.index := by have := h.2; omega
      exact .stray (.failed h.1 (J.stray.beyond beyond)) _

theorem Outcome.Forks.clash (parts : J.Parts) (h : J.blocked.Lost (fun _ => False) o)
    (past : J.branch.Lost (fun _ => False) o') : o.Forks J D view o' := by
  cases o with
  | spent => exact .stray (o := .spent) trivial _
  | done a c =>
    have passed : J.stray.Passed c := h.resolve_right fun never => never
    exact .stray (.passed passed) _
  | failed e =>
    by_cases at_ : e.index = J.edge
    · cases o' with
      | spent => exact .spent _
      | done b d => exact .blocked parts (.failed h.1 h.2) (past.resolve_right fun never => never)
      | failed f => exact .failed h.1 past.1 (.edge at_ fun _ => past.2)
    · have lost : J.stray.Fails e.index := ⟨h.2, at_⟩
      exact .stray (.failed h.1 lost) _

end Edge

section Bind

variable {J : Fork} {α β σ τ : Type} {D E : Drift → Cursor → Prop} {view : α → σ} {sight : β → τ}

theorem Outcome.Forks.bind {p q : Rule α} {f g : α → Rule β} {c d : Cursor}
    (hp : (p c).Forks J D view (q d)) (left : ∀ a, (f a).Forward J.left 0)
    (right : ∀ b, (g b).Forward J.right 0)
    (hf : ∀ a b c' d', view a = view b → q d = .done b d' → c'.Forks J d' →
      (f a c').Forks J E sight (g b d'))
    (meets : ∀ a b, Rule.Meets J D E sight (f a) (g b)) :
    ((p >>= f) c).Forks J E sight ((q >>= g) d) := by
  -- behind the edge, the second reading stays there
  have behind {b : α} {d' : Cursor} (past : J.branch.Passed d') :
      J.branch.Lost (fun _ => False) (g b d') := past.lost (right b)
  generalize hleft : p c = o at hp
  generalize hright : q d = o' at hp
  cases hp with
  | done value cursors =>
    rw [bind_done hleft, bind_done hright]
    exact hf _ _ _ _ value hright cursors
  | failed at_ at_' failures =>
    rw [bind_failed hleft, bind_failed hright]
    exact .failed at_ at_' failures
  | stray h =>
    rw [← hleft] at h
    exact .stray (h.bind left fun a c' strayed => (meets a a).stray c' strayed) _
  | @blocked _ b d' parts h past =>
    rw [bind_done hright]
    cases o with
    | spent =>
      rw [bind_spent hleft]
      exact .stray (o := .spent) trivial _
    | failed e =>
      rw [bind_failed hleft]
      exact .clash parts h (behind past)
    | done a c' =>
      rw [bind_done hleft]
      rcases h with passed | strayed
      · have passed : J.stray.Passed c' := passed
        exact .stray (passed.lost (left a)) _
      · exact (meets a b).blocked parts c' d' strayed past
  | @stopped a c' _ parts closes poised index h =>
    rw [bind_done hleft]
    have on := left a c' poised
    rw [index] at on
    cases o' with
    | spent =>
      rw [bind_spent hright]
      exact .spent _
    | failed e =>
      rw [bind_failed hright]
      exact .reached parts on (.inl closes) h
    | done b d' =>
      rw [bind_done hright]
      rcases h with past | strayed
      · exact .reached parts on (.inl closes) (behind past)
      · exact (meets a b).branch parts closes c' d' poised index strayed
  | spent =>
    rw [bind_spent hright]
    exact .spent _

namespace Rule.Forks

theorem bind {p q : Rule α} {f g : α → Rule β} (hp : Rule.Forks J D view p q)
    (hf : ∀ a b, view a = view b → Rule.Forks J E sight (f a) (g b))
    (meets : ∀ a b, Rule.Meets J D E sight (f a) (g b)) :
    Rule.Forks J E sight (p >>= f) (q >>= g) where
  left c := (hp.left c).bind fun a => (hf a a rfl).left
  right c := (hp.right c).bind fun a => (hf a a rfl).right
  forks c d cursors := by
    apply (hp.forks c d cursors).bind (fun a => (hf a a rfl).left) (fun a => (hf a a rfl).right) _
      meets
    exact fun a b c' d' same _ cursors => (hf a b same).forks c' d' cursors

end Rule.Forks

end Bind

namespace Rule.Meets

variable {J : Fork} {α β σ τ : Type} {D E : Drift → Cursor → Prop} {view : α → σ} {sight : β → τ}

theorem straight {p q : Rule α} : Rule.Meets J Straight E view p q where
  stray _ never := never.elim
  blocked _ _ _ never := never.elim
  branch _ _ _ _ _ _ never := never.elim

theorem pure {a b : α} : Rule.Meets J D D view (Pure.pure a : Rule α) (Pure.pure b) where
  stray _ strayed := .strayed strayed
  blocked parts _ _ strayed past := .blocked parts (.strayed strayed) past
  branch parts closes _ _ poised index strayed :=
    .stopped parts closes poised index (.strayed strayed)

theorem ifAccept (halts : ∀ W c, D W c → W.Halted c) {x : Token.Kind}
    (out : x ∉ .eof :: expressionStart) {p p' q q' : Rule α} (left : p.Forward J.left 0)
    (no : Rule.Meets J D E view p' q') :
    Rule.Meets J D E view (do if ← accept x then p else p') (do if ← accept x then q else q') := by
  have other {W : Drift} {c : Cursor} (strayed : D W c) : c.kind ≠ x :=
    (halts W c strayed).kind_ne out
  have more : x ≠ .eof := fun is => out (is ▸ List.mem_cons_self ..)
  refine ⟨?_, ?_, ?_⟩
  · intro c strayed
    rw [bind_done (accept_neg (other strayed))]
    exact no.stray c strayed
  · intro parts c d strayed past
    rw [bind_done (accept_neg (other strayed)),
      bind_done (accept_neg (by rw [past.eof parts]; exact more.symm))]
    exact no.blocked parts c d strayed past
  · intro parts closes c d poised index strayed
    rw [bind_done (accept_neg (other strayed))]
    by_cases is : c.kind = x
    · rw [bind_done (accept_pos is)]
      have passed : J.stray.Passed c.advance :=
        .advance (W := J.stray) poised (is ▸ more) (Nat.le_of_eq index.symm)
      exact .stray (passed.lost left) _
    · rw [bind_done (accept_neg is)]
      exact no.branch parts closes c d poised index strayed

theorem rests (halts : ∀ W c, D W c → W.Halted c) {x : Token.Kind}
    (out : x ∉ .eof :: expressionStart) {p q : Rule α}
    (left : ∀ c, p c = .spent ∨ (∃ a, p c = .done a c) ∨
      c.kind = x ∧ ∃ r : Rule α, r.Forward J.left 0 ∧ p c = r c.advance)
    (right : ∀ d, d.kind ≠ x → q d = .spent ∨ ∃ b, q d = .done b d) :
    Rule.Meets J D D view p q := by
  have other {W : Drift} {c : Cursor} (strayed : D W c) : c.kind ≠ x :=
    (halts W c strayed).kind_ne out
  have more : x ≠ .eof := fun is => out (is ▸ List.mem_cons_self ..)
  refine ⟨?_, ?_, ?_⟩
  · intro c strayed
    rcases left c with spent | ⟨a, done⟩ | ⟨is, -⟩
    · rw [spent]
      trivial
    · rw [done]
      exact .strayed strayed
    · exact absurd is (other strayed)
  · intro parts c d strayed past
    rcases right d (by rw [past.eof parts]; exact more.symm) with spent | ⟨b, done'⟩
    · rw [spent]
      exact .spent _
    · rcases left c with spent | ⟨a, done⟩ | ⟨is, -⟩
      · rw [spent]
        exact .stray (o := .spent) trivial _
      · rw [done, done']
        exact .blocked parts (.strayed strayed) past
      · exact absurd is (other strayed)
  · intro parts closes c d poised index strayed
    rcases left c with spent | ⟨a, done⟩ | ⟨is, r, goes, eq⟩
    · rw [spent]
      exact .stray (o := .spent) trivial _
    · rcases right d (other strayed) with spent | ⟨b, done'⟩
      · rw [spent]
        exact .spent _
      · rw [done, done']
        exact .stopped parts closes poised index (.strayed strayed)
    · have passed : J.stray.Passed c.advance :=
        .advance (W := J.stray) poised (is ▸ more) (Nat.le_of_eq index.symm)
      rw [eq]
      exact .stray (passed.lost goes) _

theorem spent {q : Rule α} : Rule.Meets J D E view (Rule.spent : Rule α) q where
  stray _ _ := trivial
  blocked _ _ _ _ _ := .stray (o := .spent) trivial _
  branch _ _ _ _ _ _ _ := .stray (o := .spent) trivial _

theorem spent_right {p : Rule α} (stray : ∀ c, D J.stray c → J.stray.Lost (E J.stray) (p c)) :
    Rule.Meets J D E view p (Rule.spent : Rule α) where
  stray := stray
  blocked _ _ _ _ _ := .spent _
  branch _ _ _ _ _ _ _ := .spent _

theorem expect {x : Token.Kind} (out : x ∉ .eof :: expressionStart) {expected : List Token.Kind}
    (closing : expected ⊆ closers) {f g : Token → Rule α}
    (left : ∀ t, (f t).Forward J.left 0) :
    Rule.Meets J Drift.Strayed E view (Rule.expect x expected >>= f)
      (Rule.expect x expected >>= g) := by
  have other {W : Drift} {c : Cursor} (strayed : W.Strayed c) : c.kind ≠ x :=
    strayed.halted.kind_ne out
  have more : x ≠ .eof := fun is => out (is ▸ List.mem_cons_self ..)
  have refused {c : Cursor} (is : c.kind ≠ x) {h : Token → Rule α} :
      (Rule.expect x expected >>= h) c = .failed (c.failure expected) :=
    bind_failed (if_neg is)
  refine ⟨?_, ?_, ?_⟩
  · intro c strayed
    rw [refused (other strayed)]
    exact .failed strayed.poised.current (J.fails_of_stray strayed)
  · intro _ c d strayed _
    rw [refused (other strayed)]
    have place : (c.failure expected).At J.stray.tokens := strayed.poised.current
    exact .stray (.failed place (J.fails_of_blocked strayed)) _
  · intro parts closes c d poised index strayed
    by_cases is : c.kind = x
    · rw [bind_done (show Rule.expect x expected c = .done c.current c.advance from if_pos is)]
      have passed : J.stray.Passed c.advance :=
        .advance (W := J.stray) poised (is ▸ more) (Nat.le_of_eq index.symm)
      exact .stray (passed.lost (left _)) _
    · rw [refused is, refused (other strayed)]
      have fails : (c.failure expected).Forks J (d.failure expected) :=
        .edge index fun mem => absurd (closing mem) closes
      exact .failed poised.current strayed.poised.current fails

/-- Where a statement was given up, what could have followed it is not asked for. -/
theorem unexpectedInSequence (halts : ∀ W c, D W c → W.Halted c) (expecting expecting' : Bool)
    (terminators : List Token.Kind) :
    Rule.Meets J D E view (Grammar.unexpectedInSequence expecting terminators : Rule α)
      (Grammar.unexpectedInSequence expecting' terminators) := by
  have thrown {W : Drift} {c : Cursor} (strayed : D W c) (expecting : Bool) :
      W.Lost (fun _ => False)
        ((Grammar.unexpectedInSequence expecting terminators : Rule α) c) := by
    obtain ⟨e, deeper, place, lost⟩ := (halts W c strayed).deeper_eq
    rw [unexpectedInSequence_eq, deeper]
    exact .failed place lost
  refine ⟨?_, ?_, ?_⟩
  · intro c strayed
    exact (thrown strayed expecting).mono fun _ never => never.elim
  · intro parts c d strayed past
    exact .clash parts (thrown strayed expecting)
      (past.lost (unexpectedInSequence_forward expecting' terminators))
  · intro parts closes c d poised index strayed
    apply Outcome.Forks.reached parts _ (.inl closes) (thrown strayed expecting')
    rw [← index]
    exact unexpectedInSequence_forward expecting terminators c poised

end Rule.Meets

namespace Rule.Forks

variable {J : Fork} {α σ : Type} {D : Drift → Cursor → Prop} {view : α → σ}

theorem pure {a b : α} (same : view a = view b) :
    Rule.Forks J D view (Pure.pure a : Rule α) (Pure.pure b) where
  left _ := .pure
  right _ := .pure
  forks _ _ cursors := .done same cursors

theorem ignored {a b : α} : Rule.Forks J D (fun _ => ()) (Pure.pure a : Rule α) (Pure.pure b) :=
  pure rfl

theorem spent {q : Rule α} (right : q.Forward J.right 0) :
    Rule.Forks J D view (Rule.spent : Rule α) q where
  left _ := .spent
  right := right
  forks _ _ _ := .stray (o := .spent) trivial _

theorem spent_right {p : Rule α} (left : p.Forward J.left 0) :
    Rule.Forks J D view p (Rule.spent : Rule α) where
  left := left
  right _ := .spent
  forks _ _ _ := .spent _

theorem markFrom {m n : Mark} :
    Rule.Forks J Straight (fun _ => ()) (Rule.markFrom m) (Rule.markFrom n) where
  left _ := .markFrom
  right _ := .markFrom
  forks _ _ cursors := .done rfl cursors

/-- A rule whose first token is looked at: at the edge, what the two lists begin with decides. -/
theorem begins {F : List Token.Kind} {s s' : Nat} {p q : Rule α} (left : p.Begins J.left F s)
    (right : q.Begins J.right F s')
    (before : ∀ c d : Cursor, c.Forks J d → c.index < J.edge → (p c).Forks J D view (q d)) :
    Rule.Forks J D view p q where
  left c := (left c).proceeds.forward (Nat.zero_le 1)
  right c := (right c).proceeds.forward (Nat.zero_le 1)
  forks c d cursors := by
    rcases Nat.lt_or_eq_of_le cursors.le with less | at_
    · exact before c d cursors less
    have reached : J.edge ≤ d.index := by have := cursors.index; omega
    by_cases first : c.kind ∈ F
    · have lost : J.stray.Lost (D J.stray) (p c) :=
        Drift.lost_of_begins (W := J.stray) (left c) cursors.left (Nat.le_of_eq at_.symm) first
      exact .stray lost _
    obtain ⟨moves, opens⟩ := left c cursors.left
    rw [at_] at moves
    by_cases first' : d.kind ∈ F
    · -- only the second list has a token that begins what is read
      have parts : J.Parts := cursors.parts at_ fun same => first (same ▸ first')
      have past : J.branch.Lost (fun _ => False) (q d) :=
        Drift.lost_of_begins (W := J.branch) (right d) cursors.right reached first'
      have moved {n : Nat} (le : n ≤ 1) : (p c).Forward J.left J.edge n :=
        moves.forward le
      exact .reached parts (moved (Nat.zero_le 1)) (.inr (moved (Nat.le_refl 1))) past
    · -- neither has, and what the first one asks for does not stand in the second list
      obtain ⟨moves', opens'⟩ := right d cursors.right
      cases read : p c with
      | spent => exact .stray (o := .spent) trivial _
      | done a c' =>
        rw [read] at opens
        exact absurd opens first
      | failed e =>
        cases read' : q d with
        | spent => exact .spent _
        | done b d' =>
          rw [read'] at opens'
          exact absurd opens' first'
        | failed f =>
          rw [read] at moves opens
          rw [read'] at moves'
          obtain ⟨-, same, asked⟩ := opens.resolve_left fun h => first h.1
          apply Outcome.Forks.failed moves.1 moves'.1
          apply Failure.Forks.edge (same.trans at_)
          intro mem
          have is : d.kind = J.there.kind := congrArg Token.kind (cursors.there at_)
          exact absurd (asked (is ▸ mem)) first'

theorem expect_at {x : Token.Kind} (more : x ≠ .eof) {expected : List Token.Kind} {c d : Cursor}
    (cursors : c.Forks J d) (out : c.index = J.edge → d.kind ≠ x → d.kind ∉ expected) :
    (Rule.expect x expected c).Forks J Straight (fun _ => ()) (Rule.expect x expected d) := by
  unfold Rule.expect
  rcases Nat.lt_or_eq_of_le cursors.le with less | at_
  · rw [← cursors.kind less]
    split
    · next is => exact .done rfl (cursors.advance less (is ▸ more))
    · exact .failed cursors.left.current cursors.right.current
        (cursors.failure (fun at_ => absurd at_ (Nat.ne_of_lt less)) _)
  · by_cases is : c.kind = x
    · rw [if_pos is]
      exact .stray (.passed (cursors.passed at_ (is ▸ more))) _
    · rw [if_neg is]
      by_cases is' : d.kind = x
      · rw [if_pos is']
        have reaches : J.blocked.Fails c.index := .reached (Nat.le_of_eq at_.symm)
        have parts : J.Parts := cursors.parts at_ (by rw [is']; exact is)
        exact .blocked parts (.failed cursors.left.current reaches)
          (cursors.passed_right at_ (is' ▸ more))
      · rw [if_neg is']
        exact .failed cursors.left.current cursors.right.current
          (cursors.failure (fun _ => out at_ is') _)

theorem expect {x : Token.Kind} (more : x ≠ .eof) :
    Rule.Forks J Straight (fun _ => ()) (Rule.expect x [x]) (Rule.expect x [x]) where
  left _ := (ForwardAt.expect J.leftEnds more).mono (Nat.zero_le 1)
  right _ := (ForwardAt.expect J.rightEnds more).mono (Nat.zero_le 1)
  forks _ _ cursors := expect_at more cursors fun _ other => by simpa using other

theorem name : Rule.Forks J Straight (fun _ => ()) Rule.name Rule.name := by
  have left : Rule.name.Begins J.left [.identifier] 0 := fun _ => .name J.leftEnds
  have right : Rule.name.Begins J.right [.identifier] 0 := fun _ => .name J.rightEnds
  apply Forks.begins left right
  intro c d cursors less
  unfold Rule.name
  rw [← cursors.content less]
  split
  · next is =>
    exact .done rfl (cursors.advance less (by rw [Cursor.kind_of_content is]; nofun))
  · exact .failed cursors.left.current cursors.right.current
      (cursors.failure (fun at_ => absurd at_ (Nat.ne_of_lt less)) _)

theorem fromHere {f g : Cursor → Rule α} (h : ∀ c d, Rule.Forks J D view (f c) (g d)) :
    Rule.Forks J D view (here >>= f) (here >>= g) where
  left c := (h c c).left c
  right c := (h c c).right c
  forks c d cursors := (h c d).forks c d cursors

/-- A token that may be read. If only the second list has it at the edge, then it is not one that
closes a construct, or else the first list is refused there. -/
theorem ifAccept_at {x : Token.Kind} (more : x ≠ .eof) {p p' q q' : Rule α} {c d : Cursor}
    (cursors : c.Forks J d) (yes : Rule.Forks J D view p q) (left : p'.ForwardAt J.left 0 c)
    (closes : x ∉ closers ∨ p'.ForwardAt J.left 1 c)
    (no : d.kind ≠ x → (p' c).Forks J D view (q' d)) :
    ((do if ← accept x then p else p' : Rule α) c).Forks J D view
      ((do if ← accept x then q else q' : Rule α) d) := by
  rcases Nat.lt_or_eq_of_le cursors.le with less | at_
  · have same := cursors.kind less
    by_cases is : c.kind = x
    · rw [bind_done (accept_pos is), bind_done (accept_pos (same ▸ is))]
      exact yes.forks _ _ (cursors.advance less (is ▸ more))
    · rw [bind_done (accept_neg is), bind_done (accept_neg (same ▸ is))]
      exact no (same ▸ is)
  · by_cases is : c.kind = x
    · rw [bind_done (accept_pos is)]
      exact .stray ((cursors.passed at_ (is ▸ more)).lost yes.left) _
    · rw [bind_done (accept_neg is)]
      by_cases is' : d.kind = x
      · rw [bind_done (accept_pos is')]
        have parts : J.Parts := cursors.parts at_ (by rw [is']; exact is)
        have past := (cursors.passed_right at_ (is' ▸ more)).lost (D := fun _ => False) yes.right
        have there : J.there.kind = x := by
          rw [← is']
          exact (congrArg Token.kind (cursors.there at_)).symm
        have moves := left cursors.left
        rw [at_] at moves
        apply Outcome.Forks.reached parts moves _ past
        rw [there, ← at_]
        exact closes.imp_right fun eager => eager cursors.left
      · rw [bind_done (accept_neg is')]
        exact no is'

theorem ifAccept {x : Token.Kind} (more : x ∉ .eof :: closers) {p p' q q' : Rule α}
    (yes : Rule.Forks J D view p q) (no : Rule.Forks J D view p' q') :
    Rule.Forks J D view (do if ← accept x then p else p') (do if ← accept x then q else q') := by
  rw [List.mem_cons, not_or] at more
  refine ⟨fun c => .ifAccept J.leftEnds more.1 yes.left (no.left c),
    fun d => .ifAccept J.rightEnds more.1 yes.right (no.right d), ?_⟩
  intro c d cursors
  exact ifAccept_at more.1 cursors yes (no.left c) (.inl more.2) fun _ => no.forks c d cursors

theorem expect_bind_at {β τ : Type} {E : Drift → Cursor → Prop} {sight : β → τ} {x : Token.Kind}
    (more : x ≠ .eof) {expected : List Token.Kind} {c d : Cursor} (cursors : c.Forks J d)
    (out : c.index = J.edge → d.kind ≠ x → d.kind ∉ expected) {f g : Token → Rule β}
    (hf : ∀ t u, Rule.Forks J E sight (f t) (g u)) :
    ((Rule.expect x expected >>= f) c).Forks J E sight ((Rule.expect x expected >>= g) d) := by
  apply (expect_at more cursors out).bind (fun t => (hf t t).left) (fun u => (hf u u).right) _
    fun _ _ => .straight
  exact fun t u c' d' _ _ cursors' => (hf t u).forks c' d' cursors'

theorem closing {β τ : Type} {E : Drift → Cursor → Prop} {sight : β → τ} {x : Token.Kind}
    (out : x ∉ .eof :: expressionStart) (closes : x ∈ closers) {p q : Rule α}
    {f g : α → Token → Rule β} (hp : Rule.Forks J Drift.Strayed view p q)
    (hf : ∀ a b, view a = view b → ∀ t u, Rule.Forks J E sight (f a t) (g b u)) :
    Rule.Forks J E sight (p >>= fun a => Rule.expect x [x] >>= f a)
      (q >>= fun b => Rule.expect x [x] >>= g b) := by
  have more : x ≠ .eof := fun is => out (is ▸ List.mem_cons_self ..)
  apply hp.bind
  · intro a b same
    exact (expect more).bind (fun t u _ => hf a b same t u) fun _ _ => .straight
  · intro a b
    exact .expect out (by simpa using closes) fun t => (hf a a rfl t t).left

theorem unexpectedInSequence_at (expecting : Bool) {terminators : List Token.Kind} {c d : Cursor}
    (cursors : c.Forks J d) (out : c.index = J.edge → d.deeper = none →
      d.kind ∉ if expecting then statementStart ++ terminators else terminators) :
    ((unexpectedInSequence expecting terminators : Rule α) c).Forks J D view
      ((unexpectedInSequence expecting terminators : Rule α) d) := by
  rw [unexpectedInSequence_eq, unexpectedInSequence_eq]
  obtain ⟨left, right, failures⟩ := cursors.deeper (e := c.failure _) (f := d.failure _) rfl rfl
    cursors.left.current cursors.right.current out
  exact .failed left right failures

end Rule.Forks

section Wrapping

variable {J : Fork} {α σ : Type} {D E : Drift → Cursor → Prop} {view : α → σ} {p q : Rule α}
variable {c d : Cursor}

theorem describing_index (expected : List Token.Kind) {e : Failure} (fails : p c = .failed e) :
    ∃ e', describing p expected c = .failed e' ∧ e'.index = e.index ∧
      (e' = e ∨ e.index = c.index ∧ e' = c.failure expected) := by
  unfold describing
  rw [fails]
  dsimp only
  split
  · next here => exact ⟨_, rfl, here.symm, .inr ⟨here, rfl⟩⟩
  · exact ⟨e, rfl, rfl, .inl rfl⟩

theorem Outcome.Forks.describing {expected : List Token.Kind} (cursors : c.Forks J d)
    (hp : (p c).Forks J D view (q d)) (right : q.Forward J.right 0)
    (out : c.index = J.edge → ∀ f, q d = .failed f → f.index = d.index → d.kind ∉ expected) :
    (Rule.describing p expected c).Forks J D view (Rule.describing q expected d) := by
  have unread {a : α} {c' : Cursor} {r : Rule α} {b : Cursor} (read : r b = .done a c') :
      Rule.describing r expected b = .done a c' := by
    unfold Rule.describing
    rw [read]
  have moves := right d cursors.right
  generalize hleft : p c = o at hp
  generalize hright : q d = o' at hp moves out
  cases hp with
  | done value same =>
    rw [unread hleft, unread hright]
    exact .done value same
  | @failed e f left at_ failures =>
    obtain ⟨e', eq, index, named⟩ := describing_index expected hleft
    obtain ⟨f', eq', index', named'⟩ := describing_index expected hright
    rw [eq, eq']
    have place : e'.At J.left := by
      rcases named with rfl | ⟨-, rfl⟩
      · exact left
      · exact cursors.left.current
    have place' : f'.At J.right := by
      rcases named' with rfl | ⟨-, rfl⟩
      · exact at_
      · exact cursors.right.current
    apply Outcome.Forks.failed place place'
    cases failures with
    | before same less => exact .before (by omega) (by omega)
    | beyond less => exact .beyond (by omega)
    | edge reached past =>
      apply Failure.Forks.edge (index.trans reached)
      intro mem
      rcases named with rfl | ⟨first, rfl⟩
      · exact index' ▸ past mem
      · -- were the second list refused at the edge, its token there would not be named
        have edge : c.index = J.edge := first.symm.trans reached
        have is : d.kind = J.there.kind := congrArg Token.kind (cursors.there edge)
        by_contra before
        have first' : f.index = d.index := by
          have := moves.2
          have := cursors.index
          omega
        exact out edge f rfl first' (is ▸ mem)
  | stray h =>
    rw [← hleft] at h
    exact .stray (h.described cursors.left.toAt expected) _
  | blocked parts h past =>
    rw [← hleft] at h
    rw [unread hright]
    exact .blocked parts (h.described cursors.left.toAt expected) past
  | stopped parts closes poised index h =>
    rw [← hright] at h
    rw [unread hleft]
    exact .stopped parts closes poised index (h.described cursors.right.toAt expected)
  | spent =>
    have out : Rule.describing q expected d = .spent := by
      unfold Rule.describing
      rw [hright]
    rw [out]
    exact .spent _

/-- A reading that fails at its first token stands at the edge: before it every token could begin
an expression. -/
theorem Cursor.Forks.refused {F : List Token.Kind} {e : Failure} (cursors : c.Forks J d)
    (opened : (Outcome.failed e : Outcome α).Opens F c) (starts : expressionStart ⊆ F)
    (lost : J.blocked.Fails e.index) :
    c.index < e.index ∨ c.index = J.edge ∧ e.index = J.edge := by
  have le := cursors.le
  rcases opened with ⟨-, further⟩ | ⟨out, first, -⟩
  · exact .inl further
  · right
    by_contra before
    have reaches : J.blocked.Fails c.index := first ▸ lost
    exact out (starts (J.blocked.starts reaches (show c.index < J.edge by omega)
      cursors.left.current))

theorem Cursor.Forks.putBack {s s' : Nat} {e : Failure} {b : α} {d' : Cursor}
    (cursors : c.Forks J d)
    (moves : (Outcome.failed e : Outcome α).Proceeds J.left c.index 1 s)
    (moves' : (Outcome.done b d').Proceeds J.right d.index 1 s')
    (opens : d.kind ∉ closers) (at_ : c.index = J.edge) (parts : J.Parts) :
    (Outcome.done none { c with abandoned := some e }).Forks J E Option.isSome
      (.done (some b) d') := by
  have index := cursors.index
  have is : d.kind = J.there.kind := congrArg Token.kind (cursors.there at_)
  have past : J.branch.Passed d' := by
    have := moves'.2
    exact ⟨moves'.1, show J.edge < d'.index by omega⟩
  exact .stopped parts (is ▸ opens) (cursors.left.givenUp_at moves) at_ (.passed past)

/-- A reading that may be given up. If the first one fails past its first token, the cursor is put
back and is astray, unless it stands at the edge. -/
theorem Outcome.Forks.attempt {F : List Token.Kind} {s s' : Nat} (cursors : c.Forks J d)
    (hp : (p c).Forks J D view (q d)) (left : p.BeginsAt J.left F s c)
    (right : q.BeginsAt J.right F s' d) (starts : expressionStart ⊆ F)
    (opens : ∀ x ∈ F, x ∉ closers) (weaker : ∀ W c, D W c → E W c)
    (away : ∀ e, p c = .failed e → c.index < e.index →
      (J.stray.Fails e.index → E J.stray { c with abandoned := some e }) ∧
      (J.blocked.Fails e.index → E J.blocked { c with abandoned := some e }) ∨
        c.index = J.edge ∧ J.Parts)
    (back : ∀ f, q d = .failed f → d.index < f.index → J.edge < f.index →
      E J.branch { d with abandoned := some f }) :
    (Rule.attempt p c).Forks J E Option.isSome (Rule.attempt q d) := by
  obtain ⟨moves, opened⟩ := left cursors.left
  obtain ⟨moves', opened'⟩ := right cursors.right
  have index := cursors.index
  have le := cursors.le
  have refused {e : Failure} (fails : p c = .failed e) :=
    cursors.refused (fails ▸ opened) starts
  have stopped {e : Failure} {b : α} {d' : Cursor} (fails : p c = .failed e)
      (read : q d = .done b d') (at_ : c.index = J.edge) (parts : J.Parts) :
      (Rule.attempt p c).Forks J E Option.isSome (Rule.attempt q d) := by
    rw [fails] at moves
    rw [read] at moves' opened'
    rw [attempt_failed fails, attempt_done read]
    exact cursors.putBack moves moves' (opens _ opened') at_ parts
  have both {e f : Failure} (fails : p c = .failed e) (fails' : q d = .failed f)
      (failures : e.Forks J f) :
      (Rule.attempt p c).Forks J E Option.isSome (Rule.attempt q d) := by
    rw [fails] at moves
    rw [fails'] at moves'
    rw [attempt_failed fails, attempt_failed fails']
    exact .done rfl (cursors.givenUp failures (cursors.left.givenUp_at moves)
      (cursors.right.givenUp_at moves'))
  generalize hleft : p c = o at hp
  generalize hright : q d = o' at hp
  cases hp with
  | done value same =>
    rw [attempt_done hleft, attempt_done hright]
    exact .done rfl same
  | failed place place' failures => exact both hleft hright failures
  | spent =>
    rw [attempt_spent hright]
    exact .spent _
  | stray h =>
    cases o with
    | spent =>
      rw [attempt_spent hleft]
      exact .stray (o := .spent) trivial _
    | done a c' =>
      rw [attempt_done hleft]
      exact .stray (h.value (weaker _) _) _
    | failed e =>
      have further : c.index < e.index :=
        (refused hleft h.2.1).resolve_right fun at_ => h.2.2 at_.2
      rcases away e hleft further with ⟨astray, -⟩ | ⟨at_, parts⟩
      · rw [attempt_failed hleft]
        exact .stray (.strayed (astray h.2)) _
      · cases o' with
        | spent =>
          rw [attempt_spent hright]
          exact .spent _
        | done b d' => exact stopped hleft hright at_ parts
        | failed f => exact both hleft hright (.beyond (by omega))
  | blocked parts h past =>
    cases o with
    | spent =>
      rw [attempt_spent hleft]
      exact .stray (o := .spent) trivial _
    | done a c' =>
      rw [attempt_done hleft, attempt_done hright]
      exact .blocked parts (h.value (weaker _) _) past
    | failed e =>
      rcases refused hleft h.2 with further | at_
      · rcases away e hleft further with ⟨-, astray⟩ | ⟨at_, -⟩
        · rw [attempt_failed hleft, attempt_done hright]
          exact .blocked parts (.strayed (astray h.2)) past
        · exact stopped hleft hright at_ parts
      · exact stopped hleft hright at_.1 parts
  | stopped parts closes poised at_ h =>
    rw [attempt_done hleft]
    cases o' with
    | spent =>
      rw [attempt_spent hright]
      exact .spent _
    | done b d' =>
      rw [attempt_done hright]
      exact .stopped parts closes poised at_ (h.value (weaker _) _)
    | failed f =>
      rw [attempt_failed hright]
      have past : J.edge < f.index := h.2
      exact .stopped parts closes poised at_ (.strayed (back f hright (by omega) past))

end Wrapping

end ScriptLang
