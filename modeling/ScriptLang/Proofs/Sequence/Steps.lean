import ScriptLang.Node.Parse

/-! More steps do not change what is read. A rule with more steps does just what the rule with
fewer does, unless that one runs out of them. -/
namespace ScriptLang

/-- Wherever `p` does not run out of steps, `q` does the same. -/
def Rule.Le {α : Type} (p q : Rule α) : Prop := ∀ c, p c = .spent ∨ p c = q c

namespace Rule.Le

variable {α β : Type}

theorem refl (p : Rule α) : p.Le p := fun _ => .inr rfl

theorem spent (q : Rule α) : Rule.spent.Le q := fun _ => .inl rfl

theorem bind {p q : Rule α} {f g : α → Rule β} (hp : p.Le q) (hf : ∀ a, (f a).Le (g a)) :
    (p >>= f).Le (q >>= g) := by
  intro c
  change Rule.bind p f c = _ ∨ Rule.bind p f c = Rule.bind q g c
  unfold Rule.bind
  rcases hp c with out | same
  · rw [out]; exact .inl rfl
  · rw [← same]
    cases p c with
    | done a c' => exact hf a c'
    | failed e => exact .inr rfl
    | spent => exact .inl rfl

theorem rest (p : Rule α) {f g : α → Rule β} (hf : ∀ a, (f a).Le (g a)) :
    (p >>= f).Le (p >>= g) :=
  (refl p).bind hf

theorem ifAccept (kind : Token.Kind) {p q p' q' : Rule β} (yes : p.Le q) (no : p'.Le q') :
    (do if ← accept kind then p else p' : Rule β).Le (do if ← accept kind then q else q') :=
  rest _ fun read => by cases read <;> assumption

theorem attempt {p q : Rule α} (h : p.Le q) : (Rule.attempt p).Le (Rule.attempt q) := by
  intro c
  unfold Rule.attempt
  rcases h c with out | same
  · rw [out]; exact .inl rfl
  · rw [← same]; exact .inr rfl

theorem describing {p q : Rule α} (h : p.Le q) (expected : List Token.Kind) :
    (Rule.describing p expected).Le (Rule.describing q expected) := by
  intro c
  unfold Rule.describing
  rcases h c with out | same
  · rw [out]; exact .inl rfl
  · rw [← same]; exact .inr rfl

end Rule.Le

namespace Grammar

open Rule

theorem newlines_le {n n' : Nat} (le : n ≤ n') : (newlines n).Le (newlines n') := by
  induction n generalizing n' with
  | zero => exact .spent _
  | succ n ih =>
    obtain ⟨n', rfl⟩ := Nat.exists_eq_add_one_of_ne_zero (Nat.ne_zero_of_lt le)
    exact .ifAccept _ ((ih (by omega)).bind fun _ => .refl _) (.refl _)

theorem moreNames_le {n n' : Nat} (le : n ≤ n') : (moreNames n).Le (moreNames n') := by
  induction n generalizing n' with
  | zero => exact .spent _
  | succ n ih =>
    obtain ⟨n', rfl⟩ := Nat.exists_eq_add_one_of_ne_zero (Nat.ne_zero_of_lt le)
    exact .ifAccept _ (.rest _ fun _ => (ih (by omega)).bind fun _ => .refl _) (.refl _)

abbrev SelfLe (self self' : Level → Rule Tree) : Prop := ∀ l, (self l).Le (self' l)

section Rules

variable {k k' : Nat} {self self' : Level → Rule Tree}

theorem statement_le (hself : SelfLe self self') : (statement self).Le (statement self') := by
  refine .rest _ fun c => ?_
  split
  · exact .rest _ fun _ => (hself .expression).attempt.bind fun _ => .refl _
  · exact .refl _
  · exact .refl _
  · exact (hself .expression).describing _

theorem statementsFrom_le (hself : SelfLe self self') (le : k ≤ k') {n n' : Nat} (less : n ≤ n') :
    (statementsFrom k self n).Le (statementsFrom k' self' n') := by
  induction n generalizing n' with
  | zero => exact .spent _
  | succ n ih =>
    obtain ⟨n', rfl⟩ := Nat.exists_eq_add_one_of_ne_zero (Nat.ne_zero_of_lt less)
    refine (statement_le hself).attempt.bind fun first => ?_
    cases first with
    | none => exact .refl _
    | some first =>
      refine (newlines_le le).bind fun more => ?_
      cases more with
      | false => exact .refl _
      | true => exact (ih (by omega)).bind fun _ => .refl _

theorem statements_le (hself : SelfLe self self') (le : k ≤ k') :
    (statements k self).Le (statements k' self') :=
  .rest _ fun _ => (newlines_le le).bind fun _ => (statementsFrom_le hself le le).bind
    fun _ => .refl _

theorem closedBlock_le (hself : SelfLe self self') (le : k ≤ k') :
    (closedBlock k self).Le (closedBlock k' self') :=
  (statements_le hself le).bind fun _ => .refl _

theorem body_le (hself : SelfLe self self') (le : k ≤ k') : (body k self).Le (body k' self') :=
  .ifAccept _ ((closedBlock_le hself le).bind fun _ => .refl _)
    ((statement_le hself).bind fun _ => .refl _)

theorem otherwise_le (hself : SelfLe self self') (le : k ≤ k') :
    (otherwise k self).Le (otherwise k' self') :=
  (body_le hself le).bind fun _ => .refl _

theorem arms_le (hself : SelfLe self self') (le : k ≤ k') {n n' : Nat} (less : n ≤ n') :
    (arms k self n).Le (arms k' self' n') := by
  induction n generalizing n' with
  | zero => exact .spent _
  | succ n ih =>
    obtain ⟨n', rfl⟩ := Nat.exists_eq_add_one_of_ne_zero (Nat.ne_zero_of_lt less)
    have more : (arms k self n).Le (arms k' self' n') := ih (by omega)
    refine (hself .expression).bind fun condition => .rest _ fun _ => .ifAccept _ ?_ ?_
    · refine (statements_le hself le).bind fun _ => .ifAccept _ (.refl _) (.ifAccept _ ?_ ?_)
      · exact more.bind fun _ => .refl _
      · exact .ifAccept _ ((otherwise_le hself le).bind fun _ => .refl _) (.refl _)
    · refine (statement_le hself).bind fun _ => .ifAccept _ ?_ (.ifAccept _ ?_ (.refl _))
      · exact more.bind fun _ => .refl _
      · exact (otherwise_le hself le).bind fun _ => .refl _

theorem forLoop_le (hself : SelfLe self self') (le : k ≤ k') (start : Mark) :
    (forLoop k self start).Le (forLoop k' self' start) := by
  refine .rest _ fun _ => .rest _ fun _ => (hself .expression).bind fun _ => .rest _ fun _ => ?_
  refine (hself .expression).bind fun _ => .ifAccept _ ?_ ?_
  · refine Rule.Le.bind ((hself .expression).bind fun _ => .refl _) fun _ => ?_
    exact .rest _ fun _ => (body_le hself le).bind fun _ => .refl _
  · exact .rest _ fun _ => .rest _ fun _ => (body_le hself le).bind fun _ => .refl _

theorem whileLoop_le (hself : SelfLe self self') (le : k ≤ k') (start : Mark) :
    (whileLoop k self start).Le (whileLoop k' self' start) :=
  (hself .expression).bind fun _ => .rest _ fun _ => (body_le hself le).bind fun _ => .refl _

theorem parameters_le (le : k ≤ k') : (parameters k).Le (parameters k') := by
  refine .rest _ fun c => ?_
  split
  · exact .rest _ fun _ => (moreNames_le le).bind fun _ => .refl _
  · exact .refl _

theorem function_le (hself : SelfLe self self') (le : k ≤ k') (start : Mark) :
    (function k self start).Le (function k' self' start) := by
  refine .rest _ fun _ => (parameters_le le).bind fun _ => .ifAccept _ ?_ (.ifAccept _ ?_ ?_)
  · exact (hself .expression).bind fun _ => .refl _
  · exact (closedBlock_le hself le).bind fun _ => .refl _
  · exact .refl _

theorem moreExpressions_le (hself : SelfLe self self') {n n' : Nat} (less : n ≤ n') :
    (moreExpressions self n).Le (moreExpressions self' n') := by
  induction n generalizing n' with
  | zero => exact .spent _
  | succ n ih =>
    obtain ⟨n', rfl⟩ := Nat.exists_eq_add_one_of_ne_zero (Nat.ne_zero_of_lt less)
    refine .ifAccept _ ?_ (.refl _)
    exact (hself .expression).bind fun _ => (ih (by omega)).bind fun _ => .refl _

theorem items_le (hself : SelfLe self self') (le : k ≤ k') (close : Symbol) :
    (items k self close).Le (items k' self' close) := by
  refine .ifAccept _ (.refl _) (((hself .expression).describing _).bind fun _ => ?_)
  exact (moreExpressions_le hself le).bind fun _ => .refl _

theorem atom_le (hself : SelfLe self self') (le : k ≤ k') : (atom k self).Le (atom k' self') := by
  refine .rest _ fun c => ?_
  split
  · exact .refl _
  · exact .refl _
  · exact .refl _
  · exact .refl _
  · exact .rest _ fun _ => (hself .expression).bind fun _ => .refl _
  · exact .rest _ fun _ => (items_le hself le _).bind fun _ => .refl _
  · exact .rest _ fun _ => (arms_le hself le le).bind fun _ => .refl _
  · exact .rest _ fun _ => forLoop_le hself le _
  · exact .rest _ fun _ => whileLoop_le hself le _
  · exact .rest _ fun _ => function_le hself le _
  · exact .refl _

theorem callsFrom_le (hself : SelfLe self self') (le : k ≤ k') {n n' : Nat} (less : n ≤ n')
    (callee : Tree) : (callsFrom k self n callee).Le (callsFrom k' self' n' callee) := by
  induction n generalizing n' callee with
  | zero => exact .spent _
  | succ n ih =>
    obtain ⟨n', rfl⟩ := Nat.exists_eq_add_one_of_ne_zero (Nat.ne_zero_of_lt less)
    refine .ifAccept _ ?_ (.refl _)
    exact (items_le hself le _).bind fun _ => .rest _ fun _ => ih (by omega) _

theorem operandsFrom_le (ops : List BinaryOp) {right right' : Rule Tree} (hright : right.Le right')
    {n n' : Nat} (less : n ≤ n') (left : Tree) :
    (operandsFrom ops right n left).Le (operandsFrom ops right' n' left) := by
  induction n generalizing n' left with
  | zero => exact .spent _
  | succ n ih =>
    obtain ⟨n', rfl⟩ := Nat.exists_eq_add_one_of_ne_zero (Nat.ne_zero_of_lt less)
    refine .rest _ fun c => ?_
    dsimp only
    split
    · exact .refl _
    · exact .rest _ fun _ => hright.bind fun _ => ih (by omega) _

theorem operands_le (le : k ≤ k') {left left' right right' : Rule Tree} (hleft : left.Le left')
    (ops : List BinaryOp) (hright : right.Le right') :
    (operands k left ops right).Le (operands k' left' ops right') :=
  hleft.bind fun _ => operandsFrom_le ops hright le _

theorem factor_le (hself : SelfLe self self') (le : k ≤ k') :
    (factor k self).Le (factor k' self') := by
  refine .rest _ fun c => ?_
  split
  · exact .rest _ fun _ => (hself .factor).bind fun _ => .refl _
  · exact .rest _ fun _ => (hself .factor).bind fun _ => .refl _
  · refine operands_le le ?_ _ (hself .factor)
    exact (atom_le hself le).bind fun _ => callsFrom_le hself le le _

theorem arithmetic_le (hself : SelfLe self self') (le : k ≤ k') :
    (arithmetic k self).Le (arithmetic k' self') := by
  have term : (term k self).Le (term k' self') :=
    operands_le le (factor_le hself le) _ (factor_le hself le)
  exact operands_le le term _ term

theorem comparison_le (hself : SelfLe self self') (le : k ≤ k') :
    (comparison k self).Le (comparison k' self') := by
  refine .rest _ fun c => ?_
  split
  · exact .rest _ fun _ => (hself .comparison).bind fun _ => .refl _
  · exact operands_le le (arithmetic_le hself le) _ (arithmetic_le hself le)

theorem expression_le (hself : SelfLe self self') (le : k ≤ k') :
    (expression k self).Le (expression k' self') := by
  refine .rest _ fun c => ?_
  split
  · refine .rest _ fun _ => .rest _ fun _ => .rest _ fun _ => ?_
    exact (hself .expression).bind fun _ => .refl _
  · exact (operands_le le (comparison_le hself le) _ (comparison_le hself le)).describing _

end Rules

theorem level_le {k k' : Nat} (le : k ≤ k') : SelfLe (level k) (level k') := by
  induction k generalizing k' with
  | zero => exact fun _ => .spent _
  | succ k ih =>
    obtain ⟨k', rfl⟩ := Nat.exists_eq_add_one_of_ne_zero (Nat.ne_zero_of_lt le)
    have below : SelfLe (level k) (level k') := ih (by omega)
    intro l
    cases l with
    | expression => exact expression_le below le
    | comparison => exact comparison_le below le
    | factor => exact factor_le below le

theorem program_le {k k' : Nat} (le : k ≤ k') : (program k).Le (program k') :=
  (statements_le (level_le le) le).bind fun _ => .refl _

end Grammar

end ScriptLang
