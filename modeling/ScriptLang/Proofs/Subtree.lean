import ScriptLang.Proofs.Control

/-! The trees inside a tree, the bodies of its functions and loops among them. -/
namespace ScriptLang.Node

variable {α : Type} {P : Node α → Prop}

def bodies : Node α → List (Node α)
  | forLoop _ _ _ _ body _ _ | whileLoop _ body _ _ | function _ _ body _ _ => [body]
  | _ => []

def children (n : Node α) : List (Node α) := n.parts ++ n.bodies

theorem mem_children {n q : Node α} : q ∈ n.children ↔ q ∈ n.parts ∨ q ∈ n.bodies :=
  List.mem_append

inductive Contains : Node α → Node α → Prop where
  | self (n : Node α) : Contains n n
  | child {n q p : Node α} (mem : q ∈ n.children) (h : Contains q p) : Contains n p

inductive Every (P : Node α → Prop) : Node α → Prop where
  | mk {n : Node α} (own : P n) (children : ∀ q ∈ n.children, Every P q) : Every P n

namespace Every

variable {n p : Node α}

theorem own (h : n.Every P) : P n := by
  cases h with
  | mk own _ => exact own

theorem child (h : n.Every P) {q : Node α} (mem : q ∈ n.children) : q.Every P := by
  cases h with
  | mk _ children => exact children q mem

theorem contained (h : n.Every P) (inside : n.Contains p) : P p := by
  induction inside with
  | self n => exact h.own
  | child mem _ ih => exact ih (h.child mem)

end Every

def everyWithin (test : Node α → Bool) : Nat → Node α → Bool
  | 0, _ => false
  | levels + 1, n => test n && n.children.all (everyWithin test levels)

theorem Every.of_within {test : Node α → Bool} {levels : Nat} {n : Node α}
    (h : everyWithin test levels n = true) : n.Every (test · = true) := by
  induction levels generalizing n with
  | zero => cases h
  | succ levels ih =>
    unfold everyWithin at h
    have both := Bool.and_eq_true_iff.1 h
    apply Every.mk both.1
    intro q mem
    exact ih (List.all_eq_true.1 both.2 q mem)

def subtrees : Nat → Node α → List (Node α)
  | 0, _ => []
  | levels + 1, n => n :: n.children.flatMap (subtrees levels)

theorem Contains.of_mem_subtrees {levels : Nat} {n p : Node α} (h : p ∈ n.subtrees levels) :
    n.Contains p := by
  induction levels generalizing n with
  | zero => cases h
  | succ levels ih =>
    rcases List.mem_cons.1 h with rfl | inner
    · exact .self p
    · have ⟨q, mem, inside⟩ := List.mem_flatMap.1 inner
      exact .child mem (ih inside)

end ScriptLang.Node
