import Mathlib.Data.List.Forall2
import ScriptLang.Node.Map

/-! Trees of one shape. Two trees match when they are the same program and the notes of their
constructs are, one by one, in a given relation. -/
namespace ScriptLang

inductive Arm.Matches {ν μ : Type} (N : ν → μ → Prop) : Arm ν → Arm μ → Prop where
  | mk {c b : ν} {d e : μ} (condition : N c d) (body : N b e) (suppress : Bool) :
    Matches N ⟨c, b, suppress⟩ ⟨d, e, suppress⟩

inductive Otherwise.Matches {ν μ : Type} (N : ν → μ → Prop) : Otherwise ν → Otherwise μ → Prop where
  | mk {b : ν} {e : μ} (body : N b e) (suppress : Bool) : Matches N ⟨b, suppress⟩ ⟨e, suppress⟩

inductive Node.Matches {α β : Type} (R : α → β → Prop) : Node α → Node β → Prop where
  | number {a : α} {b : β} (n : Number) (note : R a b) : Matches R (.number n a) (.number n b)
  | string {a : α} {b : β} (s : String) (note : R a b) : Matches R (.string s a) (.string s b)
  | list {a : α} {b : β} {es : List (Node α)} {fs : List (Node β)}
    (elements : List.Forall₂ (Matches R) es fs) (note : R a b) :
    Matches R (.list es a) (.list fs b)
  | access {a : α} {b : β} (name : String) (note : R a b) :
    Matches R (.access name a) (.access name b)
  | assign {a : α} {b : β} {v : Node α} {w : Node β} (name : String) (value : Matches R v w)
    (note : R a b) : Matches R (.assign name v a) (.assign name w b)
  | unary {a : α} {b : β} {v : Node α} {w : Node β} (op : UnaryOp) (operand : Matches R v w)
    (note : R a b) : Matches R (.unary op v a) (.unary op w b)
  | binary {a : α} {b : β} {l r : Node α} {l' r' : Node β} (op : BinaryOp) (left : Matches R l l')
    (right : Matches R r r') (note : R a b) : Matches R (.binary op l r a) (.binary op l' r' b)
  | cond {a : α} {b : β} {arms : List (Arm (Node α))} {arms' : List (Arm (Node β))}
    {last : Option (Otherwise (Node α))} {last' : Option (Otherwise (Node β))}
    (chain : List.Forall₂ (Arm.Matches (Matches R)) arms arms')
    (otherwise : Option.Rel (Otherwise.Matches (Matches R)) last last') (note : R a b) :
    Matches R (.cond arms last a) (.cond arms' last' b)
  | forLoop {a : α} {b : β} {first last body : Node α} {first' last' body' : Node β}
    {step : Option (Node α)} {step' : Option (Node β)} (name : String)
    (firsts : Matches R first first') (lasts : Matches R last last')
    (steps : Option.Rel (Matches R) step step') (bodies : Matches R body body') (suppress : Bool)
    (note : R a b) : Matches R (.forLoop name first last step body suppress a)
      (.forLoop name first' last' step' body' suppress b)
  | whileLoop {a : α} {b : β} {c body : Node α} {c' body' : Node β} (condition : Matches R c c')
    (bodies : Matches R body body') (suppress : Bool) (note : R a b) :
    Matches R (.whileLoop c body suppress a) (.whileLoop c' body' suppress b)
  | breaks {a : α} {b : β} (note : R a b) : Matches R (.breaks a) (.breaks b)
  | continues {a : α} {b : β} (note : R a b) : Matches R (.continues a) (.continues b)
  | returns {a : α} {b : β} {v : Option (Node α)} {w : Option (Node β)}
    (value : Option.Rel (Matches R) v w) (note : R a b) : Matches R (.returns v a) (.returns w b)
  | function {a : α} {b : β} {body : Node α} {body' : Node β} (name : Option String)
    (params : List String) (bodies : Matches R body body') (autoReturn : Bool) (note : R a b) :
    Matches R (.function name params body autoReturn a) (.function name params body' autoReturn b)
  | call {a : α} {b : β} {f : Node α} {g : Node β} {args : List (Node α)} {args' : List (Node β)}
    (callee : Matches R f g) (arguments : List.Forall₂ (Matches R) args args') (note : R a b) :
    Matches R (.call f args a) (.call g args' b)
  | block {a : α} {b : β} {ss : List (Node α)} {ss' : List (Node β)}
    (statements : List.Forall₂ (Matches R) ss ss') (note : R a b) :
    Matches R (.block ss a) (.block ss' b)

namespace Node

variable {α β : Type} {R : α → β → Prop}

theorem Matches.note {t : Node α} {u : Node β} (h : t.Matches R u) : R t.note u.note := by
  cases h <;> assumption

mutual

theorem Matches.erase_eq : ∀ {t : Node α} {u : Node β}, t.Matches R u → t.erase = u.erase
  | .number .., _, h => by cases h; rfl
  | .string .., _, h => by cases h; rfl
  | .list .., _, .list elements _ => by simp only [erase_list, erase_eq_list elements]
  | .access .., _, h => by cases h; rfl
  | .assign .., _, .assign _ value _ => by simp only [erase_assign, value.erase_eq]
  | .unary .., _, .unary _ operand _ => by simp only [erase_unary, operand.erase_eq]
  | .binary .., _, .binary _ left right _ => by
    simp only [erase_binary, left.erase_eq, right.erase_eq]
  | .cond .., _, .cond chain otherwise _ => by
    simp only [erase_cond, erase_eq_arms chain, erase_eq_otherwise otherwise]
  | .forLoop .., _, .forLoop _ firsts lasts steps bodies _ _ => by
    simp only [erase_forLoop, firsts.erase_eq, lasts.erase_eq, erase_eq_option steps,
      bodies.erase_eq]
  | .whileLoop .., _, .whileLoop condition bodies _ _ => by
    simp only [erase_whileLoop, condition.erase_eq, bodies.erase_eq]
  | .breaks .., _, h => by cases h; rfl
  | .continues .., _, h => by cases h; rfl
  | .returns .., _, .returns value _ => by simp only [erase_returns, erase_eq_option value]
  | .function .., _, .function _ _ bodies _ _ => by simp only [erase_function, bodies.erase_eq]
  | .call .., _, .call callee arguments _ => by
    simp only [erase_call, callee.erase_eq, erase_eq_list arguments]
  | .block .., _, .block statements _ => by simp only [erase_block, erase_eq_list statements]

theorem Matches.erase_eq_list : ∀ {ts : List (Node α)} {us : List (Node β)},
    List.Forall₂ (Matches R) ts us → ts.map erase = us.map erase
  | [], _, .nil => rfl
  | _ :: _, _, .cons head tail => by
    simp only [List.map_cons, head.erase_eq, erase_eq_list tail]

theorem Matches.erase_eq_option : ∀ {t : Option (Node α)} {u : Option (Node β)},
    Option.Rel (Matches R) t u → t.map erase = u.map erase
  | none, _, .none => rfl
  | some _, _, .some h => by simp only [Option.map_some, h.erase_eq]

theorem Matches.erase_eq_arms : ∀ {arms : List (Arm (Node α))} {arms' : List (Arm (Node β))},
    List.Forall₂ (Arm.Matches (Matches R)) arms arms' →
      arms.map (Arm.map erase) = arms'.map (Arm.map erase)
  | [], _, .nil => rfl
  | ⟨_, _, _⟩ :: _, _, .cons (.mk condition body _) tail => by
    simp only [List.map_cons, Arm.map, condition.erase_eq, body.erase_eq, erase_eq_arms tail]

theorem Matches.erase_eq_otherwise : ∀ {last : Option (Otherwise (Node α))}
    {last' : Option (Otherwise (Node β))},
    Option.Rel (Otherwise.Matches (Matches R)) last last' →
      last.map (Otherwise.map erase) = last'.map (Otherwise.map erase)
  | none, _, .none => rfl
  | some ⟨_, _⟩, _, .some (.mk body _) => by
    simp only [Option.map_some, Otherwise.map, body.erase_eq]

end

mutual

theorem Matches.refl {S : α → α → Prop} (own : ∀ a, S a a) : ∀ t : Node α, t.Matches S t
  | .number _ a => .number _ (own a)
  | .string _ a => .string _ (own a)
  | .list es a => .list (refl_list own es) (own a)
  | .access _ a => .access _ (own a)
  | .assign _ v a => .assign _ (refl own v) (own a)
  | .unary _ v a => .unary _ (refl own v) (own a)
  | .binary _ l r a => .binary _ (refl own l) (refl own r) (own a)
  | .cond arms last a => .cond (refl_arms own arms) (refl_otherwise own last) (own a)
  | .forLoop _ first last step body _ a =>
    .forLoop _ (refl own first) (refl own last) (refl_option own step) (refl own body) _ (own a)
  | .whileLoop c body _ a => .whileLoop (refl own c) (refl own body) _ (own a)
  | .breaks a => .breaks (own a)
  | .continues a => .continues (own a)
  | .returns v a => .returns (refl_option own v) (own a)
  | .function _ _ body _ a => .function _ _ (refl own body) _ (own a)
  | .call f args a => .call (refl own f) (refl_list own args) (own a)
  | .block ss a => .block (refl_list own ss) (own a)

theorem Matches.refl_list {S : α → α → Prop} (own : ∀ a, S a a) :
    ∀ ts : List (Node α), List.Forall₂ (Matches S) ts ts
  | [] => .nil
  | t :: ts => .cons (refl own t) (refl_list own ts)

theorem Matches.refl_option {S : α → α → Prop} (own : ∀ a, S a a) :
    ∀ t : Option (Node α), Option.Rel (Matches S) t t
  | none => .none
  | some t => .some (refl own t)

theorem Matches.refl_arms {S : α → α → Prop} (own : ∀ a, S a a) :
    ∀ arms : List (Arm (Node α)), List.Forall₂ (Arm.Matches (Matches S)) arms arms
  | [] => .nil
  | ⟨c, b, s⟩ :: arms => .cons (.mk (refl own c) (refl own b) s) (refl_arms own arms)

theorem Matches.refl_otherwise {S : α → α → Prop} (own : ∀ a, S a a) :
    ∀ last : Option (Otherwise (Node α)), Option.Rel (Otherwise.Matches (Matches S)) last last
  | none => .none
  | some ⟨b, s⟩ => .some (.mk (refl own b) s)

end

end Node

end ScriptLang
