import ScriptLang.Eval
import ScriptLang.Proofs.Subtree

/-! Where an error says that it was raised, and the calls it was raised under. A failure is traced
from the tree that is evaluated down to the tree, built-in function or function body that raised
it; frames and places of the error are then those of the calls on the way. -/
namespace ScriptLang

variable {σ : Type}

/-- The frame `f` is `g`, or called it, or called one that did. -/
inductive Frame.Reaches : Frame → Frame → Prop where
  | self (f : Frame) : Reaches f f
  | caller {g f : Frame} (i : Nat) (name : String) (scope : Nat) (site : Span)
    (h : Reaches g f) : Reaches (.call i name scope site g) f

namespace Frame

variable {f g h : Frame} {i scope : Nat} {name : String} {site : Span}

theorem Reaches.trans (first : h.Reaches g) (second : g.Reaches f) : h.Reaches f := by
  induction first with
  | self => exact second
  | caller i name scope site _ ih => exact .caller i name scope site (ih second)

theorem Reaches.of_call (h : g.Reaches (.call i name scope site f)) : g.Reaches f :=
  h.trans (.caller i name scope site (.self f))

theorem Reaches.trace_length (h : g.Reaches f) (place place' : Span) :
    (f.trace place).length ≤ (g.trace place').length := by
  induction h generalizing place' with
  | self f => cases f <;> simp [Frame.trace]
  | caller i name scope site _ ih => exact Nat.le_succ_of_le (ih site)

theorem Reaches.ne_of_call (h : g.Reaches (.call i name scope site f)) : g ≠ f := by
  rintro rfl
  have := h.trace_length site site
  simp only [Frame.trace, List.length_cons] at this
  omega

def outer : Frame → List (Span × String)
  | root _ _ _ => []
  | call _ _ _ site caller => caller.trace site

theorem trace_eq (f : Frame) (place : Span) : f.trace place = (place, f.name) :: f.outer := by
  cases f <;> rfl

end Frame

def Error.site? : Error → Option (Span × Frame)
  | runtime _ span frame | recursion _ span frame => some (span, frame)
  | lexical _ | grammatical _ => none

/-- The place of a tree in `n`, or the place from one operand to the other of an operator in it. -/
inductive Node.Spans (n : Tree) : Span → Prop where
  | one {q : Tree} (h : n.Contains q) : Spans n q.span
  | operands {op : BinaryOp} {l r p q : Tree} {mark : Mark} (h : n.Contains (.binary op l r mark))
    (left : l.Contains p) (right : r.Contains q) : Spans n (p.span.through q.span)

theorem Node.Spans.child {n q : Tree} (mem : q ∈ n.children) {span : Span} (h : q.Spans span) :
    n.Spans span := by
  cases h with
  | one h => exact .one (.child mem h)
  | operands h left right => exact .operands (.child mem h) left right

/-- A call that is being made: by which tree, and the name of what is called. -/
structure ActiveCall where
  tree : Tree
  name : String

/-- Failing evaluations of trees: the error, how many calls the machine counts as active, the tree,
its frame, and the calls made since, the latest first. -/
abbrev FailingTrees := Error → Nat → Tree → Frame → List ActiveCall → Prop

/-- Why a tree fails: it raises the error itself, or a tree in it does, or the body of a function
that it calls, or the body leaves its call by `BREAK` or `CONTINUE`, or a built-in function fails.
`R` has the failures of parts and bodies. -/
inductive Cause (R : FailingTrees) (e : Error) (d : Nat) (frame : Frame) :
    Tree → List ActiveCall → Prop where
  | here {node : Tree} {span : Span} (site : e.site? = some (span, frame))
    (spans : node.Spans span) : Cause R e d frame node []
  | part {node q : Tree} {calls : List ActiveCall} (mem : q ∈ node.children)
    (inner : R e d q frame calls) : Cause R e d frame node calls
  | body {callee : Tree} {args : List Tree} {mark : Mark} {i scope : Nat} {f : Function}
    {calls : List ActiveCall}
    (inner : R e (d + 1) f.body (.call i f.displayName scope mark.span frame) calls) :
    Cause R e d frame (.call callee args mark)
      (calls ++ [⟨.call callee args mark, f.displayName⟩])
  | stray {callee : Tree} {args : List Tree} {mark : Mark} {i scope : Nat} {f : Function}
    {keyword : Keyword} {origin : Span}
    (left : e = .runtime (.outsideLoop keyword) origin
      (.call i f.displayName scope mark.span frame)) :
    Cause R e d frame (.call callee args mark) [⟨.call callee args mark, f.displayName⟩]
  | builtin {callee : Tree} {args : List Tree} {mark : Mark} {i scope : Nat} {b : Builtin}
    {fault : Fault}
    (failed : e = .runtime fault mark.span (.call i b.name scope mark.span frame)) :
    Cause R e d frame (.call callee args mark) [⟨.call callee args mark, b.name⟩]

/-- With so much fuel the tree fails with the error, from a machine that counts `d` calls, and so
do the trees and bodies that it fails for; the listed calls lie between it and what raised the
error. -/
def Raised (σ : Type) (limit : Nat) : Nat → FailingTrees
  | 0, _, _, _, _, _ => False
  | fuel + 1, e, d, node, frame, calls =>
    (∃ (m m' : Machine σ) (s : Signal), m.depth = d ∧
      evaluate limit (fuel + 1) node frame m = some (s, m') ∧ s.error = some e) ∧
    Cause (Raised σ limit fuel) e d frame node calls

namespace Raised

variable {limit fuel d : Nat} {e : Error} {node : Tree} {frame : Frame} {calls : List ActiveCall}

theorem site (h : Raised σ limit fuel e d node frame calls) : ∃ span g,
    e.site? = some (span, g) ∧ g.Reaches frame ∧ (g = frame → node.Spans span) := by
  induction fuel generalizing d node frame calls with
  | zero => exact h.elim
  | succ fuel ih =>
    cases h.2 with
    | here site spans => exact ⟨_, frame, site, .self frame, fun _ => spans⟩
    | part mem inner =>
      obtain ⟨span, g, site, reaches, spans⟩ := ih inner
      exact ⟨span, g, site, reaches, fun own => (spans own).child mem⟩
    | body inner =>
      obtain ⟨span, g, site, reaches, -⟩ := ih inner
      exact ⟨span, g, site, reaches.of_call, fun own => absurd own reaches.ne_of_call⟩
    | stray left =>
      exact ⟨_, _, by rw [left]; rfl, (Frame.Reaches.self _).of_call,
        fun own => absurd own (Frame.Reaches.self _).ne_of_call⟩
    | builtin failed =>
      exact ⟨_, _, by rw [failed]; rfl, (Frame.Reaches.self _).of_call,
        fun own => absurd own (Frame.Reaches.self _).ne_of_call⟩

theorem trace (h : Raised σ limit fuel e d node frame calls) {span : Span} {g : Frame}
    (site : e.site? = some (span, g)) :
    (g.trace span).map Prod.fst = span :: calls.map (·.tree.span) ++ frame.outer.map Prod.fst ∧
    (g.trace span).map Prod.snd =
      calls.map ActiveCall.name ++ frame.name :: frame.outer.map Prod.snd := by
  induction fuel generalizing d node frame calls with
  | zero => exact h.elim
  | succ fuel ih =>
    -- the frame of a call made from here, with the place of the call in this one
    have called (i : Nat) (name : String) (scope : Nat) (mark : Mark) :
        (Frame.call i name scope mark.span frame).outer = (mark.span, frame.name) :: frame.outer :=
      frame.trace_eq mark.span
    cases h.2 with
    | here own spans =>
      cases own.symm.trans site
      simp [Frame.trace_eq]
    | part mem inner => exact ih inner
    | body inner =>
      obtain ⟨sites, names⟩ := ih inner
      rw [sites, names, called]
      simp [Frame.name, Node.span, Node.note]
    | stray left =>
      rw [left] at site
      cases site
      rw [Frame.trace_eq, called]
      simp [Frame.name, Node.span, Node.note]
    | builtin failed =>
      rw [failed] at site
      cases site
      rw [Frame.trace_eq, called]
      simp [Frame.name, Node.span, Node.note]

end Raised

end ScriptLang
