import ScriptLang.Proofs.Layout.Reading

/-! Every rule of the grammar reads two lists of tokens alike that differ in nothing but places. -/
namespace ScriptLang.Grammar

open Rule

def SameTree (t u : Tree) : Prop := t.bare = u.bare

def SameTrees (ts us : List Tree) : Prop := ts.map Node.bare = us.map Node.bare

theorem SameTrees.cons {t u : Tree} {ts us : List Tree} (head : SameTree t u)
    (tail : SameTrees ts us) : SameTrees (t :: ts) (u :: us) := by
  unfold SameTrees SameTree at *
  rw [List.map_cons, List.map_cons, head, tail]

theorem sequenceMark_bare {m n : Mark} {ts us : List Tree} (start : m.bare = n.bare)
    (same : SameTrees ts us) : (sequenceMark m ts).bare = (sequenceMark n us).bare := by
  have mark (m : Mark) (ts : List Tree) : (sequenceMark m ts).bare =
      ((ts.map Node.bare).head?.map fun t => t.note).getD m.bare := by
    unfold sequenceMark
    cases ts with
    | nil => rfl
    | cons t ts =>
      obtain ⟨last, eq⟩ : ∃ last, (t :: ts).getLast? = some last :=
        ⟨_, List.getLast?_eq_some_getLast (List.cons_ne_nil t ts)⟩
      simp [eq]
  rw [mark, mark, start, same]

section Rules

variable {ts us : List Token} {fuel : Nat} {self : Level → Rule Tree}

theorem newlines_alike (twin : Token.Twin ts us) (n : Nat) :
    Rule.Alike ts us Eq (newlines n) (newlines n) := by
  induction n with
  | zero => exact .spent
  | succ n ih => exact .ifAccept twin _ (ih.bind fun _ _ _ => .pure rfl) (.pure rfl)

theorem unexpectedInSequence_alike {α : Type} {V : α → α → Prop} (twin : Token.Twin ts us)
    (expecting : Bool) (terminators : List Token.Kind) :
    Rule.Alike ts us V (unexpectedInSequence expecting terminators)
      (unexpectedInSequence expecting terminators) := by
  refine .fromHere fun c d cursors => ?_
  rcases cursors.deeper twin with ⟨left, right⟩ | ⟨e, f, left, right, alike⟩
  · rw [left, right]; exact .unexpected _
  · rw [left, right]; exact .thrown alike

abbrev SelfAlike (ts us : List Token) (self : Level → Rule Tree) : Prop :=
  ∀ l, Rule.Alike ts us SameTree (self l) (self l)

theorem statement_alike (twin : Token.Twin ts us) (hself : SelfAlike ts us self) :
    Rule.Alike ts us SameTree (statement self) (statement self) := by
  refine .fromHere fun c d cursors => ?_
  have mark := cursors.mark
  rw [cursors.kind twin]
  split
  · refine (Rule.Alike.advance twin).bind fun _ _ _ => ?_
    refine (hself .expression).attempt.bind fun a b same => ?_
    cases same with
    | none => exact .pure (by simp [SameTree, mark])
    | @some a b same =>
      have same : a.bare = b.bare := same
      exact .pure (by simp [SameTree, mark, same])
  · exact (Rule.Alike.advance twin).bind fun _ _ _ => .pure (by simp [SameTree, mark])
  · exact (Rule.Alike.advance twin).bind fun _ _ _ => .pure (by simp [SameTree, mark])
  · exact (hself .expression).describing _

theorem statementsFrom_alike (twin : Token.Twin ts us) (hself : SelfAlike ts us self) (n : Nat) :
    Rule.Alike ts us (fun x y => SameTrees x.1 y.1 ∧ x.2 = y.2)
      (statementsFrom fuel self n) (statementsFrom fuel self n) := by
  induction n with
  | zero => exact .spent
  | succ n ih =>
    refine (statement_alike twin hself).attempt.bind fun a b same => ?_
    cases same with
    | none => exact .pure ⟨rfl, rfl⟩
    | some same =>
      refine (newlines_alike twin fuel).bind ?_
      rintro more _ rfl
      cases more with
      | false => exact .pure ⟨.cons same rfl, rfl⟩
      | true =>
        refine ih.bind ?_
        rintro ⟨rest, expecting⟩ ⟨rest', _⟩ ⟨tail, rfl⟩
        exact .pure ⟨.cons same tail, rfl⟩

theorem statements_alike (twin : Token.Twin ts us) (hself : SelfAlike ts us self) :
    Rule.Alike ts us (fun x y => SameTree x.1 y.1 ∧ x.2 = y.2)
      (statements fuel self) (statements fuel self) := by
  refine .fromHere fun c d cursors => ?_
  refine (newlines_alike twin fuel).bind fun _ _ _ => ?_
  refine (statementsFrom_alike twin hself fuel).bind ?_
  rintro ⟨nodes, expecting⟩ ⟨nodes', _⟩ ⟨same, rfl⟩
  have mark := sequenceMark_bare cursors.mark same
  exact .pure ⟨by simp only [SameTree, Node.bare_block, mark]; rw [same], rfl⟩

theorem closedBlock_alike (twin : Token.Twin ts us) (hself : SelfAlike ts us self) :
    Rule.Alike ts us SameTree (closedBlock fuel self) (closedBlock fuel self) := by
  refine (statements_alike twin hself).bind ?_
  rintro ⟨node, expecting⟩ ⟨node', _⟩ ⟨same, rfl⟩
  exact .ifAccept twin _ (.pure same) (unexpectedInSequence_alike twin _ _)

theorem body_alike (twin : Token.Twin ts us) (hself : SelfAlike ts us self) :
    Rule.Alike ts us (fun x y => SameTree x.1 y.1 ∧ x.2 = y.2)
      (body fuel self) (body fuel self) := by
  refine .ifAccept twin _ ((closedBlock_alike twin hself).bind fun a b same => ?_) ?_
  · exact .pure ⟨same, rfl⟩
  · refine (statement_alike twin hself).bind fun a b same => ?_
    exact .ifAccept twin _ (.pure ⟨same, rfl⟩) (.pure ⟨same, rfl⟩)

theorem otherwise_alike (twin : Token.Twin ts us) (hself : SelfAlike ts us self) :
    Rule.Alike ts us (fun x y => x.1.bare = y.1.bare ∧ x.2 = y.2)
      (otherwise fuel self) (otherwise fuel self) := by
  refine (body_alike twin hself).bind ?_
  rintro ⟨node, form⟩ ⟨node', _⟩ ⟨same, rfl⟩
  have same : node.bare = node'.bare := same
  exact .pure ⟨by simp [Otherwise.bare, Otherwise.map, same], rfl⟩

def SameArms (x y : List (Arm Tree) × Option (Otherwise Tree) × Bool) : Prop :=
  x.1.map Arm.bare = y.1.map Arm.bare ∧
    x.2.1.map Otherwise.bare = y.2.1.map Otherwise.bare ∧ x.2.2 = y.2.2

theorem arms_alike (twin : Token.Twin ts us) (hself : SelfAlike ts us self) (n : Nat) :
    Rule.Alike ts us SameArms (arms fuel self n) (arms fuel self n) := by
  induction n with
  | zero => exact .spent
  | succ n ih =>
    refine (hself .expression).bind fun c c' condition => ?_
    have condition : c.bare = c'.bare := condition
    refine (Rule.Alike.expect twin _ _).bind fun _ _ _ => ?_
    refine .ifAccept twin _ ?_ ?_
    · refine (statements_alike twin hself).bind ?_
      rintro ⟨node, expecting⟩ ⟨node', _⟩ ⟨same, rfl⟩
      have same : node.bare = node'.bare := same
      refine .ifAccept twin _ (.pure ?_) (.ifAccept twin _ ?_ (.ifAccept twin _ ?_ ?_))
      · exact ⟨by simp [Arm.bare, Arm.map, condition, same], rfl, rfl⟩
      · refine ih.bind ?_
        rintro ⟨rest, last, closed⟩ ⟨rest', last', _⟩ ⟨tail, lasts, rfl⟩
        exact .pure ⟨by simpa [Arm.bare, Arm.map, condition, same] using tail, lasts, rfl⟩
      · refine (otherwise_alike twin hself).bind fun x y lasts => ?_
        exact .pure ⟨by simp [Arm.bare, Arm.map, condition, same], by simp [lasts.1], rfl⟩
      · exact unexpectedInSequence_alike twin _ _
    · refine (statement_alike twin hself).bind fun node node' same => ?_
      have same : node.bare = node'.bare := same
      refine .ifAccept twin _ ?_ (.ifAccept twin _ ?_ (.ifAccept twin _ ?_ ?_))
      · refine ih.bind ?_
        rintro ⟨rest, last, closed⟩ ⟨rest', last', _⟩ ⟨tail, lasts, rfl⟩
        exact .pure ⟨by simpa [Arm.bare, Arm.map, condition, same] using tail, lasts, rfl⟩
      · refine (otherwise_alike twin hself).bind ?_
        rintro ⟨last, form⟩ ⟨last', _⟩ ⟨lasts, rfl⟩
        have lasts : last.bare = last'.bare := lasts
        exact .pure ⟨by simp [Arm.bare, Arm.map, condition, same], by simp [lasts], rfl⟩
      · exact .pure ⟨by simp [Arm.bare, Arm.map, condition, same], rfl, rfl⟩
      · exact .pure ⟨by simp [Arm.bare, Arm.map, condition, same], rfl, rfl⟩

theorem conditional_alike (twin : Token.Twin ts us) (hself : SelfAlike ts us self) {m n : Mark}
    (start : m.bare = n.bare) :
    Rule.Alike ts us SameTree (conditional fuel self m) (conditional fuel self n) := by
  refine (arms_alike twin hself fuel).bind ?_
  rintro ⟨found, last, closed⟩ ⟨found', last', _⟩ ⟨same, lasts, rfl⟩
  refine (Rule.Alike.markFrom start).bind fun a b mark => .pure ?_
  have mark : a.bare = b.bare := mark
  have closing (arms : List (Arm Tree)) :
      (arms.map ({ · with suppress := true })).map Arm.bare =
        (arms.map Arm.bare).map ({ · with suppress := true }) := by
    simp [Arm.bare, Arm.map]
  cases closed with
  | false => simp only [SameTree, Bool.false_eq_true, if_false, Node.bare_cond, mark, same, lasts]
  | true =>
    dsimp only at same lasts
    simp only [SameTree, if_true, Node.bare_cond, closing, mark, same, lasts]

theorem forLoop_alike (twin : Token.Twin ts us) (hself : SelfAlike ts us self) {m n : Mark}
    (start : m.bare = n.bare) :
    Rule.Alike ts us SameTree (forLoop fuel self m) (forLoop fuel self n) := by
  refine (Rule.Alike.name twin).bind ?_
  rintro counter _ rfl
  refine (Rule.Alike.expect twin _ _).bind fun _ _ _ => ?_
  refine (hself .expression).bind fun first first' firsts => ?_
  refine (Rule.Alike.expect twin _ _).bind fun _ _ _ => ?_
  refine (hself .expression).bind fun last last' lasts => ?_
  have firsts : first.bare = first'.bare := firsts
  have lasts : last.bare = last'.bare := lasts
  -- what follows the step is the same whether there is one or not
  have rest (step step' : Option Tree) (steps : step.map Node.bare = step'.map Node.bare) :
      Rule.Alike ts us SameTree
        (do
          let _ ← keyword .THEN
          let read ← body fuel self
          return .forLoop counter first last step read.1 read.2.suppresses (← markFrom m))
        (do
          let _ ← keyword .THEN
          let read ← body fuel self
          return .forLoop counter first' last' step' read.1 read.2.suppresses (← markFrom n)) := by
    refine (Rule.Alike.expect twin _ _).bind fun _ _ _ => ?_
    refine (body_alike twin hself).bind ?_
    rintro ⟨node, form⟩ ⟨node', _⟩ ⟨same, rfl⟩
    have same : node.bare = node'.bare := same
    refine (Rule.Alike.markFrom start).bind fun a b mark => .pure ?_
    simp [SameTree, firsts, lasts, steps, same, mark]
  refine .ifAccept twin _ ?_ ?_
  · refine Rule.Alike.bind (V := fun x y => x.map Node.bare = y.map Node.bare) ?_ rest
    exact (hself .expression).bind fun a b same => .pure (congrArg some same)
  · exact Rule.Alike.bind (V := fun x y => x.map Node.bare = y.map Node.bare) (.pure rfl) rest

theorem whileLoop_alike (twin : Token.Twin ts us) (hself : SelfAlike ts us self) {m n : Mark}
    (start : m.bare = n.bare) :
    Rule.Alike ts us SameTree (whileLoop fuel self m) (whileLoop fuel self n) := by
  refine (hself .expression).bind fun c c' condition => ?_
  refine (Rule.Alike.expect twin _ _).bind fun _ _ _ => ?_
  refine (body_alike twin hself).bind ?_
  rintro ⟨node, form⟩ ⟨node', _⟩ ⟨same, rfl⟩
  refine (Rule.Alike.markFrom start).bind fun a b mark => .pure ?_
  have condition : c.bare = c'.bare := condition
  have same : node.bare = node'.bare := same
  simp [SameTree, condition, same, mark]

theorem moreNames_alike (twin : Token.Twin ts us) (n : Nat) :
    Rule.Alike ts us Eq (moreNames n) (moreNames n) := by
  induction n with
  | zero => exact .spent
  | succ n ih =>
    refine .ifAccept twin _ ?_ (.pure rfl)
    refine (Rule.Alike.name twin).bind ?_
    rintro first _ rfl
    refine ih.bind ?_
    rintro rest _ rfl
    exact .pure rfl

theorem parameters_alike (twin : Token.Twin ts us) :
    Rule.Alike ts us Eq (parameters fuel) (parameters fuel) := by
  refine .fromHere fun c d cursors => ?_
  rw [cursors.kind twin]
  split
  · refine (Rule.Alike.name twin).bind ?_
    rintro first _ rfl
    refine (moreNames_alike twin fuel).bind ?_
    rintro rest _ rfl
    exact (Rule.Alike.expect twin _ _).bind fun _ _ _ => .pure rfl
  · exact (Rule.Alike.expect twin _ _).bind fun _ _ _ => .pure rfl

theorem functionHead_alike (twin : Token.Twin ts us) :
    Rule.Alike ts us Eq functionHead functionHead := by
  refine .fromHere fun c d cursors => ?_
  rw [cursors.kind twin]
  split
  · refine (Rule.Alike.name twin).bind ?_
    rintro given _ rfl
    exact (Rule.Alike.expect twin _ _).bind fun _ _ _ => .pure rfl
  · exact (Rule.Alike.expect twin _ _).bind fun _ _ _ => .pure rfl

theorem function_alike (twin : Token.Twin ts us) (hself : SelfAlike ts us self) {m n : Mark}
    (start : m.bare = n.bare) :
    Rule.Alike ts us SameTree (function fuel self m) (function fuel self n) := by
  refine (functionHead_alike twin).bind ?_
  rintro given _ rfl
  refine (parameters_alike twin).bind ?_
  rintro params _ rfl
  refine .ifAccept twin _ ?_ (.ifAccept twin _ ?_ (.unexpected _))
  · refine (hself .expression).bind fun node node' same => ?_
    refine (Rule.Alike.markFrom start).bind fun a b mark => .pure ?_
    have same : node.bare = node'.bare := same
    simp [SameTree, same, mark]
  · refine (closedBlock_alike twin hself).bind fun node node' same => ?_
    refine (Rule.Alike.markFrom start).bind fun a b mark => .pure ?_
    have same : node.bare = node'.bare := same
    simp [SameTree, same, mark]

theorem moreExpressions_alike (twin : Token.Twin ts us) (hself : SelfAlike ts us self) (n : Nat) :
    Rule.Alike ts us SameTrees (moreExpressions self n) (moreExpressions self n) := by
  induction n with
  | zero => exact .spent
  | succ n ih =>
    refine .ifAccept twin _ ?_ (.pure rfl)
    refine (hself .expression).bind fun first first' head => ?_
    exact ih.bind fun rest rest' tail => .pure (.cons head tail)

theorem items_alike (twin : Token.Twin ts us) (hself : SelfAlike ts us self) (close : Symbol) :
    Rule.Alike ts us SameTrees (items fuel self close) (items fuel self close) := by
  refine .ifAccept twin _ (.pure rfl) ?_
  refine ((hself .expression).describing _).bind fun first first' head => ?_
  refine (moreExpressions_alike twin hself fuel).bind fun rest rest' tail => ?_
  exact (Rule.Alike.expect twin _ _).bind fun _ _ _ => .pure (.cons head tail)

theorem atom_alike (twin : Token.Twin ts us) (hself : SelfAlike ts us self) :
    Rule.Alike ts us SameTree (atom fuel self) (atom fuel self) := by
  refine .fromHere fun c d cursors => ?_
  have mark := cursors.mark
  rw [cursors.content twin]
  split
  · exact (Rule.Alike.advance twin).bind fun _ _ _ => .pure (by simp [SameTree, mark])
  · exact (Rule.Alike.advance twin).bind fun _ _ _ => .pure (by simp [SameTree, mark])
  · exact (Rule.Alike.advance twin).bind fun _ _ _ => .pure (by simp [SameTree, mark])
  · exact (Rule.Alike.advance twin).bind fun _ _ _ => .pure (by simp [SameTree, mark])
  · refine (Rule.Alike.advance twin).bind fun _ _ _ => ?_
    refine (hself .expression).bind fun inner inner' same => ?_
    exact (Rule.Alike.expect twin _ _).bind fun _ _ _ => .pure same
  · refine (Rule.Alike.advance twin).bind fun _ _ _ => ?_
    refine (items_alike twin hself _).bind fun elements elements' same => ?_
    refine (Rule.Alike.markFrom mark).bind fun a b mark => .pure ?_
    have same : elements.map Node.bare = elements'.map Node.bare := same
    simp [SameTree, same, mark]
  · exact (Rule.Alike.advance twin).bind fun _ _ _ => conditional_alike twin hself mark
  · exact (Rule.Alike.advance twin).bind fun _ _ _ => forLoop_alike twin hself mark
  · exact (Rule.Alike.advance twin).bind fun _ _ _ => whileLoop_alike twin hself mark
  · exact (Rule.Alike.advance twin).bind fun _ _ _ => function_alike twin hself mark
  · exact .unexpected _

theorem callsFrom_alike (twin : Token.Twin ts us) (hself : SelfAlike ts us self) (n : Nat)
    {callee callee' : Tree} (same : SameTree callee callee') :
    Rule.Alike ts us SameTree (callsFrom fuel self n callee) (callsFrom fuel self n callee') := by
  induction n generalizing callee callee' with
  | zero => exact .spent
  | succ n ih =>
    have same' : callee.bare = callee'.bare := same
    refine .ifAccept twin _ ?_ (.pure same)
    refine (items_alike twin hself _).bind fun args args' alike => ?_
    refine (Rule.Alike.markFrom (Node.bare_note_eq same)).bind fun a b mark => ih ?_
    have alike : args.map Node.bare = args'.map Node.bare := alike
    simp [SameTree, same', alike, mark]

theorem operandsFrom_alike (twin : Token.Twin ts us) (ops : List BinaryOp) {right : Rule Tree}
    (hright : Rule.Alike ts us SameTree right right) (n : Nat) {left left' : Tree}
    (same : SameTree left left') :
    Rule.Alike ts us SameTree (operandsFrom ops right n left)
      (operandsFrom ops right n left') := by
  induction n generalizing left left' with
  | zero => exact .spent
  | succ n ih =>
    have same' : left.bare = left'.bare := same
    refine .fromHere fun c d cursors => ?_
    dsimp only
    rw [cursors.kind twin]
    split
    · exact .pure same
    · refine (Rule.Alike.advance twin).bind fun _ _ _ => ?_
      refine hright.bind fun operand operand' alike => ih ?_
      have alike : operand.bare = operand'.bare := alike
      simp [SameTree, same', alike, Node.bare_note_eq same]

theorem operands_alike (twin : Token.Twin ts us) (ops : List BinaryOp) {left right : Rule Tree}
    (hleft : Rule.Alike ts us SameTree left left) (hright : Rule.Alike ts us SameTree right right) :
    Rule.Alike ts us SameTree (operands fuel left ops right) (operands fuel left ops right) :=
  hleft.bind fun _ _ same => operandsFrom_alike twin ops hright fuel same

theorem power_alike (twin : Token.Twin ts us) (hself : SelfAlike ts us self) :
    Rule.Alike ts us SameTree (power fuel self) (power fuel self) :=
  operands_alike twin _
    ((atom_alike twin hself).bind fun _ _ same => callsFrom_alike twin hself fuel same)
    (hself .factor)

theorem factor_alike (twin : Token.Twin ts us) (hself : SelfAlike ts us self) :
    Rule.Alike ts us SameTree (factor fuel self) (factor fuel self) := by
  refine .fromHere fun c d cursors => ?_
  have mark := cursors.mark
  rw [cursors.kind twin]
  split
  · refine (Rule.Alike.advance twin).bind fun _ _ _ => ?_
    refine (hself .factor).bind fun v v' same => .pure ?_
    have same : v.bare = v'.bare := same
    simp [SameTree, same, mark]
  · refine (Rule.Alike.advance twin).bind fun _ _ _ => ?_
    refine (hself .factor).bind fun v v' same => .pure ?_
    have same : v.bare = v'.bare := same
    simp [SameTree, same, mark]
  · exact power_alike twin hself

theorem arithmetic_alike (twin : Token.Twin ts us) (hself : SelfAlike ts us self) :
    Rule.Alike ts us SameTree (arithmetic fuel self) (arithmetic fuel self) := by
  have term : Rule.Alike ts us SameTree (term fuel self) (term fuel self) :=
    operands_alike twin _ (factor_alike twin hself) (factor_alike twin hself)
  exact operands_alike twin _ term term

theorem comparison_alike (twin : Token.Twin ts us) (hself : SelfAlike ts us self) :
    Rule.Alike ts us SameTree (comparison fuel self) (comparison fuel self) := by
  refine .fromHere fun c d cursors => ?_
  have mark := cursors.mark
  rw [cursors.kind twin]
  split
  · refine (Rule.Alike.advance twin).bind fun _ _ _ => ?_
    refine (hself .comparison).bind fun v v' same => .pure ?_
    have same : v.bare = v'.bare := same
    simp [SameTree, same, mark]
  · exact operands_alike twin _ (arithmetic_alike twin hself) (arithmetic_alike twin hself)

theorem expression_alike (twin : Token.Twin ts us) (hself : SelfAlike ts us self) :
    Rule.Alike ts us SameTree (expression fuel self) (expression fuel self) := by
  refine .fromHere fun c d cursors => ?_
  have mark := cursors.mark
  rw [cursors.kind twin]
  split
  · refine (Rule.Alike.advance twin).bind fun _ _ _ => ?_
    refine (Rule.Alike.name twin).bind ?_
    rintro target _ rfl
    refine (Rule.Alike.expect twin _ _).bind fun _ _ _ => ?_
    refine (hself .expression).bind fun v v' same => .pure ?_
    have same : v.bare = v'.bare := same
    simp [SameTree, same, mark]
  · exact (operands_alike twin _ (comparison_alike twin hself)
      (comparison_alike twin hself)).describing _

end Rules

theorem level_alike {ts us : List Token} (twin : Token.Twin ts us) (fuel : Nat) :
    SelfAlike ts us (level fuel) := by
  induction fuel with
  | zero => exact fun _ => .spent
  | succ fuel ih =>
    intro l
    cases l with
    | expression => exact expression_alike twin ih
    | comparison => exact comparison_alike twin ih
    | factor => exact factor_alike twin ih

theorem program_alike {ts us : List Token} (twin : Token.Twin ts us) (fuel : Nat) :
    Rule.Alike ts us SameTree (program fuel) (program fuel) := by
  refine (statements_alike twin (level_alike twin fuel)).bind ?_
  rintro ⟨node, expecting⟩ ⟨node', _⟩ ⟨same, rfl⟩
  refine .fromHere fun c d cursors => ?_
  dsimp only
  rw [cursors.kind twin]
  split
  · exact .pure same
  · split
    · exact unexpectedInSequence_alike twin _ _
    · refine .thrown ?_
      rcases cursors.deeper twin with ⟨left, right⟩ | ⟨e, f, left, right, alike⟩
      · rw [left, right]
        exact ⟨cursors.left.current, cursors.right.current, rfl, cursors.index, rfl⟩
      · rw [left, right]; exact alike

end ScriptLang.Grammar

namespace ScriptLang

/-- What reading gives, without places: the tree, or what was expected in place of the token that
could not be read and whether a whole program stands before it. -/
def readingBare : Except SyntaxError Tree → Except (List Token.Kind × Bool) Tree
  | .ok tree => .ok tree.bare
  | .error e => .error (e.expected, e.trailing)

theorem parse_bare {ts us : List Token} (twin : Token.Twin ts us) :
    readingBare (parse ts) = readingBare (parse us) := by
  have contents := twin.contents
  cases ts with
  | nil =>
    have : us = [] := by simpa using contents.symm
    rw [this]
  | cons t ts =>
    cases us with
    | nil => simp at contents
    | cons u us =>
      have length : ts.length = us.length := by
        simpa using congrArg List.length contents
      have cursors : (Cursor.ofTokens t ts).Alike (t :: ts) (u :: us) (Cursor.ofTokens u us) :=
        ⟨⟨rfl, rfl, by simp [Cursor.ofTokens]⟩, ⟨rfl, rfl, by simp [Cursor.ofTokens]⟩, rfl, rfl⟩
      have ends := Grammar.program_alike twin (ts.length + 1) _ _ cursors
      simp only [parse, ← length]
      generalize Grammar.program (ts.length + 1) (Cursor.ofTokens t ts) = left at ends ⊢
      generalize Grammar.program (ts.length + 1) (Cursor.ofTokens u us) = right at ends ⊢
      cases ends with
      | done same _ => exact congrArg Except.ok same
      | failed failure => simp only [readingBare, failure.expected, failure.trailing]
      | spent => rfl

end ScriptLang
