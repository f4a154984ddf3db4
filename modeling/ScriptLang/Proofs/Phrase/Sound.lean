import ScriptLang.Node.Map
import ScriptLang.Proofs.Phrase.Reading
import ScriptLang.Proofs.Token.Order

/-! Every rule reads a phrase of its kind: one lemma for each rule, then all levels together by
induction on their number, then whole programs. -/
namespace ScriptLang.Grammar

open Rule
open Token.Content (eq_keyword eq_symbol eq_content fixed_keyword fixed_symbol fixed_newline)

abbrev Spells (P : List Token.Content → Node Unit → Prop) (cs : List Token.Content) (t : Tree) :
    Prop :=
  P cs t.erase

def Level.phrase : Level → List Token.Content → Node Unit → Prop
  | .expression => Phrase.Expression
  | .comparison => Phrase.Comparison
  | .factor => Phrase.Factor

section Rules

variable {fuel : Nat} {self : Level → Rule Tree}

abbrev SelfSound (self : Level → Rule Tree) : Prop :=
  ∀ l, (self l).Sound (Spells l.phrase)

theorem newlines_sound (fuel : Nat) : (newlines fuel).Sound fun cs some =>
    ∃ k, cs = Phrase.breaks k ∧ (some = true ↔ k ≠ 0) := by
  induction fuel with
  | zero => exact .spent
  | succ fuel ih =>
    unfold newlines
    refine .ifAccept fixed_newline ?_ (.pure ⟨0, rfl, by simp⟩)
    refine ih.bind fun cs some spelt => .pure ?_
    obtain ⟨k, rfl, -⟩ := spelt
    exact ⟨k + 1, by simp [Phrase.breaks, List.replicate_succ], by simp⟩

theorem unexpectedInSequence_ne_done {α : Type} (expecting : Bool)
    (terminators : List Token.Kind) (c c' : Cursor) (a : α) :
    unexpectedInSequence expecting terminators c ≠ .done a c' := by
  intro h
  dsimp only [unexpectedInSequence, bind, Rule.bind, here] at h
  cases deeper : c.deeper with
  | none => rw [deeper] at h; cases h
  | some e => rw [deeper] at h; cases h

theorem unexpectedInSequence_sound {α : Type} {P : List Token.Content → α → Prop}
    (expecting : Bool) (terminators : List Token.Kind) :
    (unexpectedInSequence expecting terminators : Rule α).Sound P :=
  fun c _ a c' eq => absurd eq (unexpectedInSequence_ne_done expecting terminators c c' a)

theorem statement_sound (hself : SelfSound self) :
    (statement self).Sound (Spells Phrase.Statement) := by
  refine .fromHere fun c => ?_
  split
  · next h =>
    refine .advance (eq_keyword h) nofun ?_
    refine (hself .expression).attempt.bind fun cs a read => ?_
    obtain ⟨rfl, rfl⟩ | ⟨value, rfl, spelt⟩ := read
    · exact .pure (by simpa [Spells] using .returns)
    · refine .pure ?_
      simpa [Spells] using
        Phrase.Statement.returnsValue spelt
  · next h =>
    refine .advance (eq_keyword h) nofun (.pure ?_)
    simpa [Spells] using .continues
  · next h =>
    refine .advance (eq_keyword h) nofun (.pure ?_)
    simpa [Spells] using .breaks
  · exact ((hself .expression).describing _).mono (fun _ _ spelt => .expression spelt) c

def Lines (cs : List Token.Content) (ns : List (Node Unit)) : Prop :=
  (cs = [] ∧ ns = []) ∨ ∃ ds k, cs = ds ++ Phrase.breaks k ∧ Phrase.Lines ds ns

theorem Lines.cons {cs ds : List Token.Content} {n : Node Unit} {ns : List (Node Unit)} {k : Nat}
    (first : Phrase.Statement cs n) (some : k ≠ 0) (rest : Lines ds ns) :
    Lines (cs ++ (Phrase.breaks k ++ ds)) (n :: ns) := by
  obtain ⟨k, rfl⟩ := Nat.exists_eq_succ_of_ne_zero some
  obtain ⟨rfl, rfl⟩ | ⟨es, j, rfl, lines⟩ := rest
  · exact .inr ⟨cs, k + 1, by simp, .one first⟩
  · exact .inr ⟨_, j, by simp, .more k first lines⟩

theorem statementsFrom_sound (hself : SelfSound self) (n : Nat) :
    (statementsFrom fuel self n).Sound fun cs read => Lines cs (read.1.map Node.erase) := by
  induction n with
  | zero => exact .spent
  | succ n ih =>
    unfold statementsFrom
    refine (statement_sound hself).attempt.bind fun cs a read => ?_
    obtain ⟨rfl, rfl⟩ | ⟨first, rfl, spelt⟩ := read
    · exact .pure (.inl ⟨rfl, rfl⟩)
    · refine (newlines_sound fuel).bind fun ds some separated => ?_
      obtain ⟨k, rfl, more⟩ := separated
      cases some with
      | true =>
        refine ih.bind fun es rest spelt' => .pure ?_
        simpa using Lines.cons spelt (more.1 rfl) spelt'
      | false =>
        have none : k = 0 := by simpa using more
        exact .pure (.inr ⟨cs, 0, by simp [none, Phrase.breaks], .one spelt⟩)

theorem statements_sound (hself : SelfSound self) : (statements fuel self).Sound fun cs read =>
    ∃ ns, Phrase.Sequence cs ns ∧ read.1.erase = .block ns () := by
  refine .fromHere fun c => ?_
  refine ((newlines_sound fuel).bind (fun cs _ separated => ?_)) c
  obtain ⟨j, rfl, -⟩ := separated
  refine (statementsFrom_sound hself fuel).bind fun ds read lines => .pure ?_
  refine ⟨read.1.map Node.erase, ?_, by simp⟩
  obtain ⟨rfl, none⟩ | ⟨es, k, rfl, lines⟩ := lines
  · rw [none, List.append_nil, List.append_nil]
    exact .empty j
  · simpa using Phrase.Sequence.lines j k lines

theorem closedBlock_sound (hself : SelfSound self) : (closedBlock fuel self).Sound fun cs t =>
    ∃ ds ns, cs = ds ++ [.keyword .END] ∧ Phrase.Sequence ds ns ∧ t.erase = .block ns () := by
  refine (statements_sound hself).bind fun cs read spelt => ?_
  obtain ⟨ns, sequence, block⟩ := spelt
  refine .ifAccept (fixed_keyword .END) (.pure ?_) (unexpectedInSequence_sound _ _)
  exact ⟨cs, ns, by simp, sequence, block⟩

inductive Bodied : Form → List Token.Content → Node Unit → Prop where
  | inline {cs n} (h : Phrase.Statement cs n) : Bodied .inline cs n
  | closedInline {cs n} (h : Phrase.Statement cs n) : Bodied .closedInline (cs ++ [.keyword .END]) n
  | block {cs ns} (h : Phrase.Sequence cs ns) :
    Bodied .block (.newline :: cs ++ [.keyword .END]) (.block ns ())

theorem body_sound (hself : SelfSound self) :
    (body fuel self).Sound fun cs read => Bodied read.2 cs read.1.erase := by
  refine .ifAccept fixed_newline ?_ ?_
  · refine (closedBlock_sound hself).bind fun cs t spelt => .pure ?_
    obtain ⟨ds, ns, rfl, sequence, block⟩ := spelt
    rw [block]
    simpa using Bodied.block sequence
  · refine (statement_sound hself).bind fun cs t spelt => ?_
    refine .ifAccept (fixed_keyword .END) (.pure ?_) (.pure ?_)
    · exact .closedInline spelt
    · simpa using Bodied.inline spelt

theorem Bodied.body {form : Form} {cs : List Token.Content} {n : Node Unit}
    (h : Bodied form cs n) : Phrase.Body cs n form.suppresses := by
  cases h with
  | inline h => exact .inline h
  | closedInline h => exact .closed h
  | block h => exact .block h

theorem otherwise_sound (hself : SelfSound self) : (otherwise fuel self).Sound fun cs read =>
    Bodied read.2 cs read.1.body.erase ∧ read.1.suppress = read.2.suppresses := by
  refine (body_sound hself).bind fun cs read spelt => .pure ?_
  simpa using spelt

theorem Bodied.ending {form : Form} {cs : List Token.Content} {n : Node Unit}
    (h : Bodied form cs n) :
    Phrase.Ending (.keyword .ELSE :: cs) (some ⟨n, form.suppresses⟩) (form = .closedInline) := by
  cases h with
  | inline h => exact .inline h
  | closedInline h => exact .closedInline h
  | block h => exact .block h

/-- A chain after its `IF`: its arms, what follows them, and whether that closes inline arms. -/
def Chained (cs : List Token.Content)
    (read : List (Arm Tree) × Option (Otherwise Tree) × Bool) : Prop :=
  ∃ ds es block closed, cs = ds ++ es ∧
    Phrase.Arms ds (read.1.map (Arm.map Node.erase)) block ∧
    Phrase.Ending es (read.2.1.map (Otherwise.map Node.erase)) closed ∧ (block → es ≠ []) ∧
    read.2.2 = (!block && closed)

theorem Chained.one {cs ds es : List Token.Content} {c b : Tree} {block closed : Bool}
    (last : Option (Otherwise Tree)) (condition : Phrase.Expression cs c.erase)
    (body : Phrase.Choice ds b.erase block)
    (ending : Phrase.Ending es (last.map (Otherwise.map Node.erase)) closed)
    (ended : block → es ≠ []) :
    Chained (cs ++ .keyword .THEN :: ds ++ es) ([⟨c, b, block⟩], last, !block && closed) :=
  ⟨_, es, block, closed, rfl, .one condition body, ending, ended, rfl⟩

theorem Chained.cons {cs ds es : List Token.Content} {c b : Tree} {block : Bool}
    {read : List (Arm Tree) × Option (Otherwise Tree) × Bool}
    (condition : Phrase.Expression cs c.erase) (body : Phrase.Choice ds b.erase block)
    (rest : Chained es read) : Chained (cs ++ .keyword .THEN :: ds ++ .keyword .ELIF :: es)
      (⟨c, b, block⟩ :: read.1, read.2) := by
  obtain ⟨arms, last, lastBlock, closed, rfl, chain, ending, ended, flag⟩ := rest
  refine ⟨_, last, lastBlock, closed, ?_, .more condition body chain, ending, ended, flag⟩
  simp

theorem arms_sound (hself : SelfSound self) (n : Nat) : (arms fuel self n).Sound Chained := by
  induction n with
  | zero => exact .spent
  | succ n ih =>
    unfold arms
    refine (hself .expression).bind fun cs c condition => ?_
    refine (Sound.expect (fixed_keyword .THEN) _).bind fun _ _ is => ?_
    subst is
    refine .ifAccept fixed_newline ?_ ?_
    · refine (statements_sound hself).bind fun ds read spelt => ?_
      obtain ⟨ns, sequence, block⟩ := spelt
      have body : Phrase.Choice (.newline :: ds) read.1.erase true := block ▸ .block sequence
      refine .ifAccept (fixed_keyword .END) (.pure ?_) (.ifAccept (fixed_keyword .ELIF) ?_
        (.ifAccept (fixed_keyword .ELSE) ?_ (unexpectedInSequence_sound _ _)))
      · simpa using Chained.one none condition body .closed (by simp)
      · refine ih.bind fun es rest chained => .pure ?_
        simpa using Chained.cons condition body chained
      · refine (otherwise_sound hself).bind fun es last bodied => .pure ?_
        obtain ⟨bodied, suppress⟩ := bodied
        have ending := bodied.ending
        rw [← suppress] at ending
        simpa using Chained.one (some last.1) condition body ending (by simp)
    · refine (statement_sound hself).bind fun ds b spelt => ?_
      have body : Phrase.Choice ds b.erase false := .inline spelt
      refine .ifAccept (fixed_keyword .ELIF) ?_ (.ifAccept (fixed_keyword .ELSE) ?_
        (.ifAccept (fixed_keyword .END) (.pure ?_) (.pure ?_)))
      · refine ih.bind fun es rest chained => .pure ?_
        simpa using Chained.cons condition body chained
      · refine (otherwise_sound hself).bind fun es last bodied => .pure ?_
        obtain ⟨bodied, suppress⟩ := bodied
        have ending := bodied.ending
        rw [← suppress] at ending
        simpa using Chained.one (some last.1) condition body ending (by simp)
      · simpa using Chained.one none condition body .closed (by simp)
      · simpa using Chained.one none condition body .none (by simp)

def Follows (x : Token.Content) (cs : List Token.Content) (t : Tree) : Prop :=
  Phrase.Atom (x :: cs) t.erase

theorem erase_closed (arms : List (Arm Tree)) (closed : Bool) :
    (if closed then arms.map ({ · with suppress := true }) else arms).map (Arm.map Node.erase) =
      (arms.map (Arm.map Node.erase)).map fun a =>
        { a with suppress := a.suppress || closed } := by
  cases closed <;> simp [Arm.map]

theorem conditional_sound (hself : SelfSound self) (start : Mark) :
    (conditional fuel self start).Sound (Follows (.keyword .IF)) := by
  refine (arms_sound hself fuel).bind fun cs read chained => ?_
  refine (Sound.markFrom start).bind fun _ mark none => .pure ?_
  subst none
  obtain ⟨ds, es, block, closed, rfl, chain, ending, ended, flag⟩ := chained
  have atom := Phrase.Atom.cond chain ending ended
  rw [← flag, ← erase_closed] at atom
  unfold Follows
  rw [Node.erase_cond]
  simpa using atom

theorem forLoop_sound (hself : SelfSound self) (start : Mark) :
    (forLoop fuel self start).Sound (Follows (.keyword .FOR)) := by
  refine Sound.name.bind fun _ counter is => ?_
  subst is
  refine (Sound.expect (fixed_symbol .assign) _).bind fun _ _ is => ?_
  subst is
  refine (hself .expression).bind fun cs first begins => ?_
  refine (Sound.expect (fixed_keyword .TO) _).bind fun _ _ is => ?_
  subst is
  refine (hself .expression).bind fun ds last bound => ?_
  -- what follows the step is the same whether there is one or not
  have rest (step : Option Tree) (es : List Token.Content)
      (increment : Phrase.Step es (step.map Node.erase)) :
      (do
        let _ ← keyword .THEN
        let read ← body fuel self
        return .forLoop counter first last step read.1 read.2.suppresses (← markFrom start) :
          Rule Tree).Sound fun fs => Follows (.keyword .FOR)
            (.identifier counter :: .symbol .assign :: cs ++ .keyword .TO :: ds ++ es ++ fs) := by
    refine (Sound.expect (fixed_keyword .THEN) _).bind fun _ _ is => ?_
    subst is
    refine (body_sound hself).bind fun fs read bodied => ?_
    refine (Sound.markFrom start).bind fun _ mark none => .pure ?_
    subst none
    have atom := Phrase.Atom.forLoop counter begins bound increment bodied.body
    simpa [Follows] using atom
  refine .ifAccept (fixed_keyword .STEP) ?_ ?_
  · refine Sound.bind (P := fun cs t => Phrase.Step (.keyword .STEP :: cs) (t.map Node.erase)) ?_ ?_
    · exact (hself .expression).bind fun es t spelt => .pure (by simpa using .some spelt)
    · intro es step increment
      exact (rest step _ increment).mono fun fs t follows => by simpa using follows
  · refine Sound.bind (P := fun cs t => Phrase.Step cs (t.map Node.erase)) (.pure .none) ?_
    intro es step increment
    exact (rest step es increment).mono fun fs t follows => by simpa using follows

theorem whileLoop_sound (hself : SelfSound self) (start : Mark) :
    (whileLoop fuel self start).Sound (Follows (.keyword .WHILE)) := by
  refine (hself .expression).bind fun cs condition spelt => ?_
  refine (Sound.expect (fixed_keyword .THEN) _).bind fun _ _ is => ?_
  subst is
  refine (body_sound hself).bind fun ds read bodied => ?_
  refine (Sound.markFrom start).bind fun _ mark none => .pure ?_
  subst none
  simpa [Follows] using Phrase.Atom.whileLoop spelt bodied.body

theorem moreNames_sound (n : Nat) : (moreNames n).Sound fun cs names =>
    ∀ first, .identifier first :: cs = Phrase.names (first :: names) := by
  induction n with
  | zero => exact .spent
  | succ n ih =>
    unfold moreNames
    refine .ifAccept (fixed_symbol .comma) ?_ (.pure fun first => rfl)
    refine Sound.name.bind fun _ second is => ?_
    subst is
    refine ih.bind fun cs names spelt => .pure fun first => ?_
    have tail := spelt second
    simp only [Phrase.names, List.map_cons, List.intersperse] at tail ⊢
    simp [← tail]

theorem parameters_sound : (parameters fuel).Sound fun cs params =>
    cs = Phrase.names params ++ [.symbol .rightParen] := by
  refine .fromHere fun c => ?_
  split
  · refine Sound.bind Sound.name (fun _ first is => ?_) c
    subst is
    refine (moreNames_sound fuel).bind fun cs names spelt => ?_
    refine (Sound.expect (fixed_symbol .rightParen) _).bind fun _ _ is => .pure ?_
    subst is
    simp [← spelt first]
  · refine Sound.bind (Sound.expect (fixed_symbol .rightParen) _) (fun _ _ is => .pure ?_) c
    simp [is, Phrase.names]

theorem functionHead_sound : functionHead.Sound fun cs name =>
    cs = (name.map Token.Content.identifier).toList ++ [.symbol .leftParen] := by
  refine .fromHere fun c => ?_
  split
  · refine Sound.bind Sound.name (fun _ given is => ?_) c
    subst is
    refine (Sound.expect (fixed_symbol .leftParen) _).bind fun _ _ is => .pure ?_
    simp [is]
  · refine Sound.bind (Sound.expect (fixed_symbol .leftParen) _) (fun _ _ is => .pure ?_) c
    simp [is]

theorem function_sound (hself : SelfSound self) (start : Mark) :
    (function fuel self start).Sound (Follows (.keyword .FUN)) := by
  refine functionHead_sound.bind fun _ name is => ?_
  subst is
  refine parameters_sound.bind fun _ params is => ?_
  subst is
  refine .ifAccept (fixed_symbol .arrow) ?_ (.ifAccept fixed_newline ?_ (.unexpected _))
  · refine (hself .expression).bind fun cs body spelt => ?_
    refine (Sound.markFrom start).bind fun _ mark none => .pure ?_
    subst none
    simpa [Follows] using
      Phrase.Atom.function name params (.arrow spelt)
  · refine (closedBlock_sound hself).bind fun _ body spelt => ?_
    obtain ⟨cs, ns, rfl, sequence, block⟩ := spelt
    refine (Sound.markFrom start).bind fun _ mark none => .pure ?_
    subst none
    simpa [Follows, block] using
      Phrase.Atom.function name params (.block sequence)

theorem moreExpressions_sound (hself : SelfSound self) (n : Nat) :
    (moreExpressions self n).Sound fun cs ts => ∀ ds first, Phrase.Expression ds first →
      Phrase.Row (ds ++ cs) (first :: ts.map Node.erase) := by
  induction n with
  | zero => exact .spent
  | succ n ih =>
    unfold moreExpressions
    refine .ifAccept (fixed_symbol .comma) ?_ (.pure fun ds first spelt => ?_)
    · refine (hself .expression).bind fun cs second spelt => ?_
      refine ih.bind fun es ts row => .pure fun ds first spelt' => ?_
      simpa using Phrase.Row.more spelt' (row cs _ spelt)
    · simpa using Phrase.Row.one spelt

theorem items_sound (hself : SelfSound self) (close : Symbol) : (items fuel self close).Sound
    fun cs ts => ∃ ds, cs = ds ++ [.symbol close] ∧ Phrase.Items ds (ts.map Node.erase) := by
  refine .ifAccept (fixed_symbol close) (.pure ⟨[], rfl, .none⟩) ?_
  refine ((hself .expression).describing _).bind fun cs first spelt => ?_
  refine (moreExpressions_sound hself fuel).bind fun ds ts row => ?_
  refine (Sound.expect (fixed_symbol close) _).bind fun _ _ is => .pure ?_
  subst is
  exact ⟨cs ++ ds, by simp, .some (row cs _ spelt)⟩

theorem atom_sound (hself : SelfSound self) : (atom fuel self).Sound (Spells Phrase.Atom) := by
  refine .fromHere fun c => ?_
  split
  · next n is =>
    refine .advance is nofun (.pure ?_)
    simpa [Spells] using Phrase.Atom.int n
  · next x is =>
    refine .advance is nofun (.pure ?_)
    simpa [Spells] using Phrase.Atom.float x
  · next s is =>
    refine .advance is nofun (.pure ?_)
    simpa [Spells] using Phrase.Atom.string s
  · next name is =>
    refine .advance is nofun (.pure ?_)
    simpa [Spells] using Phrase.Atom.access name
  · next is =>
    refine .advance is nofun ?_
    refine (hself .expression).bind fun cs inner spelt => ?_
    refine (Sound.expect (fixed_symbol .rightParen) _).bind fun _ _ is => .pure ?_
    subst is
    simpa using Phrase.Atom.parens spelt
  · next is =>
    refine .advance is nofun ?_
    refine (items_sound hself _).bind fun _ ts spelt => ?_
    obtain ⟨cs, rfl, items⟩ := spelt
    refine (Sound.markFrom _).bind fun _ mark none => .pure ?_
    subst none
    have atom := Phrase.Atom.list items
    simpa [Spells] using atom
  · next is => exact .advance is nofun (conditional_sound hself _)
  · next is => exact .advance is nofun (forLoop_sound hself _)
  · next is => exact .advance is nofun (whileLoop_sound hself _)
  · next is => exact .advance is nofun (function_sound hself _)
  · exact Sound.unexpected _ c

theorem callsFrom_sound (hself : SelfSound self) (n : Nat) (cs : List Token.Content)
    (callee : Tree) (spelt : Phrase.Call cs callee.erase) :
    (callsFrom fuel self n callee).Sound fun ds => Spells Phrase.Call (cs ++ ds) := by
  induction n generalizing cs callee with
  | zero => exact .spent
  | succ n ih =>
    unfold callsFrom
    refine .ifAccept (fixed_symbol .leftParen) ?_ (.pure (by simpa using spelt))
    refine (items_sound hself _).bind fun _ args read => ?_
    obtain ⟨ds, rfl, items⟩ := read
    refine (Sound.markFrom _).bind fun _ mark none => ?_
    subst none
    have call := Phrase.Call.call spelt items
    have next := ih _ (.call callee args mark)
      (by simpa using call)
    exact next.mono fun es t h => by simpa using h

theorem call_sound (hself : SelfSound self) : (call fuel self).Sound (Spells Phrase.Call) :=
  (atom_sound hself).bind fun cs t spelt => callsFrom_sound hself fuel cs t (.atom spelt)

section Operands

variable {P Q : List Token.Content → Node Unit → Prop} {ops : List BinaryOp} {right : Rule Tree}

theorem operandsFrom_sound
    (more : ∀ {cs ds l r op}, P cs l → op ∈ ops → Q ds r →
      P (cs ++ op.content :: ds) (.binary op l r ()))
    (hright : right.Sound (Spells Q)) (n : Nat) (cs : List Token.Content) (left : Tree)
    (spelt : P cs left.erase) :
    (operandsFrom ops right n left).Sound fun ds => Spells P (cs ++ ds) := by
  induction n generalizing cs left with
  | zero => exact .spent
  | succ n ih =>
    unfold operandsFrom
    refine .fromHere fun c => ?_
    dsimp only
    cases found : ops.find? (·.kind = c.kind) with
    | none => exact Sound.pure (by simpa using spelt) c
    | some op =>
      have kind : op.kind = c.kind := by simpa using List.find?_some found
      have is : c.current.content = op.content := eq_content kind
      have mem : op ∈ ops := List.mem_of_find?_eq_some found
      refine .advance is (by cases op <;> nofun) ?_
      refine hright.bind fun ds operand spelt' => ?_
      have joined := more spelt mem spelt'
      have next := ih _ (.binary op left operand (left.note.through operand.note))
        (by simpa using joined)
      exact next.mono fun es t h => by simpa using h

theorem operands_sound {left : Rule Tree} {L : List Token.Content → Node Unit → Prop}
    (one : ∀ {cs n}, L cs n → P cs n)
    (more : ∀ {cs ds l r op}, P cs l → op ∈ ops → Q ds r →
      P (cs ++ op.content :: ds) (.binary op l r ()))
    (hleft : left.Sound (Spells L)) (hright : right.Sound (Spells Q)) :
    (operands fuel left ops right).Sound (Spells P) :=
  hleft.bind fun cs t spelt => operandsFrom_sound more hright fuel cs t (one spelt)

end Operands

theorem power_sound (hself : SelfSound self) : (power fuel self).Sound (Spells Phrase.Power) :=
  operands_sound .one .more (call_sound hself) (hself .factor)

theorem factor_sound (hself : SelfSound self) :
    (factor fuel self).Sound (Spells Phrase.Factor) := by
  refine .fromHere fun c => ?_
  split
  · next h =>
    refine .advance (eq_symbol h) nofun ?_
    refine (hself .factor).bind fun cs operand spelt => .pure ?_
    simpa [Spells] using Phrase.Factor.plus spelt
  · next h =>
    refine .advance (eq_symbol h) nofun ?_
    refine (hself .factor).bind fun cs operand spelt => .pure ?_
    simpa [Spells] using Phrase.Factor.minus spelt
  · exact (power_sound hself).mono (fun _ _ spelt => .power spelt) c

theorem term_sound (hself : SelfSound self) : (term fuel self).Sound (Spells Phrase.Term) :=
  operands_sound .one .more (factor_sound hself) (factor_sound hself)

theorem arithmetic_sound (hself : SelfSound self) :
    (arithmetic fuel self).Sound (Spells Phrase.Arithmetic) :=
  operands_sound .one .more (term_sound hself) (term_sound hself)

theorem comparison_sound (hself : SelfSound self) :
    (comparison fuel self).Sound (Spells Phrase.Comparison) := by
  refine .fromHere fun c => ?_
  split
  · next h =>
    refine .advance (eq_keyword h) nofun ?_
    refine (hself .comparison).bind fun cs operand spelt => .pure ?_
    simpa [Spells] using Phrase.Comparison.not spelt
  · have chain : (operands fuel (arithmetic fuel self) [.eq, .ne, .lt, .gt, .lte, .gte]
        (arithmetic fuel self)).Sound (Spells Phrase.Chain) :=
      operands_sound .one .more (arithmetic_sound hself) (arithmetic_sound hself)
    exact chain.mono (fun _ _ spelt => .chain spelt) c

theorem expression_sound (hself : SelfSound self) :
    (expression fuel self).Sound (Spells Phrase.Expression) := by
  refine .fromHere fun c => ?_
  split
  · next h =>
    refine .advance (eq_keyword h) nofun ?_
    refine Sound.name.bind fun _ target is => ?_
    subst is
    refine (Sound.expect (fixed_symbol .assign) _).bind fun _ _ is => ?_
    subst is
    refine (hself .expression).bind fun cs value spelt => .pure ?_
    simpa [Spells] using Phrase.Expression.assign target spelt
  · have logic : (operands fuel (comparison fuel self) [.and, .or]
        (comparison fuel self)).Sound (Spells Phrase.Logic) :=
      operands_sound .one .more (comparison_sound hself) (comparison_sound hself)
    exact (logic.describing _).mono (fun _ _ spelt => .logic spelt) c

end Rules

theorem level_sound (fuel : Nat) : SelfSound (level fuel) := by
  induction fuel with
  | zero => exact fun _ => .spent
  | succ fuel ih =>
    intro l
    cases l with
    | expression => exact expression_sound ih
    | comparison => exact comparison_sound ih
    | factor => exact factor_sound ih

theorem program_done {fuel : Nat} {c c' : Cursor} {t : Tree} (h : program fuel c = .done t c') :
    ∃ expecting, statements fuel (level fuel) c = .done (t, expecting) c' ∧ c'.kind = .eof := by
  change Rule.bind (statements fuel (level fuel)) _ c = _ at h
  unfold Rule.bind at h
  cases read : statements fuel (level fuel) c with
  | failed e => rw [read] at h; cases h
  | spent => rw [read] at h; cases h
  | done found d =>
    rw [read] at h
    change (if d.kind = .eof then _ else _ : Rule Tree) d = _ at h
    split at h
    · next eof =>
      cases h
      exact ⟨found.2, rfl, eof⟩
    · split at h
      · exact absurd h (unexpectedInSequence_ne_done _ _ _ _ _)
      · cases h

end ScriptLang.Grammar

namespace ScriptLang

theorem Token.closed_of_ended {ts : List Token} (h : Token.Ended ts) :
    Token.Closed (ts.map Token.content) := by
  obtain ⟨front, last, rfl, eof, before⟩ := h.ending
  have eof : last.content = .eof := Token.Content.eq_eof eof
  clear h
  induction front with
  | nil => exact eof
  | cons t front ih =>
    have first : t.content ≠ .eof := fun h => before t (by simp) (congrArg Token.Content.kind h)
    have rest := ih fun u mem => before u (by simp [mem])
    cases front with
    | nil => exact ⟨first, rest⟩
    | cons u front => exact ⟨first, rest⟩

theorem Cursor.rest_of_eof {c : Cursor} (closed : Token.Closed c.rest) (h : c.kind = .eof) :
    c.rest = [.eof] := by
  have eof : c.current.content = .eof := Token.Content.eq_eof h
  unfold Cursor.rest at closed ⊢
  rw [eof] at closed ⊢
  cases ahead : c.ahead with
  | nil => rfl
  | cons t ts =>
    rw [ahead] at closed
    exact absurd rfl closed.1

/-- What is read from the tokens of a text is what they spell, all of them and in their order. -/
theorem program_of_parse {source : Source} {ts : List Token} {ast : Tree}
    (scanned : scan source = .ok ts) (read : parse ts = .ok ast) :
    Phrase.Program (ts.map Token.content) ast.erase := by
  have closed := Token.closed_of_ended (ended_of_scan scanned)
  cases ts with
  | nil => cases closed
  | cons t ts =>
    simp only [parse] at read
    cases ran : Grammar.program (ts.length + 1) (.ofTokens t ts) with
    | failed e => rw [ran] at read; cases read
    | spent => rw [ran] at read; cases read
    | done tree c =>
      rw [ran] at read
      cases read
      obtain ⟨expecting, statements, eof⟩ := Grammar.program_done ran
      obtain ⟨closed', cs, rest, ns, sequence, block⟩ :=
        Grammar.statements_sound (Grammar.level_sound _) (.ofTokens t ts) closed _ _ statements
      have all : (t :: ts).map Token.content = cs ++ [.eof] := by
        rw [← Cursor.rest_of_eof closed' eof, ← rest]
        rfl
      rw [all, show ast.erase = .block ns () from block]
      exact .program sequence

theorem program_of_parse_chain : ∃ ts ast,
    scan ⟨"chain", "IF NOT x THEN RETURN ELIF -1 ^ 2 THEN [y(3)] ELSE 4 END; BREAK"⟩ = .ok ts ∧
    parse ts = .ok ast ∧ Phrase.Program (ts.map Token.content) ast.erase := by
  have done : ((scan ⟨"chain",
      "IF NOT x THEN RETURN ELIF -1 ^ 2 THEN [y(3)] ELSE 4 END; BREAK"⟩).toOption.bind
      fun ts => (parse ts).toOption).isSome = true := by decide +kernel
  cases scanned : scan ⟨"chain",
      "IF NOT x THEN RETURN ELIF -1 ^ 2 THEN [y(3)] ELSE 4 END; BREAK"⟩ with
  | error e => rw [scanned] at done; cases done
  | ok ts =>
    rw [scanned] at done
    cases read : parse ts with
    | error e => simp [Except.toOption, read] at done
    | ok ast => exact ⟨ts, ast, rfl, read, program_of_parse scanned read⟩

end ScriptLang
