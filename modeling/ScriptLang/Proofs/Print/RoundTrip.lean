import ScriptLang.Proofs.Print.Scan
import ScriptLang.Proofs.Print.Standing

/-! Printing and parsing. Every tree that can be written down is what is read from its text. -/
namespace ScriptLang

open Grammar Rule

section Constructs

variable {k : Nat}

theorem Headed.opens {n : Node Unit} (h : Headed n) (r : Rung) : Opens (n.operand r) := by
  obtain ⟨x, xs, written, admits⟩ := h.operand r
  have subset : expressionStart ⊆ statementStart := by decide
  exact ⟨x, xs, written, subset admits.start⟩

theorem level_takes {n : Node Unit} (h : ∀ k, Unenclosed k n) (k : Nat) (l : Level) :
    Takes k (level k l) (n.operand l.rung) l.rung.Stops (Spelt n) := by
  cases k with
  | zero => exact .zero
  | succ k =>
    rw [level_succ]
    exact (Unenclosed.standing h k).takes l.rung

theorem fits {n : Node Unit} (head : Headed n) (h : ∀ k, Unenclosed k n) (k : Nat) :
    Fits k (level k) n :=
  ⟨head.opens .expression,
    (level_takes h k .expression).mono (Nat.le_refl k) fun _ closing => closing.stops _⟩

theorem unenclosed_int (v : Int64) : Unenclosed k (.number (.int v) ()) := by
  refine .construct true (by rw [Node.written]) (by simp [atomStart, Token.Content.kind]) rfl ?_
  rw [Node.written]
  exact atom_takes_int v

theorem unenclosed_string (s : String) : Unenclosed k (.string s ()) := by
  refine .construct true (by rw [Node.written]) (by simp [atomStart, Token.Content.kind]) rfl ?_
  rw [Node.written]
  exact atom_takes_string s

theorem unenclosed_access (name : String) : Unenclosed k (.access name ()) := by
  refine .construct true (by rw [Node.written]) (by simp [atomStart, Token.Content.kind]) rfl ?_
  rw [Node.written]
  exact atom_takes_access name

theorem unenclosed_list {es : List (Node Unit)} (h : ∀ e ∈ es, Fits k (level k) e) :
    Unenclosed k (.list es ()) := by
  refine .construct true (by rw [Node.written]) (by decide) rfl ?_
  rw [Node.written]
  exact atom_takes_list h (Nat.le_refl k) (Nat.le_succ k)

theorem unenclosed_whileLoop {c body : Node Unit} {block : Bool} (condition : Fits k (level k) c)
    (h : FitsBody k (level k) block body) : Unenclosed k (.whileLoop c body block ()) := by
  refine .construct block (by rw [Node.written]) (by decide) rfl ?_
  rw [Node.written]
  refine .fromHere fun c is => ?_
  simp only [is]
  refine .advance fun _ => ?_
  exact (whileLoop_takes (statement_refuses k) condition h (Nat.le_refl k) (Nat.le_succ k)
    c.mark).mono (Nat.le_refl k) fun _ ends open_ => (ends open_).closing

theorem unenclosed_forLoop {name : String} {first last : Node Unit} {step : Option (Node Unit)}
    {body : Node Unit} {block : Bool} (begins : Fits k (level k) first)
    (stops : Fits k (level k) last) (increment : ∀ d ∈ step, Fits k (level k) d)
    (h : FitsBody k (level k) block body) :
    Unenclosed k (.forLoop name first last step body block ()) := by
  refine .construct block (by rw [Node.written]) (by decide) rfl ?_
  rw [Node.written]
  refine .fromHere fun c is => ?_
  simp only [is]
  refine .advance fun _ => ?_
  exact (forLoop_takes (statement_refuses k) begins stops increment h (Nat.le_refl k)
    (Nat.le_succ k) c.mark).mono (Nat.le_refl k) fun _ ends open_ => (ends open_).closing

theorem unenclosed_function {name : Option String} {params : List String} {body : Node Unit}
    {auto : Bool} (h : FitsFunction k (level k) auto body) :
    Unenclosed k (.function name params body auto ()) := by
  refine .construct (!auto) (by rw [Node.written]) (by decide) (by cases auto <;> rfl) ?_
  rw [Node.written]
  refine .fromHere fun c is => ?_
  simp only [is]
  refine .advance fun _ => ?_
  exact (function_takes (statement_refuses k) name params h (Nat.le_refl k) (Nat.le_succ k)
    c.mark).mono (Nat.le_refl k) fun _ ends open_ => (ends open_).closing

theorem unenclosed_cond {arms : List (Arm (Node Unit))} {last : Option (Otherwise (Node Unit))}
    {block : Bool} (some : arms ≠ []) (h : ∀ a ∈ arms, FitsArm k (level k) block a)
    (ho : ∀ o ∈ last, FitsOtherwise k (level k) block o) : Unenclosed k (.cond arms last ()) := by
  have flag : arms.any Arm.suppress = block := by
    cases arms with
    | nil => exact absurd rfl some
    | cons a as =>
      cases block with
      | true => simp [(h a (by simp)).flag]
      | false => simpa using ⟨(h a (by simp)).flag, fun x mem => (h x (by simp [mem])).flag⟩
  refine .construct block (by rw [Node.written]) (by decide) ?_ ?_
  · rw [Node.strength, flag]
  · rw [Node.written, flag]
    refine .fromHere fun c is => ?_
    simp only [is]
    refine .advance fun _ => ?_
    exact conditional_takes (statement_refuses k) some h ho (Nat.le_refl k) (Nat.le_succ k) c.mark

end Constructs

section Operators

variable {k : Nat}

theorem unenclosed_assign {name : String} {v : Node Unit} (head : Headed (.assign name v ()))
    (h : ∀ k, Unenclosed k v) : Unenclosed k (.assign name v ()) := by
  refine .single (q := .expression) head rfl (by decide) ?_
  rw [Node.written]
  refine .fromHere fun c is => ?_
  rw [Cursor.kind_of_content is]
  refine .advance fun _ => ?_
  refine .less (.name name ?_)
  refine .less (.expect (.symbol .assign) _ fun _ => ?_)
  refine (level_takes h k .expression).last fun t spelt => .pure ?_
  rw [Spelt, Node.erase_assign, spelt]

theorem unenclosed_unary {op : UnaryOp} {v : Node Unit} (head : Headed (.unary op v ()))
    (h : ∀ k, Unenclosed k v) : Unenclosed k (.unary op v ()) := by
  refine .single (q := op.rung) head rfl (by cases op <;> decide) ?_
  rw [Node.written]
  cases op with
  | not =>
    refine .fromHere fun c is => ?_
    rw [Cursor.kind_of_content is]
    refine .advance fun _ => ?_
    refine (level_takes h k .comparison).last fun t spelt => .pure ?_
    rw [Spelt, Node.erase_unary, spelt]
  | plus | minus =>
    refine .fromHere fun c is => ?_
    rw [Cursor.kind_of_content is]
    refine .advance fun _ => ?_
    refine (level_takes h k .factor).last fun t spelt => .pure ?_
    rw [Spelt, Node.erase_unary, spelt]

theorem BinaryOp.content_inj {op op' : BinaryOp} (h : op.content = op'.content) : op = op' := by
  cases op <;> cases op' <;> first | rfl | cases h

theorem Rung.stops_content {q : Rung} {op : BinaryOp} (h : op.rung.rank < q.rank) :
    q.Stops op.content := by
  refine ⟨fun op' eq => ?_, fun eq => ?_⟩
  · rw [← BinaryOp.content_inj eq]
    exact h
  · cases op <;> cases eq

theorem Rung.Stops.factor {x : Token.Content} (h : Rung.power.Stops x) : Rung.factor.Stops x := by
  refine ⟨fun op eq => ?_, fun eq => absurd (h.call eq) (by decide)⟩
  have below := h.operator op eq
  cases op with
  | pow => exact absurd below (by decide)
  | _ => decide

theorem unenclosed_power {l r : Node Unit} (head : Headed (.binary .pow l r ()))
    (hl : ∀ k, Unenclosed k l) (hr : ∀ k, Unenclosed k r) :
    Unenclosed k (.binary .pow l r ()) := by
  refine .single (q := .power) head rfl (by decide) ?_
  rw [Node.written]
  have left : Joins (k + 1) (power (k + 1) (level k)) _ _ _ l :=
    Joins.first ((Unenclosed.standing hl k).takes .call) (Nat.le_refl _)
  have stop : Rung.call.Stops BinaryOp.pow.content := Rung.stops_content (by decide)
  have joined := left.operand rfl stop (Nat.le_refl _) (level_takes hr k .factor)
  exact joined.joined fun x stops => ⟨stops.factor, stops.find_none⟩

structure BinaryOp.Looped (op : BinaryOp) : Prop where
  loops : op.rung.Loops
  left : op.leftRung = op.rung
  right : op.rightRung = op.rung.next
  next : op.rung.next.rank = op.rung.rank + 1
  found : op.rung.ops.find? (·.kind = op.kind) = some op

theorem BinaryOp.looped {op : BinaryOp} (h : op ≠ .pow) : op.Looped := by
  cases op with
  | pow => exact absurd rfl h
  | _ => exact ⟨by simp [Rung.Loops, rung], rfl, rfl, rfl, rfl⟩

theorem unenclosed_binary {op : BinaryOp} {l r : Node Unit} (head : Headed (.binary op l r ()))
    (h : op.Looped) (hl : ∀ k, Unenclosed k l) (hr : ∀ k, Unenclosed k r) :
    Unenclosed k (.binary op l r ()) := by
  have next := h.next
  have left := (Unenclosed.standing hl k).joins op.rung h.loops
  have right := (Unenclosed.standing hr k).takes op.rung.next
  have joined := left.operand h.found (Rung.stops_content (by omega)) (Nat.le_refl _) right.less
  have written : (Node.binary op l r ()).written =
      l.operand op.rung ++ op.content :: r.operand op.rung.next := by
    rw [Node.written, h.left, h.right]
    rfl
  rw [← written] at joined
  refine .ofRung (q := op.rung) head rfl ?_ (fun _ => joined) (fun eq => ?_)
  · exact joined.joined fun x stops => ⟨stops.mono (by omega), stops.find_none⟩
  · cases op <;> cases eq

theorem unenclosed_call {f : Node Unit} {args : List (Node Unit)} (head : Headed (.call f args ()))
    (callee : ∀ k, Unenclosed k f) (h : ∀ a ∈ args, Fits k (level k) a) :
    Unenclosed k (.call f args ()) := by
  have stop : Rung.atom.Stops (.symbol .leftParen) :=
    ⟨fun op eq => by (cases op <;> cases eq), fun _ => by decide⟩
  have called : Joins (k + 1) (call (k + 1) (level k)) (callsFrom (k + 1) (level k))
      (Node.call f args ()).written Rung.atom.Stops (.call f args ()) := by
    rw [Node.written]
    exact (Unenclosed.standing callee k).calls.call stop (Nat.le_refl _)
      (items_takes (.inl rfl) h (Nat.le_refl k) (Nat.le_succ k))
  refine .ofRung (q := .call) head rfl ?_ (fun loops => absurd loops (by decide)) (fun _ => called)
  refine called.called fun x stops => ⟨stops.mono (by decide), fun eq => ?_⟩
  exact absurd (stops.call (Token.Content.eq_symbol eq)) (by decide)

end Operators

section Statements

variable {k : Nat}

theorem fitsStatement_of_opens {s : Node Unit} {x : Token.Content} {xs : List Token.Content}
    (written : s.written = x :: xs) (start : x.kind ∈ statementStart)
    (strength : s.strength = Rung.atom.rank)
    (h : Takes k (statement (level k)) s.written Closing (Spelt s)) :
    FitsStatement k (level k) s := by
  have same : s.operand .expression = s.written := Node.operand_of_le (strength ▸ by decide)
  refine ⟨⟨x, xs, written, start⟩, h.mono (Nat.le_refl k) ?_, ?_, ?_⟩
  · rintro _ rfl
    exact .newline
  · rw [same]
    exact ⟨x, xs, written, start⟩
  · rw [same]
    exact h

theorem Closing.start {x : Token.Content} (h : Closing x) : x.kind ∉ expressionStart := by
  cases h <;> decide

theorem fitsStatement_returns : FitsStatement k (level k) (.returns none ()) := by
  refine fitsStatement_of_opens (by rw [Node.written]) (by decide) rfl ?_
  cases k with
  | zero => exact .zero
  | succ k =>
    rw [Node.written, Node.writtenValue]
    refine .fromHere fun c is => ?_
    rw [Cursor.kind_of_content is]
    refine .advance fun _ => ?_
    refine ((Takes.givenUp (level_refuses (k + 1) .expression)).mono (Nat.le_succ k)
      fun x closing => closing.start).last ?_
    rintro _ rfl
    exact .pure (by rw [Spelt, Node.erase_returns]; rfl)

theorem fitsStatement_returnsValue {v : Node Unit} (h : ∀ k, Fits k (level k) v) :
    FitsStatement k (level k) (.returns (some v) ()) := by
  refine fitsStatement_of_opens (by rw [Node.written]) (by decide) rfl ?_
  cases k with
  | zero => exact .zero
  | succ k =>
    rw [Node.written, Node.writtenValue]
    refine .fromHere fun c is => ?_
    rw [Cursor.kind_of_content is]
    refine .advance fun _ => ?_
    refine ((h (k + 1)).takes.attempt.mono (Nat.le_succ k) fun _ => id).last ?_
    rintro _ ⟨t, rfl, spelt⟩
    exact .pure (by rw [Spelt, Node.erase_returns, Option.map_some, spelt])

theorem fitsStatement_breaks : FitsStatement k (level k) (.breaks ()) := by
  refine fitsStatement_of_opens (by rw [Node.written]) (by decide) rfl ?_
  rw [Node.written]
  refine .fromHere fun c is => ?_
  rw [Cursor.kind_of_content is]
  exact .less (.advance fun _ => .pure (Node.erase_breaks ..))

theorem fitsStatement_continues : FitsStatement k (level k) (.continues ()) := by
  refine fitsStatement_of_opens (by rw [Node.written]) (by decide) rfl ?_
  rw [Node.written]
  refine .fromHere fun c is => ?_
  rw [Cursor.kind_of_content is]
  exact .less (.advance fun _ => .pure (Node.erase_continues ..))

theorem statement_takes_expression {S : Token.Content → Prop} {cs : List Token.Content}
    {n : Node Unit} {x : Token.Content} {xs : List Token.Content} (split : cs = x :: xs)
    (start : x.kind ∈ expressionStart) (h : Takes k (level k .expression) cs S (Spelt n)) :
    Takes k (statement (level k)) cs S (Spelt n) := by
  subst split
  refine .fromHere fun c is => ?_
  have kind := Cursor.kind_of_content is
  have other {k : Token.Kind} (out : k ∉ expressionStart) : c.kind ≠ k := by
    rintro rfl
    exact out (kind ▸ start)
  split
  · next eq => exact absurd eq (other (by decide))
  · next eq => exact absurd eq (other (by decide))
  · next eq => exact absurd eq (other (by decide))
  · exact h.describing _

theorem fitsStatement_expression {n : Node Unit} (head : Headed n) (h : ∀ k, Unenclosed k n) :
    FitsStatement k (level k) n := by
  have inline := (fits head h k).takes
  have line : Takes k (level k .expression) n.written (· = .newline) (Spelt n) := by
    cases k with
    | zero => exact .zero
    | succ k => exact (h k).ended.mono (Nat.le_refl _) fun x eq => .inl eq
  obtain ⟨y, ys, operand, admits⟩ := head.operand .expression
  obtain ⟨x, xs, written, start, -⟩ := id head
  have subset : expressionStart ⊆ statementStart := by decide
  exact ⟨⟨x, xs, written, subset start⟩, statement_takes_expression written start line,
    head.opens .expression, statement_takes_expression operand admits.start inline⟩

end Statements

/-- What is written for a tree is read back as the tree, in the role that it has. -/
def Role.Reads : Role → Node Unit → Prop
  | .expression, n => ∀ k, Unenclosed k n
  | .statement, n => ∀ k, FitsStatement k (level k) n
  | .block, n => ∀ k, FitsBody k (level k) true n

theorem Role.Reads.body {block : Bool} {n : Node Unit} (h : (Role.ofBody block).Reads n)
    (k : Nat) : FitsBody k (level k) block n := by
  cases block with
  | true => exact h k
  | false => exact h k

theorem reads_of_canonical {role : Role} {n : Node Unit} (h : Canonical role n) :
    role.Reads n := by
  -- on how the tree was built; each part is read at all levels, since parts lie deeper by
  -- different numbers of tokens
  induction h with
  | int => exact fun k => unenclosed_int _
  | string s => exact fun k => unenclosed_string s
  | access => exact fun k => unenclosed_access _
  | list h ih =>
    exact fun k => unenclosed_list fun e mem => fits (headed (h e mem) rfl) (ih e mem) k
  | assign named h ih => exact fun k => unenclosed_assign (headed (.assign named h) rfl) ih
  | unary h ih => exact fun k => unenclosed_unary (headed (.unary h) rfl) ih
  | @binary op l r left right ihl ihr =>
    have head : Headed (.binary op l r ()) := headed (.binary left right) rfl
    by_cases pow : op = .pow
    · subst pow
      exact fun k => unenclosed_power head ihl ihr
    · exact fun k => unenclosed_binary head (BinaryOp.looped pow) ihl ihr
  | call callee h ihf ih =>
    exact fun k => unenclosed_call (headed (.call callee h) rfl) ihf fun a mem =>
      fits (headed (h a mem) rfl) (ih a mem) k
  | cond block some flags conditions bodies flag body ihc ihb iho =>
    exact fun k => unenclosed_cond some
      (fun a mem => ⟨flags a mem, fits (headed (conditions a mem) rfl) (ihc a mem) k,
        (ihb a mem).body k⟩)
      (fun o mem => ⟨flag o mem, (iho o mem).body k⟩)
  | forLoop named start stop increment h ihs ihl ihi ih =>
    exact fun k => unenclosed_forLoop (fits (headed start rfl) ihs k) (fits (headed stop rfl) ihl k)
      (fun d mem => fits (headed (increment d mem) rfl) (ihi d mem) k) (ih.body k)
  | whileLoop condition h ihc ih =>
    exact fun k => unenclosed_whileLoop (fits (headed condition rfl) ihc k) (ih.body k)
  | @function _ _ _ auto _ _ h ih =>
    refine fun k => unenclosed_function ?_
    cases auto with
    | true => exact fits (headed h rfl) ih k
    | false => exact ih k
  | returns => exact fun k => fitsStatement_returns
  | returnsValue h ih => exact fun k => fitsStatement_returnsValue (fits (headed h rfl) ih)
  | breaks => exact fun k => fitsStatement_breaks
  | continues => exact fun k => fitsStatement_continues
  | expression h ih => exact fun k => fitsStatement_expression (headed h rfl) ih
  | block h ih => exact fun k => ⟨_, rfl, fun s mem => ih s mem k⟩

section Writing

def Writable (cs : List Token.Content) : Prop := ∀ x ∈ cs, x.Writable

variable {n : Node Unit} {cs ds : List Token.Content} {x : Token.Content}

@[simp] theorem writable_nil : Writable [] := List.forall_mem_nil _

@[simp] theorem writable_cons : Writable (x :: cs) ↔ x.Writable ∧ Writable cs :=
  List.forall_mem_cons

@[simp] theorem writable_append : Writable (cs ++ ds) ↔ Writable cs ∧ Writable ds :=
  List.forall_mem_append

@[simp] theorem writable_keyword (k : Keyword) : (Token.Content.keyword k).Writable := trivial

@[simp] theorem writable_symbol (s : Symbol) : (Token.Content.symbol s).Writable := trivial

@[simp] theorem writable_newline : Token.Content.newline.Writable := trivial

@[simp] theorem writable_enclose (r : Rung) : Writable (Node.enclose r n cs) ↔ Writable cs := by
  unfold Node.enclose
  split <;> simp

@[simp] theorem writable_unaryOp (op : UnaryOp) : op.content.Writable := by cases op <;> trivial

@[simp] theorem writable_binaryOp (op : BinaryOp) : op.content.Writable := by cases op <;> trivial

theorem writable_row {es : List (Node Unit)} (h : ∀ e ∈ es, Writable e.written) :
    Writable (Node.writtenRow es) := by
  cases es with
  | nil => rw [Node.writtenRow]; exact writable_nil
  | cons e es =>
    rw [Node.writtenRow_cons, writable_append]
    refine ⟨(writable_enclose _).mpr (h e (by simp)), fun x mem => ?_⟩
    obtain ⟨d, among, mem⟩ := List.mem_flatMap.mp mem
    have further : Writable (.symbol .comma :: d.operand .expression) :=
      writable_cons.mpr ⟨trivial, (writable_enclose _).mpr (h d (by simp [among]))⟩
    exact further x mem

theorem writable_lines {ss : List (Node Unit)} (h : ∀ s ∈ ss, Writable s.written) :
    Writable (Node.writtenLines ss) := by
  induction ss with
  | nil => rw [Node.writtenLines]; exact writable_nil
  | cons s ss ih =>
    rw [Node.writtenLines]
    simpa using ⟨h s (by simp), ih fun t mem => h t (by simp [mem])⟩

theorem writable_arms {as : List (Arm (Node Unit))}
    (h : ∀ a ∈ as, Writable a.condition.written ∧ Writable a.body.written) :
    Writable (Node.writtenArms as) := by
  induction as with
  | nil => rw [Node.writtenArms]; exact writable_nil
  | cons a as ih =>
    obtain ⟨c, b, suppress⟩ := a
    have own := h _ (List.mem_cons_self ..)
    have rest := ih fun d mem => h d (by simp [mem])
    cases as with
    | nil =>
      rw [Node.writtenArms]
      cases suppress <;> simpa using own
    | cons d as =>
      rw [Node.writtenArms]
      · cases suppress <;> simpa [rest] using own
      · intro eq
        cases eq

theorem writable_otherwise {last : Option (Otherwise (Node Unit))}
    (h : ∀ o ∈ last, Writable o.body.written) : Writable (Node.writtenOtherwise last) := by
  cases last with
  | none => rw [Node.writtenOtherwise]; exact writable_nil
  | some o =>
    obtain ⟨b, suppress⟩ := o
    rw [Node.writtenOtherwise]
    cases suppress <;> simpa using h _ rfl

theorem writable_names {params : List String} (h : ∀ s ∈ params, isName s) :
    Writable (Phrase.names params) := by
  cases params with
  | nil => exact writable_nil
  | cons p params =>
    rw [names_cons, writable_cons]
    refine ⟨h p (by simp), fun x mem => ?_⟩
    obtain ⟨q, among, mem⟩ := List.mem_flatMap.mp mem
    have further : Writable [.symbol .comma, .identifier q] := by
      simpa [Token.Content.Writable] using h q (by simp [among])
    exact further x mem

theorem writable_written {role : Role} (h : Canonical role n) : Writable n.written := by
  induction h with
  | int h => rw [Node.written]; simpa [Token.Content.Writable] using h
  | string s => rw [Node.written]; simp [Token.Content.Writable]
  | access h => rw [Node.written]; simpa [Token.Content.Writable] using h
  | list h ih =>
    rw [Node.written]
    simpa using writable_row ih
  | assign named h ih =>
    rw [Node.written]
    simpa [Token.Content.Writable] using ⟨named, ih⟩
  | unary h ih =>
    rw [Node.written]
    simpa using ih
  | binary left right ihl ihr =>
    rw [Node.written]
    simpa using ⟨ihl, ihr⟩
  | call callee h ihf ih =>
    rw [Node.written]
    simpa using ⟨ihf, writable_row ih⟩
  | @cond arms last block some flags conditions bodies flag body ihc ihb iho =>
    have arms := writable_arms fun a mem => ⟨ihc a mem, ihb a mem⟩
    have last := writable_otherwise iho
    rw [Node.written]
    simp only [writable_cons, writable_append, writable_keyword, true_and]
    exact ⟨arms, last, by split <;> simp⟩
  | @forLoop _ _ _ step _ block named start stop increment h ihs ihl ihi ih =>
    have step : Writable (Node.writtenStep step) := by
      cases step with
      | none => rw [Node.writtenStep]; exact writable_nil
      | some d => rw [Node.writtenStep]; simpa using ihi d rfl
    rw [Node.written]
    cases block <;> simpa [Token.Content.Writable] using ⟨named, ihs, ihl, step, ih⟩
  | @whileLoop _ _ block condition h ihc ih =>
    rw [Node.written]
    cases block <;> simpa using ⟨ihc, ih⟩
  | @function name params _ auto named names h ih =>
    have head : Writable (name.map Token.Content.identifier).toList := by
      cases name with
      | none => exact writable_nil
      | some s => simpa [Token.Content.Writable] using named s rfl
    rw [Node.written]
    cases auto <;> simpa using ⟨head, writable_names names, ih⟩
  | returns =>
    rw [Node.written, Node.writtenValue]
    simp
  | returnsValue h ih =>
    rw [Node.written, Node.writtenValue]
    simpa using ih
  | breaks => rw [Node.written]; simp
  | continues => rw [Node.written]; simp
  | expression h ih => exact ih
  | block h ih =>
    rw [Node.written]
    exact writable_lines ih

end Writing

theorem program_takes {ss : List (Node Unit)} {k : Nat}
    (h : ∀ s ∈ ss, FitsStatement k (level k) s) :
    Takes k (program k) (Node.writtenLines ss) (· = .eof) (Spelt (.block ss ())) := by
  have lines := statements_takes (statement_refuses k) h (Nat.le_refl k) (Nat.le_refl k)
  refine (lines.mono (Nat.le_refl k) ?_).last ?_
  · rintro _ rfl
    exact ⟨by decide, by decide⟩
  · intro read spelt
    refine .fromStop fun c is => ?_
    rw [if_pos (show c.kind = .eof from Cursor.kind_of_content is)]
    exact .pure spelt

/-- Every program that can be written down is what is read from its text. -/
theorem parse_print {n : Node Unit} (h : Canonical .block n) (name : String) :
    ∃ ts t, scan ⟨name, n.print⟩ = .ok ts ∧ parse ts = .ok t ∧ t.erase = n := by
  obtain ⟨ts, scanned, contents⟩ := scan_spellings name n.written (writable_written h)
  cases ts with
  | nil => simp at contents
  | cons first rest =>
    obtain ⟨ss, rfl, lines⟩ := reads_of_canonical h (rest.length + 1)
    rw [Node.written] at contents
    obtain ⟨t, c', done, -, spelt⟩ := program_takes lines (.ofTokens first rest) .eof [] contents
      rfl (by simp [Cursor.rest, Cursor.ofTokens])
    refine ⟨first :: rest, t, scanned, ?_, spelt⟩
    simp only [parse, done]

/-- A sign under a power, a power of a signed one, and a body that is left without a value. -/
def signedPowers : Node Unit :=
  .block [.cond [⟨.binary .pow (.unary .minus (.number (.int 2) ()) ()) (.access "x" ()) (),
      .returns none (), false⟩]
    (some ⟨.binary .pow (.access "x" ())
      (.unary .minus (.binary .pow (.number (.int 2) ()) (.number (.int 3) ()) ()) ()) (), false⟩)
    ()] ()

theorem parse_print_signedPowers : Canonical .block signedPowers ∧
    signedPowers.print = "IF ( - 2 ) ^ x THEN RETURN ELSE x ^ - 2 ^ 3 \n" ∧
    ∃ ts t, scan ⟨"<stdin>", signedPowers.print⟩ = .ok ts ∧ parse ts = .ok t ∧
      t.erase = signedPowers := by
  have two : Canonical .expression (.number (.int 2) ()) := .int (by decide)
  have three : Canonical .expression (.number (.int 3) ()) := .int (by decide)
  have x : Canonical .expression (.access "x" ()) := .access (by decide +kernel)
  have canonical : Canonical .block signedPowers := by
    refine .block fun s mem => ?_
    rw [List.mem_singleton.mp mem]
    refine .expression (.cond false (by simp) ?_ ?_ ?_ ?_ ?_)
    · simp
    · simpa using Canonical.binary (.unary two) x
    · simpa [Role.ofBody] using Canonical.returns
    · simp
    · simpa [Role.ofBody] using Canonical.expression (.binary x (.unary (.binary two three)))
  exact ⟨canonical, by decide +kernel, parse_print canonical "<stdin>"⟩

end ScriptLang
