import ScriptLang.Proofs.Print.Ladder

/-! The constructs of the language, read from what was written for them, given that their parts
are. -/
namespace ScriptLang

open Grammar Rule

variable {bound b fuel m : Nat} {self : Level → Rule Tree} {S T : Token.Content → Prop}

def Opens (cs : List Token.Content) : Prop :=
  ∃ x xs, cs = x :: xs ∧ x.kind ∈ statementStart

theorem Opens.first {cs : List Token.Content} (h : Opens cs) {k : Token.Kind}
    (other : k ∉ statementStart) (x : Token.Content) : (firstOf cs x).kind ≠ k := by
  obtain ⟨y, ys, rfl, start⟩ := h
  rintro rfl
  exact other start

theorem Opens.append {cs : List Token.Content} (h : Opens cs) (ds : List Token.Content) :
    Opens (cs ++ ds) := by
  obtain ⟨x, xs, rfl, start⟩ := h
  exact ⟨x, xs ++ ds, rfl, start⟩

structure Fits (bound : Nat) (reader : Level → Rule Tree) (n : Node Unit) : Prop where
  opens : Opens (n.operand .expression)
  takes : Takes bound (reader .expression) (n.operand .expression) Closing (Spelt n)

section Items

variable {es : List (Node Unit)} {close : Symbol}

def furtherWritten (es : List (Node Unit)) : List Token.Content :=
  es.flatMap fun e => .symbol .comma :: e.operand .expression

theorem furtherWritten_cons (e : Node Unit) (es : List (Node Unit)) : furtherWritten (e :: es) =
    .symbol .comma :: (e.operand .expression ++ furtherWritten es) := rfl

theorem Node.writtenRow_cons (e : Node Unit) (es : List (Node Unit)) :
    writtenRow (e :: es) = e.operand .expression ++ furtherWritten es := by
  induction es generalizing e with
  | nil => simp [writtenRow, operand, furtherWritten]
  | cons d es ih =>
    have step : writtenRow (e :: d :: es) =
        e.operand .expression ++ .symbol .comma :: writtenRow (d :: es) := by
      simp [writtenRow, operand]
    rw [step, ih]
    simp [furtherWritten]

def Symbol.Bracket (close : Symbol) : Prop := close = .rightParen ∨ close = .rightBracket

theorem Symbol.Bracket.closing (h : close.Bracket) : Closing (.symbol close) := by
  obtain rfl | rfl := h
  · exact .rightParen
  · exact .rightBracket

theorem firstOf_furtherWritten {x : Token.Content} (h : Closing x) :
    Closing (firstOf (furtherWritten es) x) := by
  cases es with
  | nil => exact h
  | cons e es => exact .comma

theorem moreExpressions_takes (bracket : close.Bracket)
    (h : ∀ e ∈ es, Fits bound self e) (le : b ≤ bound) (enough : b ≤ m) :
    Takes b (moreExpressions self m) (furtherWritten es) (· = .symbol close)
      (fun ts => ts.map Node.erase = es) := by
  induction es generalizing b m with
  | nil =>
    refine .counted enough ?_
    rintro b m rfl rfl
    refine .declined (fun x eq => ?_) (.pure rfl)
    subst eq
    obtain rfl | rfl := bracket <;> decide
  | cons e es ih =>
    refine .counted enough ?_
    rintro b m rfl rfl
    rw [furtherWritten_cons]
    refine .accepted (.symbol .comma) ?_
    refine ((h e (by simp)).takes.mono (by omega) fun _ => id).bind (fun x eq => ?_)
      fun t spelt => ?_
    · subst eq
      exact firstOf_furtherWritten bracket.closing
    · refine (ih (fun d mem => h d (by simp [mem])) (by omega) (by omega)).last
        fun ts spelts => .pure ?_
      rw [List.map_cons, spelt, spelts]

theorem items_takes (bracket : close.Bracket) (h : ∀ e ∈ es, Fits bound self e)
    (le : b ≤ bound) (enough : b ≤ fuel) :
    Takes b (items fuel self close) (Node.writtenRow es ++ [.symbol close]) S
      (fun ts => ts.map Node.erase = es) := by
  cases b with
  | zero => exact .zero
  | succ b =>
    cases es with
    | nil => exact .accepted (.symbol close) (.pure rfl)
    | cons e es =>
      rw [Node.writtenRow_cons, List.append_assoc]
      have other : .symbol close ∉ statementStart := by
        obtain rfl | rfl := bracket <;> decide
      refine .declined (fun x _ => ((h e (by simp)).opens.append _).first other x) ?_
      refine (((h e (by simp)).takes.mono le fun _ => id).describing _).bind (fun x _ => ?_)
        fun t spelt => ?_
      · cases es with
        | nil => exact bracket.closing
        | cons d es => exact .comma
      · refine (moreExpressions_takes bracket (fun d mem => h d (by simp [mem])) le enough).bind
          (fun x _ => rfl) fun ts spelts => ?_
        refine .expect (.symbol close) _ fun _ => .pure ?_
        rw [List.map_cons, spelt, spelts]

end Items

section Blocks

variable {s : Node Unit} {ss : List (Node Unit)}

structure FitsStatement (bound : Nat) (reader : Level → Rule Tree) (s : Node Unit) : Prop where
  opensLine : Opens s.written
  line : Takes bound (statement reader) s.written (· = .newline) (Spelt s)
  opensInline : Opens (s.operand .expression)
  inline : Takes bound (statement reader) (s.operand .expression) Closing (Spelt s)

/-- A block is left where no statement begins: no other token is read as one. -/
abbrev EndsBlocks (bound : Nat) (reader : Level → Rule Tree) : Prop :=
  (statement reader).Refuses bound (·.kind ∉ statementStart)

structure BlockEnd (x : Token.Content) : Prop where
  start : x.kind ∉ statementStart
  line : x.kind ≠ .newline

theorem blockEnd_keyword {k : Keyword} (h : k = .END ∨ k = .ELIF ∨ k = .ELSE) :
    BlockEnd (.keyword k) := by
  obtain rfl | rfl | rfl := h <;> exact ⟨by decide, by decide⟩

theorem newlines_none (enough : b ≤ m) :
    Takes b (newlines m) [] (fun x => x.kind ≠ .newline) (· = false) := by
  refine .counted enough ?_
  rintro b m rfl rfl
  exact .declined (fun x other => other) (.pure rfl)

theorem newlines_one (enough : b ≤ m) :
    Takes b (newlines m) [.newline] (fun x => x.kind ≠ .newline) (· = true) := by
  refine .counted enough ?_
  rintro b m rfl rfl
  exact .accepted .newline ((newlines_none (by omega)).last fun _ _ => .pure rfl)

theorem firstOf_writtenLines (h : ∀ s ∈ ss, Opens s.written) {x : Token.Content}
    (ends : BlockEnd x) : (firstOf (Node.writtenLines ss) x).kind ≠ .newline := by
  cases ss with
  | nil =>
    rw [Node.writtenLines]
    exact ends.line
  | cons s ss =>
    rw [Node.writtenLines]
    exact ((h s (by simp)).append _).first (by decide) x

theorem statementsFrom_takes (refuses : EndsBlocks bound self)
    (h : ∀ s ∈ ss, FitsStatement bound self s) (le : b ≤ bound) (enough : b ≤ fuel)
    (steps : b ≤ m) : Takes b (statementsFrom fuel self m) (Node.writtenLines ss) BlockEnd
      (fun read => read.1.map Node.erase = ss) := by
  induction ss generalizing b m with
  | nil =>
    refine .counted steps ?_
    rintro b m rfl rfl
    have up : Takes (b + 1) (attempt (statement self)) [] BlockEnd (· = none) :=
      (Takes.givenUp refuses).mono le fun x ends => ends.start
    rw [Node.writtenLines]
    refine up.last ?_
    rintro _ rfl
    exact .pure rfl
  | cons s ss ih =>
    refine .counted steps ?_
    rintro b m rfl rfl
    have first := h s (by simp)
    have rest (t : Node Unit) (mem : t ∈ ss) : FitsStatement bound self t := h t (by simp [mem])
    rw [Node.writtenLines]
    refine (first.line.attempt.mono le fun _ => id).bind (fun x _ => rfl) ?_
    rintro _ ⟨t, rfl, spelt⟩
    refine (newlines_one enough).bindLess (Nat.le_refl _) (fun x ends =>
      firstOf_writtenLines (fun u mem => (rest u mem).opensLine) ends) ?_
    rintro _ rfl
    refine (ih rest (by omega) (by omega) (by omega)).last fun read spelts => .pure ?_
    rw [List.map_cons, spelt, spelts]

theorem statements_takes (refuses : EndsBlocks bound self)
    (h : ∀ s ∈ ss, FitsStatement bound self s) (le : b ≤ bound) (enough : b ≤ fuel) :
    Takes b (statements fuel self) (Node.writtenLines ss) BlockEnd
      (fun read => Spelt (.block ss ()) read.1) := by
  refine .here fun c => ?_
  rw [← List.nil_append (Node.writtenLines ss)]
  refine (newlines_none enough).bind (fun x ends =>
    firstOf_writtenLines (fun s mem => (h s mem).opensLine) ends) fun _ _ => ?_
  refine (statementsFrom_takes refuses h le enough enough).last fun read spelts => .pure ?_
  rw [Spelt, Node.erase_block, spelts]

theorem closedBlock_takes (refuses : EndsBlocks bound self)
    (h : ∀ s ∈ ss, FitsStatement bound self s) (le : b ≤ bound) (enough : b ≤ fuel) :
    Takes b (closedBlock fuel self) (Node.writtenLines ss ++ [.keyword .END]) S
      (Spelt (.block ss ())) := by
  refine (statements_takes refuses h le enough).bind
    (fun x _ => blockEnd_keyword (.inl rfl)) fun read spelt => ?_
  exact .less (.accepted (.keyword .END) (.pure spelt))

end Blocks

section Bodies

variable {block : Bool} {n : Node Unit}

def FitsBody (bound : Nat) (reader : Level → Rule Tree) : Bool → Node Unit → Prop
  | true, n => ∃ ss, n = .block ss () ∧ ∀ s ∈ ss, FitsStatement bound reader s
  | false, n => FitsStatement bound reader n

/-- An inline body reads on, so what follows it has to end it. -/
def Halts (block : Bool) (x : Token.Content) : Prop := block = false → Closing x

theorem body_takes (refuses : EndsBlocks bound self)
    (h : FitsBody bound self block n) (le : b ≤ bound) (enough : b ≤ fuel) :
    Takes b (body fuel self)
      (if block then .newline :: (n.written ++ [.keyword .END]) else n.operand .expression)
      (Halts block) (fun read => Spelt n read.1 ∧ read.2.suppresses = block ∧
        read.2 ≠ .closedInline) := by
  cases block with
  | true =>
    obtain ⟨ss, rfl, h⟩ := h
    rw [if_pos rfl, Node.written]
    refine .less (.accepted .newline ?_)
    refine (closedBlock_takes refuses h le enough).last fun t spelt => .pure ⟨spelt, rfl, ?_⟩
    exact fun eq => by cases eq
  | false =>
    have h : FitsStatement bound self n := h
    refine .declined (fun x _ => h.opensInline.first (by decide) x) ?_
    refine (h.inline.mono le fun x halts => halts rfl).last fun t spelt => ?_
    refine .declined (fun x halts eq => ?_) (.pure ⟨spelt, rfl, fun eq => by cases eq⟩)
    have closing : Closing x := halts rfl
    obtain rfl : x = .keyword .END := Token.Content.eq_keyword eq
    cases closing

theorem otherwise_takes (refuses : EndsBlocks bound self)
    (h : FitsBody bound self block n) (le : b ≤ bound) (enough : b ≤ fuel) :
    Takes b (otherwise fuel self)
      (if block then .newline :: (n.written ++ [.keyword .END]) else n.operand .expression)
      (Halts block) (fun read => read.1.map Node.erase = ⟨n, block⟩ ∧ read.2 ≠ .closedInline) := by
  refine (body_takes refuses h le enough).last fun read found => .pure ?_
  obtain ⟨spelt, suppresses, form⟩ := found
  exact ⟨by rw [Otherwise.map, spelt, suppresses], form⟩

end Bodies

section Arms

variable {as : List (Arm (Node Unit))} {last : Option (Otherwise (Node Unit))} {block : Bool}

structure FitsArm (bound : Nat) (reader : Level → Rule Tree) (block : Bool)
    (a : Arm (Node Unit)) : Prop where
  flag : a.suppress = block
  condition : Fits bound reader a.condition
  body : FitsBody bound reader block a.body

structure FitsOtherwise (bound : Nat) (reader : Level → Rule Tree) (block : Bool)
    (o : Otherwise (Node Unit)) : Prop where
  flag : o.suppress = block
  body : FitsBody bound reader block o.body

/-- What is written behind the first arms of a chain: the other arms, the last body, and the `END`
of blocks. -/
def chainWritten (block : Bool) (last : Option (Otherwise (Node Unit))) :
    List (Arm (Node Unit)) → List Token.Content
  | [] => Node.writtenOtherwise last ++ if block then [.keyword .END] else []
  | a :: as => .keyword .ELIF :: (a.condition.operand .expression ++ .keyword .THEN ::
      ((if block then .newline :: a.body.written else a.body.operand .expression) ++
        chainWritten block last as))

theorem writtenArms_append (a : Arm (Node Unit)) (as : List (Arm (Node Unit)))
    (flags : ∀ x ∈ a :: as, x.suppress = block) :
    Node.writtenArms (a :: as) ++
      (Node.writtenOtherwise last ++ if block then [.keyword .END] else []) =
    a.condition.operand .expression ++ .keyword .THEN ::
      ((if block then .newline :: a.body.written else a.body.operand .expression) ++
        chainWritten block last as) := by
  induction as generalizing a with
  | nil =>
    obtain ⟨c, n, flag⟩ := a
    obtain rfl : flag = block := flags ⟨c, n, flag⟩ (by simp)
    simp [Node.writtenArms, Node.operand, chainWritten]
  | cons d as ih =>
    obtain ⟨c, n, flag⟩ := a
    obtain rfl : flag = block := flags ⟨c, n, flag⟩ (by simp)
    have rest := ih d fun x mem => flags x (by simp [mem])
    simp only [Node.writtenArms, Node.operand, chainWritten, List.append_assoc, List.cons_append]
      at rest ⊢
    rw [rest]

def Ends (x : Token.Content) : Prop := x = .newline ∨ x = .symbol .rightParen

theorem Ends.closing {x : Token.Content} (h : Ends x) : Closing x := by
  obtain rfl | rfl := h
  · exact .newline
  · exact .rightParen

theorem Ends.kind_ne {x : Token.Content} (h : Ends x) (k : Keyword) : x.kind ≠ .keyword k := by
  obtain rfl | rfl := h <;> exact fun eq => by cases eq

def EndsChain (block : Bool) (x : Token.Content) : Prop := block = false → Ends x

def SpeltChain (as : List (Arm (Node Unit))) (last : Option (Otherwise (Node Unit)))
    (read : List (Arm Tree) × Option (Otherwise Tree) × Bool) : Prop :=
  read.1.map (Arm.map Node.erase) = as ∧ read.2.1.map (Otherwise.map Node.erase) = last ∧
    read.2.2 = false

theorem FitsArm.spelt {a : Arm (Node Unit)} (h : FitsArm bound self block a) {c t : Tree}
    (condition : Spelt a.condition c) (body : Spelt a.body t) :
    Arm.map Node.erase ⟨c, t, block⟩ = a := by
  rw [Arm.map, condition, body, ← h.flag]

theorem chainWritten_else {o : Otherwise (Node Unit)} (flag : o.suppress = block) :
    chainWritten block (some o) [] = .keyword .ELSE ::
      if block then .newline :: (o.body.written ++ [.keyword .END])
      else o.body.operand .expression := by
  obtain ⟨n, suppress⟩ := o
  obtain rfl : suppress = block := flag
  cases suppress <;> simp [chainWritten, Node.writtenOtherwise, Node.operand]

theorem lastBlock_takes (refuses : EndsBlocks bound self)
    {a : Arm (Node Unit)} (fits : FitsArm bound self true a)
    (ho : ∀ o ∈ last, FitsOtherwise bound self true o) (le : b + 1 ≤ bound)
    (enough : b + 1 ≤ fuel) : Takes (b + 1) (arms fuel self (m + 1))
      (a.condition.operand .expression ++ .keyword .THEN ::
        (.newline :: a.body.written ++ chainWritten true last []))
      (EndsChain true) (SpeltChain [a] last) := by
  refine (fits.condition.takes.mono le fun _ => id).bind (fun x _ => .then) fun c spelt => ?_
  refine .expect (.keyword .THEN) _ fun _ => ?_
  obtain ⟨ss, is, lines⟩ := fits.body
  rw [is, Node.written]
  refine .less (.accepted .newline ?_)
  have read : Takes b (statements fuel self) _ _ _ :=
    statements_takes refuses lines (by omega) (by omega)
  cases last with
  | none =>
    rw [chainWritten, Node.writtenOtherwise]
    refine read.bind (fun x _ => blockEnd_keyword (.inl rfl)) fun t body => ?_
    refine .less (.accepted (.keyword .END) (.pure ?_))
    exact ⟨by simpa using fits.spelt spelt (is ▸ body), rfl, rfl⟩
  | some o =>
    have other := ho o rfl
    rw [chainWritten_else other.flag]
    refine read.bind (fun x _ => blockEnd_keyword (.inr (.inr rfl))) fun t body => ?_
    refine .declined (fun x _ eq => by cases eq) (.declined (fun x _ eq => by cases eq) ?_)
    refine .less (.accepted (.keyword .ELSE) ?_)
    refine Takes.last ((otherwise_takes refuses other.body (by omega) (by omega)).mono
      (Nat.le_refl b) fun x _ eq => by cases eq) fun found last => .pure ?_
    refine ⟨by simpa using fits.spelt spelt (is ▸ body), ?_, rfl⟩
    rw [Option.map_some, last.1, ← other.flag]

theorem lastInline_takes (refuses : EndsBlocks bound self)
    {a : Arm (Node Unit)} (fits : FitsArm bound self false a)
    (ho : ∀ o ∈ last, FitsOtherwise bound self false o) (le : b + 1 ≤ bound)
    (enough : b + 1 ≤ fuel) : Takes (b + 1) (arms fuel self (m + 1))
      (a.condition.operand .expression ++ .keyword .THEN ::
        (a.body.operand .expression ++ chainWritten false last []))
      (EndsChain false) (SpeltChain [a] last) := by
  refine (fits.condition.takes.mono le fun _ => id).bind (fun x _ => .then) fun c spelt => ?_
  refine .expect (.keyword .THEN) _ fun _ => ?_
  have inline : FitsStatement bound self a.body := fits.body
  refine .declined (fun x _ => (inline.opensInline.append _).first (by decide) x) ?_
  cases last with
  | none =>
    have written : chainWritten false none [] = [] := by
      simp [chainWritten, Node.writtenOtherwise]
    rw [written]
    refine (inline.inline.mono (by omega) fun _ => id).bind (fun x ends => (ends rfl).closing)
      fun t body => ?_
    have other (k : Keyword) (x : Token.Content) (ends : EndsChain false x) :
        (firstOf [] x).kind ≠ .keyword k := (ends rfl).kind_ne k
    refine .declined (other _) (.declined (other _) (.declined (other _) (.pure ?_)))
    exact ⟨by simpa using fits.spelt spelt body, rfl, rfl⟩
  | some o =>
    have other := ho o rfl
    rw [chainWritten_else other.flag]
    refine (inline.inline.mono (by omega) fun _ => id).bind (fun x _ => .else) fun t body => ?_
    refine .declined (fun x _ eq => by cases eq) ?_
    refine .less (.accepted (.keyword .ELSE) ?_)
    refine Takes.last ((otherwise_takes refuses other.body (by omega) (by omega)).mono
      (Nat.le_refl b) fun x ends _ => (ends rfl).closing) fun found last => .pure ?_
    refine ⟨by simpa using fits.spelt spelt body, ?_, by simpa using last.2⟩
    rw [Option.map_some, last.1, ← other.flag]

theorem arms_takes (refuses : EndsBlocks bound self)
    (a : Arm (Node Unit)) (h : ∀ x ∈ a :: as, FitsArm bound self block x)
    (ho : ∀ o ∈ last, FitsOtherwise bound self block o) (le : b ≤ bound) (enough : b ≤ fuel)
    (steps : b ≤ m) : Takes b (arms fuel self m) (a.condition.operand .expression ++
      .keyword .THEN :: ((if block then .newline :: a.body.written
        else a.body.operand .expression) ++ chainWritten block last as)) (EndsChain block)
      (SpeltChain (a :: as) last) := by
  induction as generalizing a b m with
  | nil =>
    refine .counted steps ?_
    rintro b m rfl rfl
    cases block with
    | true => exact lastBlock_takes refuses (h a (by simp)) ho le enough
    | false => exact lastInline_takes refuses (h a (by simp)) ho le enough
  | cons d as ih =>
    refine .counted steps ?_
    rintro b m rfl rfl
    have fits := h a (by simp)
    have rest : Takes b _ _ _ _ := ih d (fun x mem => h x (by simp [mem])) (by omega) (by omega)
      (show b ≤ m by omega)
    refine (fits.condition.takes.mono le fun _ => id).bind (fun x _ => .then) fun c spelt => ?_
    refine .expect (.keyword .THEN) _ fun _ => ?_
    rw [chainWritten]
    cases block with
    | true =>
      obtain ⟨ss, is, lines⟩ := fits.body
      rw [if_pos rfl, is, Node.written]
      refine .less (.accepted .newline ?_)
      refine (statements_takes refuses lines (by omega) (by omega)).bind
        (fun x _ => blockEnd_keyword (.inr (.inl rfl))) fun t body => ?_
      refine .declined (fun x _ eq => by cases eq) ?_
      refine .less (.accepted (.keyword .ELIF) ?_)
      refine rest.last fun found chain => .pure ⟨?_, chain.2⟩
      rw [List.map_cons, fits.spelt spelt (is ▸ body), chain.1]
    | false =>
      have inline : FitsStatement bound self a.body := fits.body
      refine .declined (fun x _ => (inline.opensInline.append _).first (by decide) x) ?_
      refine (inline.inline.mono (by omega) fun _ => id).bind (fun x _ => .elif) fun t body => ?_
      refine .less (.accepted (.keyword .ELIF) ?_)
      refine rest.last fun found chain => .pure ⟨?_, chain.2⟩
      rw [List.map_cons, fits.spelt spelt body, chain.1]

end Arms

section Atoms

variable {block : Bool} {n : Node Unit}

theorem conditional_takes (refuses : EndsBlocks bound self)
    {as : List (Arm (Node Unit))} {last : Option (Otherwise (Node Unit))} (some : as ≠ [])
    (h : ∀ a ∈ as, FitsArm bound self block a) (ho : ∀ o ∈ last, FitsOtherwise bound self block o)
    (le : b ≤ bound) (enough : b ≤ fuel) (start : Mark) :
    Takes b (conditional fuel self start) (Node.writtenArms as ++ (Node.writtenOtherwise last ++
      if block then [.keyword .END] else [])) (EndsChain block) (Spelt (.cond as last ())) := by
  cases as with
  | nil => exact absurd rfl some
  | cons a as =>
    rw [writtenArms_append a as fun x mem => (h x mem).flag]
    refine (arms_takes refuses a h ho le enough enough).last fun read chain => ?_
    obtain ⟨found, last, closed⟩ := read
    obtain ⟨arms, otherwise, open_⟩ := chain
    refine .markFrom start fun mark => .pure ?_
    dsimp only at arms otherwise open_
    rw [Spelt, Node.erase_cond, open_, ← arms, ← otherwise]
    rfl

theorem whileLoop_takes (refuses : EndsBlocks bound self)
    {c : Node Unit} (condition : Fits bound self c) (h : FitsBody bound self block n)
    (le : b ≤ bound) (enough : b ≤ fuel) (start : Mark) :
    Takes b (whileLoop fuel self start) (c.operand .expression ++ .keyword .THEN ::
      if block then .newline :: (n.written ++ [.keyword .END]) else n.operand .expression)
      (Halts block) (Spelt (.whileLoop c n block ())) := by
  refine (condition.takes.mono le fun _ => id).bind (fun x _ => .then) fun t spelt => ?_
  refine .less (.expect (.keyword .THEN) _ fun _ => ?_)
  refine (body_takes refuses h le enough).last fun read found => ?_
  refine .markFrom start fun mark => .pure ?_
  rw [Spelt, Node.erase_whileLoop, spelt, found.1, found.2.1]

theorem forLoop_takes (refuses : EndsBlocks bound self)
    {name : String} {first last : Node Unit} {step : Option (Node Unit)}
    (begins : Fits bound self first) (stops : Fits bound self last)
    (increment : ∀ d ∈ step, Fits bound self d) (h : FitsBody bound self block n)
    (le : b ≤ bound) (enough : b ≤ fuel) (start : Mark) :
    Takes b (forLoop fuel self start) (.identifier name :: .symbol .assign ::
      (first.operand .expression ++ .keyword .TO :: (last.operand .expression ++
        (Node.writtenStep step ++ .keyword .THEN ::
          if block then .newline :: (n.written ++ [.keyword .END]) else n.operand .expression))))
      (Halts block) (Spelt (.forLoop name first last step n block ())) := by
  refine .less (.name name ?_)
  refine .less (.expect (.symbol .assign) _ fun _ => ?_)
  refine (begins.takes.mono le fun _ => id).bind (fun x _ => .to) fun t spelt => ?_
  refine .less (.expect (.keyword .TO) _ fun _ => ?_)
  refine (stops.takes.mono le fun _ => id).bind (fun x _ => ?_) fun u spelt' => ?_
  · cases step with
    | none => exact .then
    | some d => exact .step
  -- what follows the step is the same whether there is one or not
  · have rest (v : Option Tree) (spelt'' : v.map Node.erase = step) : Takes b (do
        let _ ← keyword .THEN
        let read ← body fuel self
        return .forLoop name t u v read.1 read.2.suppresses (← markFrom start) : Rule Tree)
        (.keyword .THEN :: if block then .newline :: (n.written ++ [.keyword .END])
          else n.operand .expression)
        (Halts block) (Spelt (.forLoop name first last step n block ())) := by
      refine .less (.expect (.keyword .THEN) _ fun _ => ?_)
      refine (body_takes refuses h le enough).last fun read found => ?_
      refine .markFrom start fun mark => .pure ?_
      rw [Spelt, Node.erase_forLoop, spelt, spelt', spelt'', found.1, found.2.1]
    cases step with
    | none =>
      rw [Node.writtenStep]
      exact .declined (fun x _ eq => by cases eq) (rest none rfl)
    | some d =>
      rw [Node.writtenStep]
      refine .less (.accepted (.keyword .STEP) ?_)
      have step : Takes b (some <$> self .expression) (d.operand .expression) Closing
          (fun v => v.map Node.erase = some d) :=
        ((increment d rfl).takes.mono le fun _ => id).last fun w spelt =>
          .pure (congrArg some spelt)
      exact step.bind (fun x _ => .then) rest

theorem moreNames_takes (params : List String) (enough : b ≤ m) : Takes b (moreNames m)
    (params.flatMap fun p => [.symbol .comma, .identifier p]) (· = .symbol .rightParen)
    (· = params) := by
  induction params generalizing b m with
  | nil =>
    refine .counted enough ?_
    rintro b m rfl rfl
    refine .declined (fun x eq => ?_) (.pure rfl)
    subst eq
    decide
  | cons p params ih =>
    refine .counted enough ?_
    rintro b m rfl rfl
    refine .accepted (.symbol .comma) ?_
    refine .less (.name p ?_)
    refine (ih (by omega)).last ?_
    rintro _ rfl
    exact .pure rfl

theorem names_cons (p : String) (params : List String) : Phrase.names (p :: params) =
    .identifier p :: params.flatMap fun q => [.symbol .comma, .identifier q] := by
  induction params generalizing p with
  | nil => rfl
  | cons q params ih =>
    have tail := ih q
    simp only [Phrase.names, List.map_cons, List.intersperse] at tail ⊢
    rw [tail]
    rfl

theorem parameters_takes (params : List String) (enough : b ≤ fuel) :
    Takes b (parameters fuel) (Phrase.names params ++ [.symbol .rightParen]) S (· = params) := by
  cases params with
  | nil =>
    refine .fromHere fun c is => ?_
    rw [Cursor.kind_of_content is]
    exact .less (.expect (.symbol .rightParen) _ fun _ => .pure rfl)
  | cons p params =>
    rw [names_cons]
    refine .fromHere fun c is => ?_
    rw [Cursor.kind_of_content is]
    refine .less (.name p ?_)
    refine (moreNames_takes params enough).bind (fun x _ => rfl) ?_
    rintro _ rfl
    exact .less (.expect (.symbol .rightParen) _ fun _ => .pure rfl)

theorem functionHead_takes (name : Option String) : Takes b functionHead
    ((name.map Token.Content.identifier).toList ++ [.symbol .leftParen]) S (· = name) := by
  cases name with
  | none =>
    refine .fromHere fun c is => ?_
    rw [Cursor.kind_of_content is]
    exact .less (.expect (.symbol .leftParen) _ fun _ => .pure rfl)
  | some name =>
    refine .fromHere fun c is => ?_
    rw [Cursor.kind_of_content is]
    refine .less (.name name ?_)
    exact .less (.expect (.symbol .leftParen) _ fun _ => .pure rfl)

def FitsFunction (bound : Nat) (reader : Level → Rule Tree) : Bool → Node Unit → Prop
  | true, n => Fits bound reader n
  | false, n => FitsBody bound reader true n

theorem function_takes (refuses : EndsBlocks bound self)
    (name : Option String) (params : List String) {auto : Bool} (h : FitsFunction bound self auto n)
    (le : b ≤ bound) (enough : b ≤ fuel) (start : Mark) :
    Takes b (function fuel self start) ((name.map Token.Content.identifier).toList ++
      .symbol .leftParen :: (Phrase.names params ++ .symbol .rightParen ::
        if auto then .symbol .arrow :: n.operand .expression
        else .newline :: (n.written ++ [.keyword .END])))
      (Halts (!auto)) (Spelt (.function name params n auto ())) := by
  have split : (name.map Token.Content.identifier).toList ++
      .symbol .leftParen :: (Phrase.names params ++ .symbol .rightParen ::
        if auto then .symbol .arrow :: n.operand .expression
        else .newline :: (n.written ++ [.keyword .END])) =
      ((name.map Token.Content.identifier).toList ++ [.symbol .leftParen]) ++
        ((Phrase.names params ++ [.symbol .rightParen]) ++
          if auto then .symbol .arrow :: n.operand .expression
          else .newline :: (n.written ++ [.keyword .END])) := by simp
  rw [split]
  refine (functionHead_takes (S := fun _ => True) name).bind (fun _ _ => trivial) ?_
  rintro _ rfl
  refine (parameters_takes (S := fun _ => True) params enough).bind (fun _ _ => trivial) ?_
  rintro _ rfl
  cases auto with
  | true =>
    have h : Fits bound self n := h
    refine .less (.accepted (.symbol .arrow) ?_)
    refine (h.takes.mono le fun x halts => halts rfl).last fun t spelt => ?_
    refine .markFrom start fun mark => .pure ?_
    rw [Spelt, Node.erase_function, spelt]
  | false =>
    obtain ⟨ss, rfl, lines⟩ := h
    rw [if_neg Bool.false_ne_true, Node.written]
    refine .declined (fun x _ eq => by cases eq) (.less (.accepted .newline ?_))
    refine (closedBlock_takes refuses lines le enough).last fun t spelt => ?_
    refine .markFrom start fun mark => .pure ?_
    rw [Spelt, Node.erase_function, spelt]

theorem atom_takes_int (k : Int64) :
    Takes (b + 1) (atom fuel self) [.int k] S (Spelt (.number (.int k) ())) := by
  refine .fromHere fun c is => ?_
  simp only [is]
  exact .advance fun _ => .pure (Node.erase_number ..)

theorem atom_takes_string (text : String) :
    Takes (b + 1) (atom fuel self) [.string text] S (Spelt (.string text ())) := by
  refine .fromHere fun c is => ?_
  simp only [is]
  exact .advance fun _ => .pure (Node.erase_string ..)

theorem atom_takes_access (name : String) :
    Takes (b + 1) (atom fuel self) [.identifier name] S (Spelt (.access name ())) := by
  refine .fromHere fun c is => ?_
  simp only [is]
  exact .advance fun _ => .pure (Node.erase_access ..)

theorem atom_takes_list {es : List (Node Unit)} (h : ∀ e ∈ es, Fits bound self e)
    (le : b ≤ bound) (enough : b ≤ fuel) : Takes (b + 1) (atom fuel self)
      (.symbol .leftBracket :: (Node.writtenRow es ++ [.symbol .rightBracket])) S
      (Spelt (.list es ())) := by
  refine .fromHere fun c is => ?_
  simp only [is]
  refine .advance fun _ => ?_
  refine (items_takes (.inr rfl) h le enough).last fun ts spelts => ?_
  refine .markFrom _ fun mark => .pure ?_
  rw [Spelt, Node.erase_list, spelts]

theorem atom_takes_parens {cs : List Token.Content}
    (h : Takes bound (self .expression) cs (· = .symbol .rightParen) (Spelt n)) (le : b ≤ bound) :
    Takes (b + 1) (atom fuel self) (.symbol .leftParen :: (cs ++ [.symbol .rightParen])) S
      (Spelt n) := by
  refine .fromHere fun c is => ?_
  simp only [is]
  refine .advance fun _ => ?_
  refine (h.mono le fun _ => id).bind (fun _ _ => rfl) fun t spelt => ?_
  exact .less (.expect (.symbol .rightParen) _ fun _ => .pure spelt)

end Atoms

end ScriptLang
