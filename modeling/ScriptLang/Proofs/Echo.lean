import ScriptLang.Proofs.Bare.Value
import ScriptLang.Proofs.Effect
import ScriptLang.Proofs.Print.RoundTrip
import ScriptLang.Session

/-! The echoed form of a value is a program for it. Numbers, texts and lists of them are echoed as
the literals that they are read from, with a sign in front of numbers below zero; running what was
echoed gives the value again. -/
namespace ScriptLang

variable {σ : Type}

open Grammar Rule

/-- Values whose echoed form is a literal: of the integers all but the least, whose digits without
the sign are out of range, and texts that need no escapes. -/
inductive Value.Plain : Value → Prop where
  | int {n : Int64} (h : n ≠ Int64.minValue) (t : Stamp) : Plain (.number (.int n) t)
  | string {s : String} (quote : '"' ∉ s.toList) (backslash : '\\' ∉ s.toList) (t : Stamp) :
    Plain (.string s t)
  | list {vs : List Value} (h : ∀ v ∈ vs, Plain v) (t : Stamp) : Plain (.list vs t)

def Number.literal (n : Number) : Node Unit :=
  if n.isNegative then .unary .minus (.number n.neg ()) () else .number n ()

namespace Value

mutual

/-- The tree that the echoed form spells; callables have none, and their name stands in. -/
def literal : Value → Node Unit
  | number n _ => n.literal
  | string s _ => .string s ()
  | list vs _ => .list (literalList vs) ()
  | function f _ => .access f.displayName ()
  | builtin b _ => .access b.name ()

def literalList : List Value → List (Node Unit)
  | [] => []
  | v :: vs => literal v :: literalList vs

end

theorem literalList_eq_map (vs : List Value) : literalList vs = vs.map literal := by
  induction vs with
  | nil => simp only [literalList, List.map_nil]
  | cons v vs ih => simp only [literalList, List.map_cons, ih]

theorem literal_number (n : Number) (t : Stamp) : (number n t).literal = n.literal := by
  simp only [literal]

theorem literal_string (s : String) (t : Stamp) : (string s t).literal = .string s () := by
  simp only [literal]

theorem literal_list (vs : List Value) (t : Stamp) :
    (list vs t).literal = .list (vs.map literal) () := by
  simp only [literal, literalList_eq_map]

theorem reprList_eq_map (vs : List Value) : reprList vs = vs.map Value.repr := by
  induction vs with
  | nil => simp only [reprList, List.map_nil]
  | cons v vs ih => simp only [reprList, List.map_cons, ih]

theorem repr_number (n : Number) (t : Stamp) : (number n t).repr = n.text := by
  unfold Value.repr
  rfl

theorem repr_string (s : String) (t : Stamp) : (string s t).repr = "\"" ++ s ++ "\"" := by
  unfold Value.repr
  rfl

theorem repr_list (vs : List Value) (t : Stamp) :
    (list vs t).repr = "[" ++ ", ".intercalate (vs.map Value.repr) ++ "]" := by
  rw [← reprList_eq_map]
  unfold Value.repr
  rfl

theorem operand_literal (v : Value) : v.literal.operand .expression = v.literal.written := by
  apply Node.operand_of_le
  cases v with
  | number n t =>
    rw [literal_number]
    unfold Number.literal
    split <;> simp [Node.strength, UnaryOp.rung, Rung.rank]
  | _ => simp [literal, Node.strength, Rung.rank]

end Value

section Numbers

variable {n : Int64}

theorem Int64.toInt_gt (h : n ≠ Int64.minValue) : Int64.minValue.toInt < n.toInt := by
  have le := n.minValue_le_toInt
  have ne : Int64.minValue.toInt ≠ n.toInt := fun eq => h (Int64.toInt_inj.1 eq.symm)
  omega

theorem Number.neg_int (h : n ≠ Int64.minValue) : (Number.int n).neg = .int (-n) := by
  have low := Int64.toInt_gt h
  have high := n.toInt_le
  have least : Int64.minValue.toInt = -Int64.maxValue.toInt - 1 := by decide
  have range : Int64.ofInt? (0 - n.toInt) = some (-n) := by
    unfold Int64.ofInt?
    rw [if_pos ⟨by omega, by omega⟩]
    simp
  simp only [Number.neg, Number.sub, Number.combine, Int64.toInt_zero, Option.bind_some, range,
    Option.map_some, Option.getD_some]

theorem Int64.toInt_neg_of_ne (h : n ≠ Int64.minValue) : (-n).toInt = -n.toInt := by
  have low := Int64.toInt_gt h
  have high := n.toInt_le
  have least : Int64.minValue.toInt = -Int64.maxValue.toInt - 1 := by decide
  have most : Int64.maxValue.toInt = 2 ^ 63 - 1 := by decide
  rw [Int64.toInt_neg]
  exact Int.bmod_eq_of_le (by omega) (by omega)

theorem Number.literal_of_nonneg (h : 0 ≤ n) : (Number.int n).literal = .number (.int n) () := by
  unfold Number.literal Number.isNegative
  rw [if_neg]
  simpa using h

theorem Number.literal_of_neg (h : n < 0) (least : n ≠ Int64.minValue) :
    (Number.int n).literal = .unary .minus (.number (.int (-n)) ()) () := by
  unfold Number.literal Number.isNegative
  rw [if_pos (by simpa using h), Number.neg_int least]

theorem Int64.neg_nonneg (h : n < 0) (least : n ≠ Int64.minValue) : 0 ≤ -n := by
  rw [Int64.le_iff_toInt_le, Int64.toInt_neg_of_ne least, Int64.toInt_zero]
  have := Int64.lt_iff_toInt_lt.1 h
  rw [Int64.toInt_zero] at this
  omega

theorem Number.text_of_nonneg (h : 0 ≤ n) :
    (Number.int n).text.toList = Nat.toDigits 10 n.toInt.toNat := by
  have nonneg : 0 ≤ n.toInt := Int64.le_iff_toInt_le.1 h
  change (Int.repr n.toInt).toList = _
  obtain ⟨k, eq⟩ := Int.eq_ofNat_of_zero_le nonneg
  rw [eq]
  exact String.toList_ofList

theorem Number.text_of_neg (h : n < 0) (least : n ≠ Int64.minValue) :
    (Number.int n).text.toList = '-' :: Nat.toDigits 10 (-n).toInt.toNat := by
  have neg : n.toInt < 0 := Int64.lt_iff_toInt_lt.1 h
  change (Int.repr n.toInt).toList = _
  rw [Int64.toInt_neg_of_ne least]
  obtain ⟨k, eq⟩ := Int.eq_negSucc_of_lt_zero neg
  rw [eq]
  change ("-" ++ Nat.repr (k + 1)).toList = '-' :: Nat.toDigits 10 (k + 1)
  rw [String.toList_append]
  exact congrArg ('-' :: ·) String.toList_ofList

end Numbers

theorem escaped_verbatim {cs : List Char} (quote : '"' ∉ cs) (backslash : '\\' ∉ cs) :
    Escaped cs cs := by
  induction cs with
  | nil => exact .nil
  | cons c cs ih =>
    rw [List.mem_cons, not_or] at quote backslash
    exact .plain (Ne.symm quote.1) (Ne.symm backslash.1) (ih quote.2 backslash.2)

namespace Scanner

variable {source : Source} {s : Scanner} {found : List Token.Content}

/-- The scanner is between tokens or in a number that may go on; with that number, the tokens read
say `found`, latest first. -/
inductive Holds (s : Scanner) : List Token.Content → Prop where
  | idle (mode : s.mode = .idle) : Holds s (s.tokens.map Token.content)
  | number {start : Position} {read : List Char} (mode : s.mode = .number start read false) :
    Holds s (.ofDigits read.reverse :: s.tokens.map Token.content)

def Passes (source : Source) (s : Scanner) (cs : List Char) (found : List Token.Content) : Prop :=
  ∃ s', s.run source cs = .ok s' ∧ s'.Holds found

theorem Reaches.passes {cs : List Char} (h : s.Reaches source cs .idle found) :
    s.Passes source cs found := by
  obtain ⟨s', ran, idle, rfl⟩ := h
  exact ⟨s', ran, .idle idle⟩

theorem Passes.after {cs ds : List Char} {mode : Mode} {between : List Token.Content}
    (first : s.Reaches source cs mode between)
    (rest : ∀ s' : Scanner, s'.mode = mode → s'.tokens.map Token.content = between →
      s'.Passes source ds found) : s.Passes source (cs ++ ds) found := by
  obtain ⟨s₁, ran, mode₁, found₁⟩ := first
  obtain ⟨s₂, ran', holds⟩ := rest s₁ mode₁ found₁
  refine ⟨s₂, ?_, holds⟩
  rw [run_append, ran]
  exact ran'

theorem Passes.append {cs ds : List Char} {more : List Token.Content}
    (first : s.Passes source cs found)
    (rest : ∀ s' : Scanner, s'.Holds found → s'.Passes source ds more) :
    s.Passes source (cs ++ ds) more := by
  obtain ⟨s₁, ran, holds⟩ := first
  obtain ⟨s₂, ran', holds'⟩ := rest s₁ holds
  refine ⟨s₂, ?_, holds'⟩
  rw [run_append, ran]
  exact ran'

theorem start_token {c : Char} {x : Token.Content} (token : Token.Content.ofChar? c = some x) :
    s.start source c = .ok ((s.emit source x s.position s.position.next).enter c .idle) := by
  unfold start
  rw [token]

theorem Holds.symbol (h : s.Holds found) {c : Char} {x : Token.Content}
    (token : Token.Content.ofChar? c = some x) (digit : c.isDigit = false) (dot : c ≠ '.') :
    s.Reaches source [c] .idle (x :: found) := by
  cases h with
  | idle mode =>
    have stepped : s.step source c = s.start source c := by
      unfold step
      rw [mode]
    exact .cons (stepped.trans (start_token token)) ⟨_, rfl, rfl, rfl⟩
  | @number start read mode =>
    let closed := s.emit source (.ofDigits read.reverse) start s.position
    have stepped : s.step source c = closed.start source c := by
      unfold step close
      rw [mode]
      simp only [digit, dot, false_and, if_false, Bool.false_eq_true]
      rfl
    exact .cons (stepped.trans (start_token token)) ⟨_, rfl, rfl, rfl⟩

theorem Holds.finish (h : s.Holds found) :
    ∃ ts, s.finish source = .ok ts ∧ ts.map Token.content = found.reverse ++ [.eof] := by
  unfold Scanner.finish close
  cases h with
  | idle mode =>
    rw [mode]
    exact ⟨_, rfl, by simp⟩
  | number mode =>
    rw [mode]
    exact ⟨_, rfl, by simp [emit]⟩

theorem passes_number {s' : Scanner} {start : Position} {c : Char} {cs : List Char}
    (begun : s.step source c = .ok s') (mode : s'.mode = .number start [c] false)
    (h : ∀ d ∈ cs, d.isDigit) :
    s.Passes source (c :: cs) (.ofDigits (c :: cs) :: s'.tokens.map Token.content) := by
  have digits : s'.Reaches source cs (.number start (cs.reverse ++ [c]) false)
      (s'.tokens.map Token.content) := reaches_digits mode cs h
  obtain ⟨last, ran, mode', found⟩ := digits
  refine ⟨last, (run_cons begun cs).trans ran, ?_⟩
  have holds := Holds.number mode'
  rw [found] at holds
  simpa using holds

theorem step_signed {start : Position} (mode : s.mode = .lead start .minus) {c : Char}
    (h : c.isDigit) : s.step source c = .ok ((s.emit source (.symbol .minus) start
      s.position).enter c (.number s.position [c] false)) := by
  have other : c ≠ Lead.minus.second := by
    rintro rfl
    exact absurd h (by decide)
  have begun : (s.emit source (.symbol .minus) start s.position).step source c = _ :=
    step_digit rfl h
  unfold step at begun ⊢
  rw [mode]
  simp only [other, if_false]
  unfold close
  rw [mode]
  exact begun

theorem exists_digits (k : Nat) :
    ∃ c cs, Nat.toDigits 10 k = c :: cs ∧ c.isDigit ∧ ∀ d ∈ cs, d.isDigit := by
  have all : ∀ d ∈ Nat.toDigits 10 k, d.isDigit :=
    fun d mem => Nat.isDigit_of_mem_toDigits (by decide) (by decide) mem
  cases eq : Nat.toDigits 10 k with
  | nil => exact absurd eq Nat.toDigits_ne_nil
  | cons c cs =>
    rw [eq] at all
    exact ⟨c, cs, rfl, all c (by simp), fun d mem => all d (by simp [mem])⟩

theorem passes_int (idle : s.mode = .idle) {n : Int64} (h : n ≠ Int64.minValue) :
    s.Passes source (Number.int n).text.toList
      ((Number.int n).literal.written.reverse ++ s.tokens.map Token.content) := by
  by_cases neg : n < 0
  · have nonneg := Int64.neg_nonneg neg h
    obtain ⟨c, cs, split, first, rest⟩ := exists_digits (-n).toInt.toNat
    have value := Token.Content.ofDigits_int nonneg
    rw [Number.text_of_neg neg h, Number.literal_of_neg neg h, split]
    rw [split] at value
    have sign : s.step source '-' = .ok (s.enter '-' (.lead s.position .minus)) := by
      unfold step
      rw [idle]
      rfl
    have passes : (s.enter '-' (.lead s.position .minus)).Passes source (c :: cs) _ :=
      passes_number (step_signed rfl first) rfl rest
    obtain ⟨last, ran, holds⟩ := passes
    refine ⟨last, (run_cons sign _).trans ran, ?_⟩
    rw [value] at holds
    have written : (Node.unary .minus (.number (.int (-n)) ()) ()).written =
        [.symbol .minus, .int (-n)] := by
      simp [Node.written, Node.enclose, UnaryOp.content, Node.strength, UnaryOp.rung, Rung.rank]
    rw [written]
    exact holds
  · have nonneg : 0 ≤ n := Int64.not_lt.1 neg
    obtain ⟨c, cs, split, first, rest⟩ := exists_digits n.toInt.toNat
    have value := Token.Content.ofDigits_int nonneg
    rw [Number.text_of_nonneg nonneg, Number.literal_of_nonneg nonneg, split]
    rw [split] at value
    have passes : s.Passes source (c :: cs) _ := passes_number (step_digit idle first) rfl rest
    rw [value] at passes
    rw [Node.written]
    exact passes

def Echoes (source : Source) (v : Value) : Prop :=
  ∀ s : Scanner, s.mode = .idle → s.Passes source v.repr.toList
    (v.literal.written.reverse ++ s.tokens.map Token.content)

theorem passes_further {vs : List Value} (h : ∀ v ∈ vs, Echoes source v) (holds : s.Holds found) :
    s.Passes source (vs.flatMap fun v => ',' :: ' ' :: v.repr.toList)
      ((furtherWritten (vs.map Value.literal)).reverse ++ found) := by
  induction vs generalizing s found with
  | nil => exact ⟨s, rfl, holds⟩
  | cons v vs ih =>
    rw [List.flatMap_cons, List.map_cons, furtherWritten_cons, Value.operand_literal]
    have comma : s.Reaches source [','] .idle (.symbol .comma :: found) :=
      holds.symbol rfl (by decide) (by decide)
    have blank : s.Reaches source [',', ' '] .idle (.symbol .comma :: found) :=
      comma.append fun s' idle contents => .cons (step_blank idle) ⟨_, rfl, rfl, contents⟩
    have element : s.Passes source (',' :: ' ' :: v.repr.toList)
        (v.literal.written.reverse ++ .symbol .comma :: found) :=
      .after blank fun s' idle contents => contents ▸ h v (by simp) s' idle
    refine element.append fun s' holds' => ?_
    simpa using ih (fun w mem => h w (by simp [mem])) holds'

theorem intercalate_repr (v : Value) (vs : List Value) :
    (", ".intercalate ((v :: vs).map Value.repr)).toList =
      v.repr.toList ++ vs.flatMap fun w => ',' :: ' ' :: w.repr.toList := by
  induction vs generalizing v with
  | nil => simp
  | cons w vs ih =>
    rw [List.map_cons, List.map_cons, String.intercalate_cons_cons, String.toList_append,
      String.toList_append, ← List.map_cons, ih w]
    simp

theorem reaches_brackets {vs : List Value} (h : ∀ v ∈ vs, Echoes source v)
    (idle : s.mode = .idle) :
    s.Reaches source ('[' :: ((", ".intercalate (vs.map Value.repr)).toList ++ [']'])) .idle
      ((Node.list (vs.map Value.literal) ()).written.reverse ++ s.tokens.map Token.content) := by
  have opened : s.Reaches source ['['] .idle
      (.symbol .leftBracket :: s.tokens.map Token.content) :=
    (Holds.idle idle).symbol rfl (by decide) (by decide)
  have row : s.Passes source ('[' :: (", ".intercalate (vs.map Value.repr)).toList)
      ((Node.writtenRow (vs.map Value.literal)).reverse ++
        .symbol .leftBracket :: s.tokens.map Token.content) := by
    cases vs with
    | nil => simpa [Node.writtenRow] using opened.passes
    | cons v vs =>
      rw [intercalate_repr, List.map_cons, Node.writtenRow_cons, Value.operand_literal]
      change s.Passes source (['['] ++ _) _
      refine .after opened fun s' idle' contents => ?_
      refine (h v (by simp) s' idle').append fun s'' holds => ?_
      simpa [contents] using passes_further (fun w mem => h w (by simp [mem])) holds
  obtain ⟨s', ran, holds⟩ := row
  obtain ⟨s'', ran', idle', contents⟩ : s'.Reaches source [']'] .idle _ :=
    holds.symbol rfl (by decide) (by decide)
  refine ⟨s'', ?_, idle', ?_⟩
  · rw [← List.cons_append, run_append, ran]
    exact ran'
  · rw [contents, Node.written]
    simp

theorem echoes {v : Value} (h : v.Plain) (source : Source) : Echoes source v := by
  induction h with
  | int h t =>
    intro s idle
    rw [Value.repr_number, Value.literal_number]
    exact passes_int idle h
  | string quote backslash t =>
    intro s idle
    rw [Value.repr_string, Value.literal_string, Node.written]
    simpa using (reaches_quoted idle (escaped_verbatim quote backslash)).passes
  | list h t ih =>
    intro s idle
    rw [Value.repr_list, Value.literal_list]
    simpa using (reaches_brackets ih idle).passes

end Scanner

theorem scan_repr {v : Value} (h : v.Plain) (name : String) : ∃ ts,
    scan ⟨name, v.repr⟩ = .ok ts ∧ ts.map Token.content = v.literal.written ++ [.eof] := by
  obtain ⟨s, ran, holds⟩ := Scanner.echoes h ⟨name, v.repr⟩ .initial rfl
  have ended : ∃ ts, s.finish ⟨name, v.repr⟩ = .ok ts ∧ _ := holds.finish
  obtain ⟨ts, finished, contents⟩ := ended
  refine ⟨ts, ?_, by simpa [Scanner.initial] using contents⟩
  unfold scan
  rw [ran]
  exact finished

theorem Value.Plain.canonical {v : Value} (h : v.Plain) : Canonical .expression v.literal := by
  induction h with
  | @int n h t =>
    rw [literal_number]
    by_cases neg : n < 0
    · rw [Number.literal_of_neg neg h]
      exact .unary (.int (Int64.neg_nonneg neg h))
    · rw [Number.literal_of_nonneg (Int64.not_lt.1 neg)]
      exact .int (Int64.not_lt.1 neg)
  | string quote backslash t =>
    rw [literal_string]
    exact .string _
  | list h t ih =>
    rw [literal_list]
    refine .list fun e mem => ?_
    obtain ⟨v, among, rfl⟩ := List.mem_map.1 mem
    exact ih v among

section Reading

variable {k b m : Nat} {n : Node Unit}

theorem statementsFrom_takes_last {cs : List Token.Content} (le : b ≤ k) (steps : b ≤ m)
    (h : Takes k (statement (level k)) cs (· = .eof) (Spelt n)) :
    Takes b (statementsFrom k (level k) m) cs (· = .eof)
      (fun read => read.1.map Node.erase = [n]) := by
  refine .counted steps ?_
  rintro b m rfl rfl
  refine ((h.mono le fun _ => id).attempt).last ?_
  rintro _ ⟨t, rfl, spelt⟩
  have none : Takes (b + 1) (newlines k) [] (· = .eof) (· = false) :=
    (newlines_none le).mono (Nat.le_refl _) (by rintro _ rfl; decide)
  refine none.last ?_
  rintro _ rfl
  exact .pure (by simp [spelt])

theorem program_takes_last {cs : List Token.Content} (opens : Opens cs)
    (h : Takes k (statement (level k)) cs (· = .eof) (Spelt n)) :
    Takes k (program k) cs (· = .eof) (Spelt (.block [n] ())) := by
  have statements : Takes k (statements k (level k)) cs (· = .eof)
      (fun read => Spelt (.block [n] ()) read.1) := by
    refine .here fun c => ?_
    rw [← List.nil_append cs]
    refine (newlines_none (Nat.le_refl k)).bind (fun x _ => opens.first (by decide) x)
      fun _ _ => ?_
    refine (statementsFrom_takes_last (Nat.le_refl k) (Nat.le_refl k) h).last fun read spelts =>
      .pure ?_
    rw [Spelt, Node.erase_block, spelts]
  refine statements.last fun read spelt => .fromStop fun c is => ?_
  rw [if_pos (show c.kind = .eof from Cursor.kind_of_content is)]
  exact .pure spelt

theorem parse_expression (h : Canonical .expression n) {ts : List Token}
    (contents : ts.map Token.content = n.operand .expression ++ [.eof]) :
    ∃ t, parse ts = .ok t ∧ t.erase = .block [n] () := by
  cases ts with
  | nil => simp at contents
  | cons first rest =>
    let k := rest.length + 1
    have head := headed h rfl
    obtain ⟨x, xs, written, admits⟩ := head.operand .expression
    have expression : Takes k (level k .expression) (n.operand .expression) (· = .eof) (Spelt n) :=
      (level_takes (reads_of_canonical h) k .expression).mono (Nat.le_refl k) (by
        rintro _ rfl
        exact ⟨fun op eq => by (cases op <;> cases eq), fun eq => by cases eq⟩)
    have statement := statement_takes_expression written admits.start expression
    obtain ⟨t, c', done, -, spelt⟩ := program_takes_last (head.opens .expression) statement
      (.ofTokens first rest) .eof [] contents rfl (by simp [Cursor.rest, Cursor.ofTokens, k])
    exact ⟨t, by simp only [parse, done, k], spelt⟩

end Reading

section Running

variable {limit fuel : Nat} {frame : Frame} {m : Machine σ}

theorem Node.eq_number_of_erase {t : Tree} {n : Number} (h : t.erase = .number n ()) :
    ∃ mark, t = .number n mark := by
  cases t with
  | number n' mark =>
    cases h
    exact ⟨mark, rfl⟩
  | _ => cases h

theorem Node.eq_string_of_erase {t : Tree} {text : String} (h : t.erase = .string text ()) :
    ∃ mark, t = .string text mark := by
  cases t with
  | string text' mark =>
    cases h
    exact ⟨mark, rfl⟩
  | _ => cases h

theorem Node.eq_unary_of_erase {t : Tree} {op : UnaryOp} {n : Node Unit}
    (h : t.erase = .unary op n ()) : ∃ operand mark, t = .unary op operand mark ∧
      operand.erase = n := by
  cases t with
  | unary op' operand mark =>
    cases h
    exact ⟨operand, mark, rfl, rfl⟩
  | _ => cases h

theorem Node.eq_list_of_erase {t : Tree} {ns : List (Node Unit)} (h : t.erase = .list ns ()) :
    ∃ es mark, t = .list es mark ∧ es.map Node.erase = ns := by
  cases t with
  | list es mark =>
    rw [Node.erase_list] at h
    exact ⟨es, mark, rfl, (Node.list.inj h).1⟩
  | _ => cases h

theorem Node.eq_block_of_erase {t : Tree} {ns : List (Node Unit)} (h : t.erase = .block ns ()) :
    ∃ ss mark, t = .block ss mark ∧ ss.map Node.erase = ns := by
  cases t with
  | block ss mark =>
    rw [Node.erase_block] at h
    exact ⟨ss, mark, rfl, (Node.block.inj h).1⟩
  | _ => cases h

/-- Evaluating a tree of the literal gives the value again and does nothing else. -/
def Value.Evaluates (v : Value) (self : Evaluator σ) : Prop :=
  ∀ t : Tree, t.erase = v.literal → ∀ frame m,
    ∃ w, unwind (self t frame) m = .done w m ∧ w.bare = v.bare

theorem evalAll_literals {self : Evaluator σ} {vs : List Value}
    (h : ∀ v ∈ vs, v.Evaluates self) {es : List Tree}
    (spelt : es.map Node.erase = vs.map Value.literal) (frame : Frame) (m : Machine σ) :
    ∃ ws, evalAll self frame es m = .done ws m ∧ ws.map Value.bare = vs.map Value.bare := by
  induction vs generalizing es with
  | nil =>
    obtain rfl := List.map_eq_nil_iff.1 spelt
    exact ⟨[], rfl, rfl⟩
  | cons v vs ih =>
    obtain ⟨e, es, rfl, first, rest⟩ := List.map_eq_cons_iff.1 spelt
    obtain ⟨w, evaluated, same⟩ := h v (by simp) e first frame m
    obtain ⟨ws, evaluated', sames⟩ := ih (fun u mem => h u (by simp [mem])) rest
    refine ⟨w :: ws, ?_, by rw [List.map_cons, List.map_cons, same, sames]⟩
    exact Eval.bind_eq_done.2 ⟨w, m, evaluated, Eval.bind_eq_done.2 ⟨ws, m, evaluated', rfl⟩⟩

theorem evaluates_int {n : Int64} (h : n ≠ Int64.minValue) (stamp : Stamp) (limit fuel : Nat) :
    (Value.number (.int n) stamp).Evaluates (evaluate limit (fuel + 2) : Evaluator σ) := by
  intro t spelt frame m
  rw [Value.literal_number] at spelt
  by_cases neg : n < 0
  · rw [Number.literal_of_neg neg h] at spelt
    obtain ⟨operand, mark, rfl, digits⟩ := Node.eq_unary_of_erase spelt
    obtain ⟨inner, rfl⟩ := Node.eq_number_of_erase digits
    have back : (Number.int (-n)).neg = .int n := by
      have other : -n ≠ Int64.minValue := by
        intro eq
        have nonneg := Int64.neg_nonneg neg h
        rw [eq] at nonneg
        exact absurd nonneg (by decide)
      rw [Number.neg_int other, Int64.neg_neg]
    refine ⟨(Value.number (.int n) ⟨none, some frame⟩).place mark.span frame, ?_, by simp⟩
    change eval limit (fuel + 2) (.unary .minus (.number (.int (-n)) inner) mark) frame m = _
    rw [eval_succ]
    refine Eval.bind_eq_done.2 ⟨_, m, rfl, ?_⟩
    change Eval.lift (.ok (.number (Number.int (-n)).neg _)) mark.span frame m = _
    rw [back]
    rfl
  · rw [Number.literal_of_nonneg (Int64.not_lt.1 neg)] at spelt
    obtain ⟨mark, rfl⟩ := Node.eq_number_of_erase spelt
    exact ⟨_, rfl, by simp⟩

/-- A level of evaluation for each level of the value is enough. -/
theorem evaluates {v : Value} (h : v.Plain) (limit : Nat) {fuel : Nat} (enough : sizeOf v ≤ fuel) :
    v.Evaluates (evaluate limit fuel : Evaluator σ) := by
  induction h generalizing fuel with
  | @int n h t =>
    obtain ⟨fuel, rfl⟩ := Nat.exists_eq_add_of_le' (show 2 ≤ fuel by simp at enough; omega)
    exact evaluates_int h t limit fuel
  | @string s _ _ t =>
    obtain ⟨fuel, rfl⟩ := Nat.exists_eq_add_of_le' (show 1 ≤ fuel by simp at enough; omega)
    intro tree spelt frame m
    rw [Value.literal_string] at spelt
    obtain ⟨mark, rfl⟩ := Node.eq_string_of_erase spelt
    exact ⟨_, rfl, by simp⟩
  | @list vs _ t ih =>
    obtain ⟨fuel, rfl⟩ := Nat.exists_eq_add_of_le' (show 1 ≤ fuel by simp at enough; omega)
    intro tree spelt frame m
    rw [Value.literal_list] at spelt
    obtain ⟨es, mark, rfl, spelts⟩ := Node.eq_list_of_erase spelt
    have elements (v : Value) (mem : v ∈ vs) :
        v.Evaluates (evaluate limit fuel : Evaluator σ) := by
      apply ih v mem
      have := List.sizeOf_lt_of_mem mem
      simp at enough
      omega
    obtain ⟨ws, evaluated, same⟩ := evalAll_literals elements spelts frame m
    refine ⟨(Value.list ws .none).place mark.span frame, ?_, by simp [same]⟩
    change eval limit (fuel + 1) (.list es mark) frame m = _
    rw [eval_succ]
    exact Eval.bind_eq_done.2 ⟨ws, m, evaluated, rfl⟩

end Running

theorem Value.sameList_self {vs : List Value} (h : ∀ v ∈ vs, v.same v = true) :
    sameList vs vs = true := by
  induction vs with
  | nil => simp only [sameList]
  | cons v vs ih =>
    rw [sameList, h v (by simp), ih fun w mem => h w (by simp [mem])]
    rfl

theorem Value.Plain.same {v : Value} (h : v.Plain) : v.same v = true := by
  induction h with
  | @int n h t =>
    have equal : Number.compare (.int n) (.int n) = some .eq := by simp [Number.compare]
    rw [Value.same]
    change (Number.compare (.int n) (.int n) == some .eq) = true
    rw [equal]
    rfl
  | string _ _ t => simp [Value.same]
  | list h t ih =>
    rw [Value.same]
    exact sameList_self ih

/-- What is echoed for a plain value is a program: wherever it is run, it ends with a list of one
value, which is the value again, integers as integers, and neither scopes nor host are touched. -/
theorem repr_reads_back {v : Value} (h : v.Plain) (s : Session σ) : ∃ n, ∀ fuel, n ≤ fuel →
    ∃ w stamp, s.run fuel v.repr = some (.ok (.list [w] stamp),
        { s with machine := { s.machine with frames := s.machine.frames + 1 } }) ∧
      w.same v = true ∧ w.bare = v.bare := by
  obtain ⟨ts, scanned, contents⟩ := scan_repr h s.config.sourceName
  rw [← Value.operand_literal] at contents
  obtain ⟨tree, parsed, spelt⟩ := parse_expression h.canonical contents
  obtain ⟨es, mark, rfl, spelts⟩ := Node.eq_block_of_erase spelt
  refine ⟨sizeOf v + 1, fun fuel enough => ?_⟩
  obtain ⟨fuel, rfl⟩ := Nat.exists_eq_add_of_le' (Nat.le_of_add_left_le enough)
  have own : ∀ u ∈ [v], u.Evaluates (evaluate s.config.maxDepth fuel : Evaluator σ) := by
    intro u mem
    rw [List.mem_singleton.1 mem]
    exact evaluates h s.config.maxDepth (by omega)
  let frame := Frame.root s.machine.frames programName globalScope
  obtain ⟨ws, evaluated, same⟩ := evalAll_literals own spelts frame
    { s.machine with frames := s.machine.frames + 1 }
  obtain ⟨w, rfl, bare⟩ : ∃ w, ws = [w] ∧ w.bare = v.bare := by
    simpa [List.map_eq_singleton_iff] using same
  have ran : eval s.config.maxDepth (fuel + 1) (.block es mark) frame
      { s.machine with frames := s.machine.frames + 1 } =
      .done ((Value.list [w] .none).place mark.span frame)
        { s.machine with frames := s.machine.frames + 1 } := by
    rw [eval_succ]
    exact Eval.bind_eq_done.2 ⟨[w], _, evaluated, rfl⟩
  refine ⟨w, ⟨some mark.span, some frame⟩, ?_, ?_, bare⟩
  · unfold Session.run Session.runSource
    rw [runSource_eq]
    unfold Source.tree
    rw [scanned]
    dsimp only
    rw [parsed]
    dsimp only
    unfold eval at ran
    rw [ran]
    rfl
  · rw [← Value.same_bare, bare, Value.same_bare]
    exact h.same

def nestedLists : Value :=
  .list [.number (.int (-5)) .none, .list [.string "a\nb" .none, .list [] .none] .none] .none

theorem repr_reads_back_nestedLists : nestedLists.Plain ∧
    nestedLists.repr = "[-5, [\"a\nb\", []]]" ∧ ∃ n, ∀ fuel, n ≤ fuel →
      ∃ w stamp, (Session.start {} (.memory [] [])).run fuel nestedLists.repr =
        some (.ok (.list [w] stamp), { Session.start {} (.memory [] []) with
          machine := { (Session.start {} (.memory [] [])).machine with frames := 1 } }) ∧
        w.same nestedLists = true ∧ w.bare = nestedLists.bare := by
  have plain : nestedLists.Plain := by
    have inner : Value.Plain (.list [.string "a\nb" .none, .list [] .none] .none) :=
      .list (by simpa using ⟨.string (by decide) (by decide) _, .list (by simp) _⟩) _
    exact .list (by simpa using ⟨.int (by decide) _, inner⟩) _
  exact ⟨plain, by decide +kernel, repr_reads_back plain (.start {} (.memory [] []))⟩

end ScriptLang
