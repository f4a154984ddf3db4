import ScriptLang.Proofs.Print

/-! Scanning what was written. Each token is written so that nothing of what follows can be taken
for a part of it, so the scanner is idle again after each and has found just that token. -/
namespace ScriptLang

/-- The inside of a string literal with the text that it stands for. A backslash takes the next
character along, whatever that is; on its own a quote would end the literal. -/
inductive Escaped : List Char → List Char → Prop where
  | nil : Escaped [] []
  | plain {c : Char} {body text : List Char} (quote : c ≠ '"') (backslash : c ≠ '\\')
    (h : Escaped body text) : Escaped (c :: body) (c :: text)
  | escape (c : Char) {body text : List Char} (h : Escaped body text) :
    Escaped ('\\' :: c :: body) (unescape c :: text)

theorem escape_cases (c : Char) : (∃ d, escape c = ['\\', d] ∧ unescape d = c) ∨
    (escape c = [c] ∧ c ≠ '"' ∧ c ≠ '\\') := by
  unfold escape
  split
  · exact .inl ⟨_, rfl, rfl⟩
  · exact .inl ⟨_, rfl, rfl⟩
  · exact .inl ⟨_, rfl, rfl⟩
  · exact .inl ⟨_, rfl, rfl⟩
  · next quote backslash _ _ => exact .inr ⟨rfl, quote, backslash⟩

theorem escaped_escape (cs : List Char) : Escaped (cs.flatMap escape) cs := by
  induction cs with
  | nil => exact .nil
  | cons c cs ih =>
    rw [List.flatMap_cons]
    obtain ⟨d, escaped, rfl⟩ | ⟨plain, quote, backslash⟩ := escape_cases c
    · rw [escaped]
      exact .escape d ih
    · rw [plain]
      exact .plain quote backslash ih

namespace Scanner

/-- Reading `cs` leads to the given mode, with tokens that say `found`, latest first. -/
def Reaches (source : Source) (s : Scanner) (cs : List Char) (mode : Mode)
    (found : List Token.Content) : Prop :=
  ∃ s', s.run source cs = .ok s' ∧ s'.mode = mode ∧ s'.tokens.map Token.content = found

variable {source : Source} {s : Scanner}

theorem run_cons {s' : Scanner} {c : Char} (h : s.step source c = .ok s') (cs : List Char) :
    s.run source (c :: cs) = s'.run source cs := by
  unfold run
  rw [List.foldlM_cons, h]
  rfl

theorem Reaches.cons {s' : Scanner} {c : Char} {cs : List Char} {mode : Mode}
    {found : List Token.Content} (h : s.step source c = .ok s')
    (rest : s'.Reaches source cs mode found) : s.Reaches source (c :: cs) mode found := by
  obtain ⟨last, ran, reached⟩ := rest
  exact ⟨last, (run_cons h cs).trans ran, reached⟩

theorem Reaches.append {cs ds : List Char} {mode mode' : Mode} {found found' : List Token.Content}
    (first : s.Reaches source cs mode found)
    (rest : ∀ s' : Scanner, s'.mode = mode → s'.tokens.map Token.content = found →
      s'.Reaches source ds mode' found') : s.Reaches source (cs ++ ds) mode' found' := by
  obtain ⟨s₁, ran, mode₁, found₁⟩ := first
  obtain ⟨s₂, ran', reached⟩ := rest s₁ mode₁ found₁
  refine ⟨s₂, ?_, reached⟩
  rw [run_append, ran]
  exact ran'

theorem step_blank (idle : s.mode = .idle) : s.step source ' ' = .ok (s.enter ' ' .idle) := by
  unfold step
  rw [idle]
  rfl

section Words

variable {c : Char}

theorem start_of_alphanum (h : c.isAlphanum) : Token.Content.ofChar? c = none ∧
    Lead.ofChar? c = none ∧ ¬ (c = ' ' ∨ c = '\t' ∨ c = '\r') ∧ c ≠ '#' ∧ c ≠ '"' := by
  refine ⟨?_, ?_, ?_, ?_, ?_⟩
  · unfold Token.Content.ofChar?
    split <;> first | rfl | exact absurd h (by decide)
  · unfold Lead.ofChar?
    split <;> first | rfl | exact absurd h (by decide)
  · rintro (rfl | rfl | rfl) <;> exact absurd h (by decide)
  · rintro rfl
    exact absurd h (by decide)
  · rintro rfl
    exact absurd h (by decide)

theorem not_digit_of_alpha (h : c.isAlpha) : c.isDigit = false := by
  have upper : c.isUpper = decide (c.val ≥ 65 ∧ c.val ≤ 90) := rfl
  have lower : c.isLower = (decide (c.val ≥ 97) && decide (c.val ≤ 122)) := rfl
  have digit : c.isDigit = (decide (c.val ≥ 48) && decide (c.val ≤ 57)) := rfl
  rw [show c.isAlpha = (c.isUpper || c.isLower) from rfl, upper, lower] at h
  rw [digit]
  simp only [Bool.or_eq_true, Bool.and_eq_true, decide_eq_true_eq, Bool.and_eq_false_iff,
    decide_eq_false_iff_not, ge_iff_le, UInt32.le_iff_toNat_le, UInt32.reduceToNat] at h ⊢
  omega

theorem step_alpha (idle : s.mode = .idle) (h : c.isAlpha) :
    s.step source c = .ok (s.enter c (.word s.position [c])) := by
  have alphanum : c.isAlphanum := by
    rw [show c.isAlphanum = (c.isAlpha || c.isDigit) from rfl, h]
    simp
  have digit : c.isDigit = false := not_digit_of_alpha h
  obtain ⟨char, lead, blank, comment, quote⟩ := start_of_alphanum alphanum
  unfold step start
  rw [idle, char, lead]
  simp only [if_neg blank, if_neg comment, if_neg quote, digit, h, if_true]
  rfl

theorem step_digit (idle : s.mode = .idle) (h : c.isDigit) :
    s.step source c = .ok (s.enter c (.number s.position [c] false)) := by
  have alphanum : c.isAlphanum := by
    rw [show c.isAlphanum = (c.isAlpha || c.isDigit) from rfl, h]
    simp
  obtain ⟨char, lead, blank, comment, quote⟩ := start_of_alphanum alphanum
  unfold step start
  rw [idle, char, lead]
  simp only [if_neg blank, if_neg comment, if_neg quote, h, if_true]

theorem reaches_word {start : Position} {read : List Char} (mode : s.mode = .word start read)
    (cs : List Char) (h : cs.all isWordChar) :
    s.Reaches source cs (.word start (cs.reverse ++ read)) (s.tokens.map Token.content) := by
  induction cs generalizing s read with
  | nil => exact ⟨s, rfl, mode, rfl⟩
  | cons c cs ih =>
    rw [List.all_cons, Bool.and_eq_true] at h
    have stepped : s.step source c = .ok (s.enter c (.word start (c :: read))) := by
      unfold step
      rw [mode]
      simp only [h.1, if_true]
    have rest := ih (s := s.enter c (.word start (c :: read))) rfl h.2
    rw [List.reverse_cons, List.append_assoc]
    exact .cons stepped rest

theorem reaches_digits {start : Position} {read : List Char}
    (mode : s.mode = .number start read false) (cs : List Char) (h : ∀ c ∈ cs, c.isDigit) :
    s.Reaches source cs (.number start (cs.reverse ++ read) false)
      (s.tokens.map Token.content) := by
  induction cs generalizing s read with
  | nil => exact ⟨s, rfl, mode, rfl⟩
  | cons c cs ih =>
    have stepped : s.step source c = .ok (s.enter c (.number start (c :: read) false)) := by
      unfold step
      rw [mode]
      simp only [h c (by simp), if_true]
    have rest := ih (s := s.enter c (.number start (c :: read) false)) rfl
      fun d mem => h d (by simp [mem])
    rw [List.reverse_cons, List.append_assoc]
    exact .cons stepped rest

end Words

theorem reaches_escaped {start : Position} {read : List Char}
    (mode : s.mode = .string start read false) {body text : List Char} (h : Escaped body text) :
    s.Reaches source body (.string start (text.reverse ++ read) false)
      (s.tokens.map Token.content) := by
  induction h generalizing s read with
  | nil => exact ⟨s, rfl, mode, rfl⟩
  | @plain c body text quote backslash _ ih =>
    have stepped : s.step source c = .ok (s.enter c (.string start (c :: read) false)) := by
      unfold step
      rw [mode]
      simp only [if_neg quote, if_neg backslash]
    rw [List.reverse_cons, List.append_assoc]
    exact .cons stepped (ih (s := s.enter c (.string start (c :: read) false)) rfl)
  | @escape c body text _ ih =>
    let begun := s.enter '\\' (.string start read true)
    have first : s.step source '\\' = .ok begun := by
      unfold step
      rw [mode]
      rfl
    have second : begun.step source c =
        .ok (begun.enter c (.string start (unescape c :: read) false)) := rfl
    rw [List.reverse_cons, List.append_assoc]
    exact .cons first (.cons second
      (ih (s := begun.enter c (.string start (unescape c :: read) false)) rfl))

theorem reaches_quoted (idle : s.mode = .idle) {body text : List Char} (h : Escaped body text) :
    s.Reaches source ('"' :: (body ++ ['"'])) .idle
      (.string (String.ofList text) :: s.tokens.map Token.content) := by
  have first : s.step source '"' = .ok (s.enter '"' (.string s.position [] false)) := by
    unfold step
    rw [idle]
    rfl
  refine .cons first ((reaches_escaped rfl h).append ?_)
  intro s' mode found
  have last : s'.step source '"' = .ok ((s'.enter '"' .idle).emit source
      (.string (String.ofList text)) s.position (s'.enter '"' .idle).position) := by
    unfold step
    rw [mode]
    simp
  exact .cons last ⟨_, rfl, rfl, congrArg (Token.Content.string (String.ofList text) :: ·) found⟩

theorem reaches_blank (s' : Scanner) {x : Token.Content} {found : List Token.Content}
    (unread : s.step source ' ' = do (← s.close source).start source ' ')
    (closed : s.close source = .ok s') (idle : s'.mode = .idle)
    (contents : s'.tokens.map Token.content = x :: found) :
    s.Reaches source [' '] .idle (x :: found) := by
  have stepped : s.step source ' ' = .ok (s'.enter ' ' .idle) := by
    have blank : s'.step source ' ' = _ := step_blank idle
    unfold step at blank
    rw [idle] at blank
    rw [unread, closed]
    exact blank
  exact .cons stepped ⟨_, rfl, rfl, contents⟩

theorem reaches_ofWord (idle : s.mode = .idle) {word : List Char} (h : isWord word) :
    s.Reaches source (word ++ [' ']) .idle (.ofWord word :: s.tokens.map Token.content) := by
  cases word with
  | nil => cases h
  | cons c cs =>
    obtain ⟨first, rest⟩ := Bool.and_eq_true_iff.1 h
    refine .cons (step_alpha idle first) ((reaches_word rfl cs rest).append ?_)
    intro s' mode found
    refine reaches_blank (s'.emit source (.ofWord (c :: cs)) s.position s'.position) ?_ ?_ rfl ?_
    · unfold step
      rw [mode]
      rfl
    · unfold close
      rw [mode]
      simp
    · exact congrArg (Token.Content.ofWord (c :: cs) :: ·) found

theorem reaches_ofDigits (idle : s.mode = .idle) {digits : List Char} (some : digits ≠ [])
    (h : ∀ d ∈ digits, d.isDigit) :
    s.Reaches source (digits ++ [' ']) .idle (.ofDigits digits :: s.tokens.map Token.content) := by
  cases digits with
  | nil => exact absurd rfl some
  | cons c cs =>
    refine .cons (step_digit idle (h c (by simp)))
      ((reaches_digits rfl cs fun d mem => h d (by simp [mem])).append ?_)
    intro s' mode found
    refine reaches_blank (s'.emit source (.ofDigits (c :: cs)) s.position s'.position) ?_ ?_ rfl ?_
    · unfold step
      rw [mode]
      rfl
    · unfold close
      rw [mode]
      simp
    · exact congrArg (Token.Content.ofDigits (c :: cs) :: ·) found

theorem reaches_symbol (idle : s.mode = .idle) (x : Symbol) : s.Reaches source
    (x.text.toList ++ [' ']) .idle (.symbol x :: s.tokens.map Token.content) := by
  obtain ⟨mode, position, tokens⟩ := s
  obtain rfl : mode = .idle := idle
  cases x <;> exact ⟨_, rfl, rfl, rfl⟩

theorem reaches_literal (idle : s.mode = .idle) (text : String) : s.Reaches source
    ('"' :: (text.toList.flatMap escape ++ ['"']) ++ [' ']) .idle
      (.string text :: s.tokens.map Token.content) := by
  have quoted : s.Reaches source _ .idle _ := reaches_quoted idle (escaped_escape text.toList)
  rw [String.ofList_toList] at quoted
  exact quoted.append fun s' idle' found => .cons (step_blank idle') ⟨_, rfl, rfl, found⟩

end Scanner

namespace Token.Content

/-- Tokens that can be written: of the integers those that are not negative, of the words those
that are names, and neither floats nor the end. -/
def Writable : Token.Content → Prop
  | int n => 0 ≤ n
  | identifier name => isName name
  | float _ | eof => False
  | _ => True

theorem ofWord_keyword (k : Keyword) : ofWord k.text.toList = keyword k := by
  simp only [ofWord, String.ofList_toList, Keyword.ofText?_text]

theorem ofWord_identifier {name : String} (h : Keyword.ofText? name = none) :
    ofWord name.toList = identifier name := by
  simp only [ofWord, String.ofList_toList, h]

theorem ofDigits_int {n : Int64} (h : 0 ≤ n) :
    ofDigits (Nat.toDigits 10 n.toInt.toNat) = int n := by
  have nonneg : 0 ≤ n.toInt := Int64.le_iff_toInt_le.1 h
  have digits (c : Char) (mem : c ∈ Nat.toDigits 10 n.toInt.toNat) : c ≠ '.' := by
    rintro rfl
    exact absurd (Nat.isDigit_of_mem_toDigits (by decide) (by decide) mem) (by decide)
  have dotless : '.' ∉ Nat.toDigits 10 n.toInt.toNat := fun mem => digits _ mem rfl
  have all : (Nat.toDigits 10 n.toInt.toNat).filter (· ≠ '.') = Nat.toDigits 10 n.toInt.toNat :=
    List.filter_eq_self.2 fun c mem => by simpa using digits c mem
  have value : ((n.toInt.toNat : Nat) : Int) = n.toInt := Int.toNat_of_nonneg nonneg
  have range : Int64.ofInt? n.toInt = some n := by
    unfold Int64.ofInt?
    rw [if_pos ⟨n.minValue_le_toInt, n.toInt_le⟩]
    simp
  simp only [ofDigits, all, Nat.ofDigitChars_ten_toDigits, if_neg dotless, value, range]

theorem reaches_spelling {source : Source} {s : Scanner} (idle : s.mode = .idle)
    {x : Token.Content} (h : x.Writable) :
    s.Reaches source x.spelling .idle (x :: s.tokens.map Token.content) := by
  cases x with
  | int n =>
    have read : s.Reaches source (Nat.toDigits 10 n.toInt.toNat ++ [' ']) .idle _ :=
      Scanner.reaches_ofDigits idle Nat.toDigits_ne_nil
        fun d mem => Nat.isDigit_of_mem_toDigits (by decide) (by decide) mem
    rw [ofDigits_int h] at read
    exact read
  | string text => exact Scanner.reaches_literal idle text
  | identifier name =>
    obtain ⟨word, free⟩ := Bool.and_eq_true_iff.1 h
    have read : s.Reaches source _ .idle _ := Scanner.reaches_ofWord idle word
    rw [ofWord_identifier (by simpa using free)] at read
    exact read
  | keyword k =>
    have word : isWord k.text.toList := by cases k <;> rfl
    have read : s.Reaches source _ .idle _ := Scanner.reaches_ofWord idle word
    rw [ofWord_keyword] at read
    exact read
  | symbol x => exact Scanner.reaches_symbol idle x
  | newline =>
    obtain ⟨mode, position, tokens⟩ := s
    obtain rfl : mode = .idle := idle
    exact ⟨_, rfl, rfl, rfl⟩
  | float | eof => cases h

theorem reaches_spellings {source : Source} {s : Scanner} (idle : s.mode = .idle)
    (xs : List Token.Content) (h : ∀ x ∈ xs, x.Writable) :
    s.Reaches source (xs.flatMap spelling) .idle (xs.reverse ++ s.tokens.map Token.content) := by
  induction xs generalizing s with
  | nil => exact ⟨s, rfl, idle, rfl⟩
  | cons x xs ih =>
    rw [List.flatMap_cons, List.reverse_cons, List.append_assoc]
    refine (reaches_spelling idle (h x (by simp))).append fun s' idle' found => ?_
    have rest := ih (s := s') idle' fun y mem => h y (by simp [mem])
    rw [found] at rest
    exact rest

end Token.Content

theorem scan_spellings (name : String) (xs : List Token.Content) (h : ∀ x ∈ xs, x.Writable) :
    ∃ ts, scan ⟨name, String.ofList (xs.flatMap Token.Content.spelling)⟩ = .ok ts ∧
      ts.map Token.content = xs ++ [.eof] := by
  unfold scan
  rw [String.toList_ofList]
  obtain ⟨s, ran, idle, found⟩ : Scanner.initial.Reaches
      ⟨name, String.ofList (xs.flatMap Token.Content.spelling)⟩ _ .idle _ :=
    Token.Content.reaches_spellings rfl xs h
  rw [ran]
  change ∃ ts, Scanner.finish _ s = .ok ts ∧ _
  unfold Scanner.finish Scanner.close
  rw [idle]
  refine ⟨_, rfl, ?_⟩
  rw [List.reverse_cons, List.map_append, List.map_reverse, found]
  simp [Scanner.initial]

end ScriptLang
