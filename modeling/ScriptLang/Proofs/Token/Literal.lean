import Mathlib
import ScriptLang.Proofs.Token.Rescan

/-! What literals say. The digits of an integer are its decimal digits, a name is its lexeme, and a
string is the inside of its literal with the escapes replaced. Digits alone are an integer as long
as it fits; and every string has a literal. -/
namespace ScriptLang

/-- The number that a row of decimal digits stands for. -/
def decimalValue (digits : List Char) : Nat :=
  Nat.ofDigits 10 (digits.reverse.map fun c => c.toNat - '0'.toNat)

/-- The inside of a string literal with its escapes replaced. -/
def unescaped : List Char → List Char
  | '\\' :: c :: cs => (if c = 'n' then '\n' else if c = 't' then '\t' else c) :: unescaped cs
  | c :: cs => c :: unescaped cs
  | [] => []

/-- A text between quotes, with a backslash before each of its quotes and backslashes. -/
def quotation (s : String) : String :=
  String.ofList ('"' ::
    (s.toList.flatMap (fun c => if c = '\\' ∨ c = '"' then ['\\', c] else [c]) ++ ['"']))

theorem unescape_eq (c : Char) :
    unescape c = if c = 'n' then '\n' else if c = 't' then '\t' else c := by
  unfold unescape
  by_cases n : c = 'n'
  · subst n
    rfl
  · by_cases t : c = 't'
    · subst t
      rfl
    · rw [if_neg n, if_neg t]
      split
      · exact absurd rfl n
      · exact absurd rfl t
      · rfl

theorem Escaped.unescaped_eq {body text : List Char} (h : Escaped body text) :
    unescaped body = text := by
  induction h with
  | nil => rfl
  | plain quote backslash _ ih =>
    rw [unescaped, ih]
    intro _ _ eq
    exact absurd eq backslash
  | escape c _ ih =>
    rw [unescaped, ih, ← unescape_eq]

theorem escaped_quotation (cs : List Char) :
    Escaped (cs.flatMap fun c => if c = '\\' ∨ c = '"' then ['\\', c] else [c]) cs := by
  induction cs with
  | nil => exact .nil
  | cons c cs ih =>
    rw [List.flatMap_cons]
    by_cases special : c = '\\' ∨ c = '"'
    · rw [if_pos special]
      have same : unescape c = c := by rcases special with rfl | rfl <;> rfl
      simpa [same] using Escaped.escape c ih
    · rw [if_neg special]
      rw [not_or] at special
      exact .plain special.2 special.1 ih

theorem ofDigitChars_eq_decimalValue (digits : List Char) :
    Nat.ofDigitChars 10 digits 0 = decimalValue digits := by
  rw [decimalValue, Nat.ofDigits_eq_foldr, List.foldr_map, List.foldr_reverse, Nat.ofDigitChars]
  congr 1
  funext value c
  rw [Nat.add_comm]
  rfl

theorem Numeral.digit_or_dot {dotted : Bool} {cs : List Char} (h : Numeral dotted cs) :
    ∀ c ∈ cs, c.isDigit ∨ c = '.' := by
  induction h with
  | first digit => simpa using .inl digit
  | digit _ digit ih =>
    intro c mem
    rcases List.mem_append.1 mem with mem | mem
    · exact ih c mem
    · exact .inl (List.mem_singleton.1 mem ▸ digit)
  | dot _ ih =>
    intro c mem
    rcases List.mem_append.1 mem with mem | mem
    · exact ih c mem
    · exact .inr (List.mem_singleton.1 mem)

theorem Numeral.ne_nil {dotted : Bool} {cs : List Char} (h : Numeral dotted cs) : cs ≠ [] := by
  cases h <;> simp

namespace Token.Content

theorem ofDigits_dotted {digits : List Char} (h : '.' ∈ digits) :
    ∃ x, ofDigits digits = .float x := by
  unfold ofDigits
  dsimp only
  rw [if_pos h]
  exact ⟨_, rfl⟩

theorem ofDigits_dotless {digits : List Char} (h : '.' ∉ digits) :
    (∃ n : Int64, ofDigits digits = .int n ∧ n.toInt = decimalValue digits ∧
      decimalValue digits ≤ 2 ^ 63 - 1) ∨
    ∃ x, ofDigits digits = .float x ∧ 2 ^ 63 - 1 < decimalValue digits := by
  have all : digits.filter (· ≠ '.') = digits := by
    refine List.filter_eq_self.2 fun c mem => decide_eq_true ?_
    rintro rfl
    exact h mem
  unfold ofDigits
  dsimp only
  rw [if_neg h, all, ofDigitChars_eq_decimalValue]
  by_cases fits : decimalValue digits ≤ 2 ^ 63 - 1
  · have range : Int64.ofInt? (decimalValue digits) = some (Int64.ofInt (decimalValue digits)) := by
      apply if_pos
      rw [Int64.toInt_minValue, Int64.toInt_maxValue]
      omega
    rw [range]
    exact .inl ⟨_, rfl, Int64.toInt_ofInt_of_le (by omega) (by omega), fits⟩
  · have range : Int64.ofInt? (decimalValue digits) = none := by
      apply if_neg
      rw [Int64.toInt_minValue, Int64.toInt_maxValue]
      omega
    rw [range]
    exact .inr ⟨_, rfl, by omega⟩

theorem ofDigits_cases (digits : List Char) :
    (∃ n, ofDigits digits = .int n) ∨ ∃ x, ofDigits digits = .float x := by
  by_cases dot : '.' ∈ digits
  · exact .inr (ofDigits_dotted dot)
  · rcases ofDigits_dotless dot with ⟨n, eq, -⟩ | ⟨x, eq, -⟩
    · exact .inl ⟨n, eq⟩
    · exact .inr ⟨x, eq⟩

theorem ofWord_cases (letters : List Char) :
    (∃ k, ofWord letters = .keyword k) ∨ (ofWord letters = .identifier (String.ofList letters) ∧
      ∀ k : Keyword, k.text ≠ String.ofList letters) := by
  unfold ofWord
  dsimp only
  cases found : Keyword.ofText? (String.ofList letters) with
  | some k => exact .inl ⟨k, rfl⟩
  | none =>
    refine .inr ⟨rfl, fun k eq => ?_⟩
    rw [← eq, Keyword.ofText?_text] at found
    cases found

/-- What the lexeme is of a token that has a value. -/
def Form (lexeme : List Char) : Token.Content → Prop
  | int n => (∃ dotted, Numeral dotted lexeme) ∧ ofDigits lexeme = int n
  | identifier name => name = String.ofList lexeme ∧ ∀ k : Keyword, k.text ≠ name
  | string s => ∃ body text, Escaped body text ∧ lexeme = '"' :: (body ++ ['"']) ∧
    s = String.ofList text
  | _ => True

end Token.Content

namespace Token.Lexeme

open Token.Content

variable {lexeme : List Char} {x : Token.Content}

theorem form (h : Token.Lexeme lexeme x) : x.Form lexeme := by
  cases h with
  | single found =>
    unfold ofChar? at found
    split at found <;> cases found <;> trivial
  | alone => trivial
  | joined => trivial
  | string escaped => exact ⟨_, _, escaped, rfl, rfl⟩
  | number numeral =>
    rcases ofDigits_cases lexeme with ⟨n, eq⟩ | ⟨y, eq⟩
    · rw [eq]
      exact ⟨⟨_, numeral⟩, eq⟩
    · rw [eq]
      trivial
  | word word =>
    rcases ofWord_cases lexeme with ⟨k, eq⟩ | ⟨eq, free⟩
    · rw [eq]
      trivial
    · rw [eq]
      exact ⟨rfl, free⟩

theorem eq_ofDigits (h : Token.Lexeme lexeme x) (digits : ∀ c ∈ lexeme, c.isDigit) :
    x = ofDigits lexeme := by
  have alphanum (c : Char) (mem : c ∈ lexeme) : c.isAlphanum := by
    change (c.isAlpha || c.isDigit) = true
    rw [digits c mem, Bool.or_true]
  cases h with
  | number => rfl
  | @single c _ found =>
    obtain ⟨none, -⟩ := Scanner.start_of_alphanum (alphanum c (by simp))
    cases none.symm.trans found
  | @alone c _ _ lead =>
    obtain ⟨-, none, -⟩ := Scanner.start_of_alphanum (alphanum c (by simp))
    cases none.symm.trans lead
  | @joined c _ lead =>
    obtain ⟨-, none, -⟩ := Scanner.start_of_alphanum (alphanum c (by simp))
    cases none.symm.trans lead
  | string => exact absurd (digits '"' (by simp)) (by decide)
  | word word =>
    cases lexeme with
    | nil => cases word
    | cons c cs =>
      obtain ⟨letter, -⟩ := Bool.and_eq_true_iff.1 word
      exact absurd (digits c (by simp)) (by simp [Scanner.not_digit_of_alpha letter])

theorem int_denotes {n : Int64} (h : Token.Lexeme lexeme (.int n)) :
    lexeme ≠ [] ∧ (∀ c ∈ lexeme, c.isDigit) ∧ n.toInt = decimalValue lexeme := by
  obtain ⟨⟨dotted, numeral⟩, eq⟩ := h.form
  have dotless : '.' ∉ lexeme := by
    intro dot
    obtain ⟨x, float⟩ := ofDigits_dotted dot
    cases eq.symm.trans float
  refine ⟨numeral.ne_nil, fun c mem => ?_, ?_⟩
  · rcases numeral.digit_or_dot c mem with digit | rfl
    · exact digit
    · exact absurd mem dotless
  · rcases ofDigits_dotless dotless with ⟨m, same, value, -⟩ | ⟨x, float, -⟩
    · cases eq.symm.trans same
      exact value
    · cases eq.symm.trans float

theorem float_iff (h : Token.Lexeme lexeme x) (digits : ∀ c ∈ lexeme, c.isDigit) :
    x.kind = .float ↔ 2 ^ 63 - 1 < decimalValue lexeme := by
  have dotless : '.' ∉ lexeme := fun dot => absurd (digits '.' dot) (by decide)
  rw [h.eq_ofDigits digits]
  rcases ofDigits_dotless dotless with ⟨n, int, -, fits⟩ | ⟨y, float, large⟩
  · rw [int]
    exact iff_of_false nofun (by omega)
  · rw [float]
    exact iff_of_true rfl large

theorem string_denotes {s : String} (h : Token.Lexeme lexeme (.string s)) :
    ∃ body, lexeme = '"' :: (body ++ ['"']) ∧ s.toList = unescaped body := by
  obtain ⟨body, text, escaped, quoted, rfl⟩ := h.form
  exact ⟨body, quoted, by rw [String.toList_ofList, escaped.unescaped_eq]⟩

end Token.Lexeme

theorem lexeme_of_end {source : Source} {ts : List Token} (scanned : scan source = .ok ts)
    {t : Token} (mem : t ∈ ts) (ends : t.kind = .eof) : t.span.lexeme = "" := by
  obtain ⟨front, gap, tokens, last, text, laid, -, rfl, -, span⟩ := laid_of_scan scanned
  rcases List.mem_append.1 mem with mem | mem
  · obtain ⟨_, _, _, -, placed⟩ := laid.forall_placed t (List.mem_reverse.1 mem)
    exact absurd ends placed.other
  · obtain rfl := List.mem_singleton.1 mem
    unfold Span.lexeme
    rw [span]
    simp

/-- The literals of a text are what their lexemes denote, and each string has a literal. -/
theorem literals_denote {source : Source} {ts : List Token} (scanned : scan source = .ok ts) :
    (∀ t ∈ ts,
      (∀ n, t.content = .int n → t.span.lexeme ≠ "" ∧ (∀ c ∈ t.span.lexeme.toList, c.isDigit) ∧
        n.toInt = decimalValue t.span.lexeme.toList) ∧
      (t.span.lexeme ≠ "" → (∀ c ∈ t.span.lexeme.toList, c.isDigit) →
        (t.kind = .float ↔ 2 ^ 63 - 1 < decimalValue t.span.lexeme.toList)) ∧
      (∀ name, t.content = .identifier name →
        name = t.span.lexeme ∧ ∀ k : Keyword, k.text ≠ name) ∧
      ∀ s, t.content = .string s → ∃ body, t.span.lexeme.toList = '"' :: (body ++ ['"']) ∧
        s.toList = unescaped body) ∧
    ∀ name s, ∃ t last, scan ⟨name, quotation s⟩ = .ok [t, last] ∧ t.content = .string s ∧
      last.content = .eof := by
  refine ⟨fun t mem => ?_, fun name s => ?_⟩
  · have lexeme {x : Token.Content} (spells : t.content = x) (other : x.kind ≠ .eof) :
        Token.Lexeme t.span.lexeme.toList x :=
      spells ▸ lexeme_of_scan scanned mem fun ends => other (spells ▸ ends)
    refine ⟨fun n spells => ?_, fun some digits => ?_, fun name spells => ?_, fun s spells => ?_⟩
    · obtain ⟨some, rest⟩ := (lexeme spells nofun).int_denotes
      exact ⟨by simpa using some, rest⟩
    · have other : t.kind ≠ .eof := fun ends => some (lexeme_of_end scanned mem ends)
      exact (lexeme rfl other).float_iff digits
    · obtain ⟨same, free⟩ := (lexeme spells nofun).form
      exact ⟨by simpa using same, free⟩
    · exact (lexeme spells nofun).string_denotes
  · have spelt : Token.Lexeme (quotation s).toList (.string s) := by
      have literal := Token.Lexeme.string (escaped_quotation s.toList)
      rw [String.ofList_toList] at literal
      rw [quotation, String.toList_ofList]
      exact literal
    obtain ⟨t, last, scanned, content, -, ends⟩ := spelt.scan_alone name
    exact ⟨t, last, scanned, content, ends⟩

/-- The first integer that does not fit, and one with zeros before its digit. -/
theorem literals_denote_large : ∃ ts, scan ⟨"<stdin>", "9223372036854775808 007"⟩ = .ok ts ∧
    ts.map Token.kind = [.float, .int, .eof] ∧
    ts.map (·.span.lexeme) = ["9223372036854775808", "007", ""] ∧
    (∀ t ∈ ts, ∀ n, t.content = .int n → n.toInt = decimalValue t.span.lexeme.toList) ∧
    ∀ t ∈ ts, t.span.lexeme ≠ "" → (∀ c ∈ t.span.lexeme.toList, c.isDigit) →
      (t.kind = .float ↔ 2 ^ 63 - 1 < decimalValue t.span.lexeme.toList) := by
  have checked : (scan ⟨"<stdin>", "9223372036854775808 007"⟩).toOption.any (fun ts =>
      ts.map Token.kind = [.float, .int, .eof] &&
        ts.map (·.span.lexeme) = ["9223372036854775808", "007", ""]) = true := by decide +kernel
  cases scanned : scan ⟨"<stdin>", "9223372036854775808 007"⟩ with
  | error e =>
    rw [scanned] at checked
    cases checked
  | ok ts =>
    rw [scanned] at checked
    have facts : ts.map Token.kind = [.float, .int, .eof] ∧
        ts.map (·.span.lexeme) = ["9223372036854775808", "007", ""] := by
      simpa [Except.toOption] using checked
    obtain ⟨denoted, -⟩ := literals_denote scanned
    exact ⟨ts, rfl, facts.1, facts.2, fun t mem n eq => ((denoted t mem).1 n eq).2.2,
      fun t mem => (denoted t mem).2.1⟩

end ScriptLang
