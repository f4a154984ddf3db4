import Mathlib.Tactic.SplitIfs
import ScriptLang.Proofs.Print.Scan
import ScriptLang.Proofs.Token.Order

/-! Lexemes: the texts that are a token each, and what they say. The characters of every token that
is scanned are such a text, and the token says what it says. -/
namespace ScriptLang

theorem Escaped.append {body text body' text' : List Char} (h : Escaped body text)
    (h' : Escaped body' text') : Escaped (body ++ body') (text ++ text') := by
  induction h with
  | nil => exact h'
  | plain quote backslash _ ih => exact .plain quote backslash ih
  | escape c _ ih => exact .escape c ih

/-- Digits, with one dot behind the first of them or with none. -/
inductive Numeral : Bool → List Char → Prop where
  | first {c : Char} (h : c.isDigit) : Numeral false [c]
  | digit {dotted : Bool} {cs : List Char} {c : Char} (h : Numeral dotted cs) (digit : c.isDigit) :
    Numeral dotted (cs ++ [c])
  | dot {cs : List Char} (h : Numeral false cs) : Numeral true (cs ++ ['.'])

theorem isWord_snoc {cs : List Char} {c : Char} (h : isWord cs) (letter : isWordChar c) :
    isWord (cs ++ [c]) := by
  cases cs with
  | nil => cases h
  | cons d ds =>
    obtain ⟨first, rest⟩ := Bool.and_eq_true_iff.1 h
    simp [isWord, first, List.all_append, rest, letter]

/-- The characters of one token, and what the token says. -/
inductive Token.Lexeme : List Char → Token.Content → Prop where
  | single {c : Char} {x : Token.Content} (found : Token.Content.ofChar? c = some x) : Lexeme [c] x
  | alone {c : Char} {first : Scanner.Lead} {symbol : Symbol}
    (lead : Scanner.Lead.ofChar? c = some first) (alone : first.alone? = some symbol) :
    Lexeme [c] (.symbol symbol)
  | joined {c : Char} {first : Scanner.Lead} (lead : Scanner.Lead.ofChar? c = some first) :
    Lexeme [c, first.second] (.symbol first.joined)
  | string {body text : List Char} (h : Escaped body text) :
    Lexeme ('"' :: (body ++ ['"'])) (.string (String.ofList text))
  | number {dotted : Bool} {digits : List Char} (h : Numeral dotted digits) :
    Lexeme digits (.ofDigits digits)
  | word {letters : List Char} (h : isWord letters) : Lexeme letters (.ofWord letters)

/-- The token covers some of the characters read so far, and says what they say. -/
structure Token.Spelled (source : Source) (cs : List Char) (t : Token) : Prop where
  source : t.span.source = source
  spelled : ∃ before lexeme after, cs = before ++ lexeme ++ after ∧
    t.span.start.offset = before.length ∧ t.span.stop.offset = before.length + lexeme.length ∧
    Token.Lexeme lexeme t.content

theorem Token.Spelled.append {source : Source} {cs : List Char} {t : Token}
    (h : t.Spelled source cs) (ds : List Char) : t.Spelled source (cs ++ ds) := by
  obtain ⟨before, lexeme, after, rfl, spelled⟩ := h.spelled
  exact ⟨h.source, before, lexeme, after ++ ds, by simp, spelled⟩

theorem Token.Spelled.lexeme {source : Source} {t : Token}
    (h : t.Spelled source source.text.toList) : Token.Lexeme t.span.lexeme.toList t.content := by
  obtain ⟨before, lexeme, after, text, start, stop, spells⟩ := h.spelled
  have covered : t.span.lexeme.toList = lexeme := by
    unfold Span.lexeme
    rw [h.source, text, start, stop]
    simp
  rwa [covered]

namespace Scanner

/-- What is pending, from the given offset on, is the beginning of a lexeme. -/
def Mode.Begins (offset : Nat) (pending : List Char) : Mode → Prop
  | .idle | .comment => True
  | .string start read escaped => start.offset = offset ∧ ∃ body, Escaped body read.reverse ∧
    pending = '"' :: (body ++ if escaped then ['\\'] else [])
  | .number start read dotted =>
    start.offset = offset ∧ pending = read.reverse ∧ Numeral dotted pending
  | .word start read => start.offset = offset ∧ pending = read.reverse ∧ isWord pending
  | .lead start first => start.offset = offset ∧ ∃ c, pending = [c] ∧ Lead.ofChar? c = some first

structure Spelling (source : Source) (cs : List Char) (s : Scanner) : Prop where
  position : s.position.offset = cs.length
  tokens : ∀ t ∈ s.tokens, t.Spelled source cs
  pending : ∃ before pending, cs = before ++ pending ∧ s.mode.Begins before.length pending

namespace Spelling

variable {source : Source} {cs : List Char} {s s' : Scanner} {c : Char}

theorem initial (source : Source) : Scanner.initial.Spelling source [] :=
  ⟨rfl, by simp [Scanner.initial], [], [], rfl, trivial⟩

theorem extend (h : s.Spelling source cs) (c : Char) {mode : Mode}
    (begins : ∀ offset pending, s.mode.Begins offset pending →
      mode.Begins offset (pending ++ [c])) : (s.enter c mode).Spelling source (cs ++ [c]) := by
  obtain ⟨before, pending, rfl, begun⟩ := h.pending
  exact ⟨by simp [enter, h.position, Nat.add_assoc], fun t mem => (h.tokens t mem).append [c],
    before, pending ++ [c], by simp, begins _ _ begun⟩

theorem begin (h : s.Spelling source cs) (c : Char) {mode : Mode}
    (begins : ∀ offset, s.position.offset = offset → mode.Begins offset [c]) :
    (s.enter c mode).Spelling source (cs ++ [c]) :=
  ⟨by simp [enter, h.position], fun t mem => (h.tokens t mem).append [c], cs, [c], rfl,
    begins _ h.position⟩

theorem emit (h : s.Spelling source cs) {before lexeme : List Char} {x : Token.Content}
    {start stop : Position} (split : cs = before ++ lexeme) (begun : start.offset = before.length)
    (ended : stop.offset = cs.length) (spells : Token.Lexeme lexeme x) :
    (s.emit source x start stop).Spelling source cs := by
  have spelled : Token.Spelled source cs ⟨x, source, start, stop⟩ :=
    ⟨rfl, before, lexeme, [], by simp [split], begun, by simp [ended, split], spells⟩
  refine ⟨h.position, fun t mem => ?_, cs, [], by simp, trivial⟩
  rcases List.mem_cons.1 mem with rfl | mem
  · exact spelled
  · exact h.tokens t mem

theorem emit_pending (h : s.Spelling source cs) {x : Token.Content} {start : Position}
    (complete : ∀ offset pending, s.mode.Begins offset pending →
      start.offset = offset ∧ Token.Lexeme pending x) :
    (s.emit source x start s.position).Spelling source cs := by
  obtain ⟨before, pending, split, begun⟩ := h.pending
  obtain ⟨offset, spells⟩ := complete _ _ begun
  exact h.emit split offset h.position spells

theorem emit_with (h : s.Spelling source cs) (c : Char) {x : Token.Content} {start : Position}
    (complete : ∀ offset pending, s.mode.Begins offset pending →
      start.offset = offset ∧ Token.Lexeme (pending ++ [c]) x) :
    ((s.enter c .idle).emit source x start (s.enter c .idle).position).Spelling source
      (cs ++ [c]) := by
  obtain ⟨before, pending, split, begun⟩ := h.pending
  obtain ⟨offset, spells⟩ := complete _ _ begun
  have past : (s.enter c .idle).Spelling source (cs ++ [c]) := h.extend c fun _ _ _ => trivial
  exact past.emit (by simp [split]) offset past.position spells

theorem close (h : s.Spelling source cs) (closed : s.close source = .ok s') :
    s'.Spelling source cs := by
  unfold Scanner.close at closed
  cases mode : s.mode with
  | idle | comment =>
    rw [mode] at closed
    cases closed
    exact ⟨h.position, h.tokens, cs, [], by simp, trivial⟩
  | string => rw [mode] at closed; cases closed
  | number start read dotted =>
    rw [mode] at closed
    cases closed
    apply h.emit_pending
    rw [mode]
    rintro _ _ ⟨offset, rfl, numeral⟩
    exact ⟨offset, .number numeral⟩
  | word start read =>
    rw [mode] at closed
    cases closed
    apply h.emit_pending
    rw [mode]
    rintro _ _ ⟨offset, rfl, word⟩
    exact ⟨offset, .word word⟩
  | lead start first =>
    simp only [mode] at closed
    split at closed
    · next alone =>
      cases closed
      apply h.emit_pending
      rw [mode]
      rintro _ _ ⟨offset, c, rfl, lead⟩
      exact ⟨offset, .alone lead alone⟩
    · cases closed

theorem start (h : s.Spelling source cs) (started : s.start source c = .ok s') :
    s'.Spelling source (cs ++ [c]) := by
  unfold Scanner.start at started
  split at started
  · next found =>
    cases started
    have past : (s.enter c .idle).Spelling source (cs ++ [c]) := h.begin c fun _ _ => trivial
    exact past.emit rfl h.position (by simp [Position.next, h.position]) (.single found)
  · next lead =>
    cases started
    exact h.begin c fun offset here => ⟨here, c, rfl, lead⟩
  · split_ifs at started with blank hash quote digit letter
    · cases started
      exact h.begin c fun _ _ => trivial
    · cases started
      exact h.begin c fun _ _ => trivial
    · cases started
      exact h.begin c fun offset here => ⟨here, [], .nil, by simp [quote]⟩
    · cases started
      exact h.begin c fun offset here => ⟨here, rfl, .first digit⟩
    · cases started
      exact h.begin c fun offset here => ⟨here, rfl, by simp [isWord, letter]⟩

theorem restart (h : s.Spelling source cs)
    (restarted : (do (← s.close source).start source c) = .ok s') :
    s'.Spelling source (cs ++ [c]) := by
  cases closed : s.close source with
  | error e => rw [closed] at restarted; cases restarted
  | ok s₁ =>
    rw [closed] at restarted
    exact (h.close closed).start restarted

theorem step (h : s.Spelling source cs) (stepped : s.step source c = .ok s') :
    s'.Spelling source (cs ++ [c]) := by
  unfold Scanner.step at stepped
  cases mode : s.mode with
  | idle =>
    simp only [mode] at stepped
    exact h.start stepped
  | comment =>
    simp only [mode] at stepped
    cases stepped
    apply h.begin c
    split <;> exact fun _ _ => trivial
  | string start read escaped =>
    simp only [mode] at stepped
    cases escaped with
    | true =>
      cases stepped
      apply h.extend
      rw [mode]
      rintro offset _ ⟨here, body, escaped, rfl⟩
      have more := escaped.append (.escape c .nil)
      exact ⟨here, body ++ ['\\', c], by simpa using more, by simp⟩
    | false =>
      dsimp only at stepped
      split_ifs at stepped with quote backslash <;> cases stepped
      · apply h.emit_with
        rw [mode]
        rintro offset _ ⟨here, body, escaped, rfl⟩
        exact ⟨here, by simpa [quote] using Token.Lexeme.string escaped⟩
      · apply h.extend
        rw [mode]
        rintro offset _ ⟨here, body, escaped, rfl⟩
        exact ⟨here, body, escaped, by simp [backslash]⟩
      · apply h.extend
        rw [mode]
        rintro offset _ ⟨here, body, escaped, rfl⟩
        have more := escaped.append (.plain quote backslash .nil)
        exact ⟨here, body ++ [c], by simpa using more, by simp⟩
  | number start read dotted =>
    simp only [mode] at stepped
    split_ifs at stepped with digit dot
    · cases stepped
      apply h.extend
      rw [mode]
      rintro offset _ ⟨here, rfl, numeral⟩
      exact ⟨here, by simp, numeral.digit digit⟩
    · cases stepped
      obtain ⟨rfl, undotted⟩ := dot
      obtain rfl : dotted = false := by simpa using undotted
      apply h.extend
      rw [mode]
      rintro offset _ ⟨here, rfl, numeral⟩
      exact ⟨here, by simp, numeral.dot⟩
    · exact h.restart stepped
  | word start read =>
    simp only [mode] at stepped
    split_ifs at stepped with letter
    · cases stepped
      apply h.extend
      rw [mode]
      rintro offset _ ⟨here, rfl, word⟩
      exact ⟨here, by simp, isWord_snoc word letter⟩
    · exact h.restart stepped
  | lead start first =>
    simp only [mode] at stepped
    split_ifs at stepped with second
    · cases stepped
      apply h.emit_with
      rw [mode]
      rintro offset _ ⟨here, c', rfl, lead⟩
      exact ⟨here, second ▸ .joined lead⟩
    · exact h.restart stepped

theorem run (h : s.Spelling source cs) {ds : List Char} (ran : s.run source ds = .ok s') :
    s'.Spelling source (cs ++ ds) := by
  induction ds generalizing s cs with
  | nil => cases ran; simpa using h
  | cons c ds ih =>
    unfold Scanner.run at ran
    rw [List.foldlM_cons] at ran
    cases stepped : s.step source c with
    | error e => rw [stepped] at ran; cases ran
    | ok s₁ =>
      rw [stepped] at ran
      simpa using ih (h.step stepped) ran

end Spelling

end Scanner

theorem lexeme_of_scan {source : Source} {ts : List Token} (scanned : scan source = .ok ts)
    {t : Token} (mem : t ∈ ts) (other : t.kind ≠ .eof) :
    Token.Lexeme t.span.lexeme.toList t.content := by
  obtain ⟨s, last, ran, closed, rfl⟩ := closed_of_scan scanned
  have spelling := ((Scanner.Spelling.initial source).run ran).close closed
  rw [List.nil_append] at spelling
  rcases List.mem_append.1 mem with mem | mem
  · exact (spelling.tokens t (List.mem_reverse.1 mem)).lexeme
  · obtain rfl := List.mem_singleton.1 mem
    exact absurd rfl other

end ScriptLang
