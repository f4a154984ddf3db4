import ScriptLang.Proofs.Sequence.Scan
import ScriptLang.Proofs.Token.Lexeme
import ScriptLang.Proofs.Token.Pending
import ScriptLang.Proofs.Token.Tiling

/-! Scanning lexemes again. A lexeme on its own is scanned as the token that it was, and nothing of
what a blank may be followed by becomes a part of it. So the lexemes of a text with blanks between
them are the same tokens, whatever stood between them before. -/
namespace ScriptLang

namespace Scanner

variable {source : Source} {s : Scanner} {found : List Token.Content}

/-- A token that began at `start` ends here, or has just ended; with it, the tokens read say
`found`, latest first. -/
structure Ends (source : Source) (s : Scanner) (start : Position)
    (found : List Token.Content) : Prop where
  outside : s.mode.Outside
  closed : ∃ last t ts, s.close source = .ok last ∧ last.mode = .idle ∧
    last.position = s.position ∧ last.tokens = t :: ts ∧ (t :: ts).map Token.content = found ∧
    t.span.source = source ∧ t.span.start = start ∧ t.span.stop.offset = s.position.offset

theorem Ends.ofEmit (c : Char) {x : Token.Content} {start stop : Position}
    (here : stop.offset = s.position.offset + 1) :
    ((s.enter c .idle).emit source x start stop).Ends source start
      (x :: s.tokens.map Token.content) :=
  ⟨trivial, _, _, _, rfl, rfl, rfl, rfl, rfl, rfl, rfl, by simp [emit, enter, here]⟩

theorem Ends.ofClose {start : Position} {x : Token.Content} (outside : s.mode.Outside)
    (closed : s.close source = .ok (s.emit source x start s.position)) :
    s.Ends source start (x :: s.tokens.map Token.content) :=
  ⟨outside, _, _, _, closed, rfl, rfl, rfl, rfl, rfl, rfl, rfl⟩

theorem Ends.scan_eq {start : Position} (h : s.Ends source start found)
    (ran : initial.run source source.text.toList = .ok s) :
    ∃ last t ts, scan source = .ok ((t :: ts).reverse ++ [last]) ∧ last.content = .eof ∧
      (t :: ts).map Token.content = found ∧ t.span.source = source ∧ t.span.start = start ∧
      t.span.stop.offset = s.position.offset := by
  obtain ⟨last, t, ts, closed, -, -, tokens, rest⟩ := h.closed
  refine ⟨⟨.eof, source, last.position, last.position.next⟩, t, ts, ?_, rfl, rest⟩
  unfold scan
  rw [ran]
  change s.finish source = _
  unfold Scanner.finish
  rw [closed, ← tokens, ← List.reverse_cons]
  rfl

theorem Ends.blank {start : Position} (h : s.Ends source start found) :
    s.Reaches source [' '] .idle found := by
  obtain ⟨last, t, ts, closed, idle, -, tokens, contents, -⟩ := h.closed
  have passed : last.start source ' ' = .ok (last.enter ' ' .idle) := rfl
  have stepped := (step_eq_ok h.outside (by simp)).2 ⟨last, closed, passed⟩
  exact .cons stepped ⟨_, rfl, rfl, by rw [← contents, ← tokens]; rfl⟩

theorem start_lead {c : Char} {first : Lead} (lead : Lead.ofChar? c = some first) :
    s.start source c = .ok (s.enter c (.lead s.position first)) := by
  have none : Token.Content.ofChar? c = none := by
    unfold Lead.ofChar? at lead
    split at lead <;> first | rfl | cases lead
  unfold start
  rw [none, lead]

theorem reaches_numeral (idle : s.mode = .idle) {dotted : Bool} {digits : List Char}
    (h : Numeral dotted digits) :
    s.Reaches source digits (.number s.position digits.reverse dotted)
      (s.tokens.map Token.content) := by
  induction h with
  | first digit => exact .cons (step_digit idle digit) ⟨_, rfl, rfl, rfl⟩
  | @digit dotted cs c _ digit ih =>
    refine ih.append fun s' mode contents => ?_
    have stepped : s'.step source c =
        .ok (s'.enter c (.number s.position (c :: cs.reverse) dotted)) := by
      unfold step
      rw [mode]
      simp only [digit, if_true]
    exact .cons stepped ⟨_, rfl, by simp [enter], contents⟩
  | @dot cs _ ih =>
    refine ih.append fun s' mode contents => ?_
    have stepped : s'.step source '.' =
        .ok (s'.enter '.' (.number s.position ('.' :: cs.reverse) true)) := by
      unfold step
      rw [mode]
      rfl
    exact .cons stepped ⟨_, rfl, by simp [enter], contents⟩

end Scanner

open Scanner in
theorem Token.Lexeme.reaches_end {lexeme : List Char} {x : Token.Content}
    (h : Token.Lexeme lexeme x) (source : Source) {s : Scanner} (idle : s.mode = .idle) :
    ∃ s', s.run source lexeme = .ok s' ∧
      s'.Ends source s.position (x :: s.tokens.map Token.content) := by
  have begin (c : Char) : s.step source c = s.start source c := by
    unfold step
    rw [idle]
  cases h with
  | @single c _ found =>
    have ends : ((s.enter c .idle).emit source x s.position s.position.next).Ends source
      s.position (x :: s.tokens.map Token.content) := .ofEmit c rfl
    refine ⟨_, run_cons ((begin c).trans ?_) [], ends⟩
    unfold start
    rw [found]
    rfl
  | @alone c first symbol lead alone =>
    refine ⟨_, run_cons ((begin c).trans (start_lead lead)) [], .ofClose trivial ?_⟩
    unfold close
    simp only [enter, alone]
  | @joined c first lead =>
    let begun := s.enter c (.lead s.position first)
    let past := begun.enter first.second .idle
    have second : begun.step source first.second =
        .ok (past.emit source (.symbol first.joined) s.position past.position) := if_pos rfl
    exact ⟨_, (run_cons ((begin c).trans (start_lead lead)) _).trans (run_cons second []),
      .ofEmit _ (by simp [past, enter])⟩
  | @string body text escaped =>
    let begun := s.enter '"' (.string s.position [] false)
    obtain ⟨s', ran, mode, contents⟩ : begun.Reaches source body _ _ := reaches_escaped rfl escaped
    let past := s'.enter '"' .idle
    have last : s'.step source '"' = .ok (past.emit source (.string (String.ofList text))
        s.position past.position) := by
      unfold step
      rw [mode]
      simp [past]
    have opened : s.step source '"' = .ok begun := begin '"'
    have whole : s.run source ('"' :: (body ++ ['"'])) = .ok (past.emit source
        (.string (String.ofList text)) s.position past.position) := by
      rw [run_cons opened, run_append, ran]
      exact run_cons last []
    exact ⟨_, whole, contents ▸ .ofEmit '"' (by simp [past, enter])⟩
  | @number dotted digits numeral =>
    obtain ⟨s', ran, mode, contents⟩ : s.Reaches source lexeme _ _ := reaches_numeral idle numeral
    refine ⟨s', ran, contents ▸ ?_⟩
    refine .ofClose (by rw [mode]; trivial) ?_
    unfold close
    rw [mode]
    simp
  | @word letters word =>
    obtain ⟨c, cs, rfl⟩ : ∃ c cs, lexeme = c :: cs := by
      cases lexeme with
      | nil => cases word
      | cons c cs => exact ⟨c, cs, rfl⟩
    obtain ⟨first, rest⟩ := Bool.and_eq_true_iff.1 word
    obtain ⟨s', ran, mode, contents⟩ : (s.enter c (.word s.position [c])).Reaches source cs _ _ :=
      reaches_word rfl cs rest
    refine ⟨s', (run_cons (step_alpha idle first) cs).trans ran, contents ▸ ?_⟩
    refine .ofClose (by rw [mode]; trivial) ?_
    unfold close
    rw [mode]
    simp

open Scanner in
theorem Token.run_spaced (source : Source) {t : Token} {ts : List Token}
    (h : ∀ u ∈ t :: ts, Token.Lexeme u.span.lexeme.toList u.content) {s : Scanner}
    (idle : s.mode = .idle) : ∃ s' start,
      s.run source (" ".intercalate ((t :: ts).map (·.span.lexeme))).toList = .ok s' ∧
      s'.Ends source start
        (((t :: ts).map Token.content).reverse ++ s.tokens.map Token.content) := by
  induction ts generalizing s t with
  | nil =>
    obtain ⟨s', ran, ends⟩ := (h t (by simp)).reaches_end source idle
    exact ⟨s', s.position, by simpa using ran, ends⟩
  | cons u us ih =>
    obtain ⟨s₁, ran, ends⟩ := (h t (by simp)).reaches_end source idle
    obtain ⟨s₂, passed, idle', contents⟩ := ends.blank
    obtain ⟨s', start, ran', ends'⟩ := ih (t := u) (fun v mem => h v (.tail t mem)) idle'
    refine ⟨s', start, ?_, ?_⟩
    · rw [List.map_cons, List.map_cons, String.intercalate_cons_cons, String.toList_append,
        String.toList_append, run_append, run_append, ran]
      change ((s₁.run source [' ']).bind _) = _
      rw [passed]
      exact ran'
    · rw [contents] at ends'
      simpa using ends'

theorem Token.Lexeme.scan_alone {lexeme : String} {x : Token.Content}
    (h : Token.Lexeme lexeme.toList x) (name : String) : ∃ t last,
      scan ⟨name, lexeme⟩ = .ok [t, last] ∧ t.content = x ∧ t.span.lexeme = lexeme ∧
      last.content = .eof := by
  obtain ⟨s, ran, ends⟩ := h.reaches_end ⟨name, lexeme⟩ (s := .initial) rfl
  obtain ⟨last, t, ts, scanned, eof, contents, own, start, stop⟩ := ends.scan_eq ran
  obtain ⟨spells, none⟩ := List.cons.inj contents
  obtain rfl : ts = [] := List.map_eq_nil_iff.1 none
  refine ⟨t, last, scanned, spells, ?_, eof⟩
  have place := ((Scanner.Tiled.initial ⟨name, lexeme⟩).run ran).position
  rw [place, Position.offset_behind, List.nil_append] at stop
  unfold Span.lexeme
  rw [own, start, stop]
  simp [Scanner.initial, Position.origin]

/-- The lexemes of a text, with blanks between them, scan as its tokens again; and each of them
alone scans as the token it was. -/
theorem lexemes_scan_again {source : Source} {ts : List Token} (scanned : scan source = .ok ts)
    (name : String) :
    (∃ us, scan ⟨name, " ".intercalate ((ts.filter (·.kind ≠ .eof)).map (·.span.lexeme))⟩ =
        .ok us ∧ us.map Token.content = ts.map Token.content) ∧
    ∀ t ∈ ts, t.kind ≠ .eof → ∃ u last, scan ⟨name, t.span.lexeme⟩ = .ok [u, last] ∧
      u.content = t.content ∧ u.span.lexeme = t.span.lexeme ∧ last.content = .eof := by
  refine ⟨?_, fun t mem other => (lexeme_of_scan scanned mem other).scan_alone name⟩
  obtain ⟨front, last, rfl, ended, inner⟩ := (ended_of_scan scanned).ending
  have eof : last.content = .eof := by
    obtain ⟨content, span⟩ := last
    cases content <;> first | rfl | cases ended
  have all : (front ++ [last]).filter (·.kind ≠ .eof) = front := by
    rw [List.filter_append, List.filter_eq_self.2 (by simpa using inner)]
    simp [ended]
  rw [all, List.map_append, List.map_singleton, eof]
  cases front with
  | nil => exact ⟨_, rfl, rfl⟩
  | cons t us =>
    have lexemes : ∀ u ∈ t :: us, Token.Lexeme u.span.lexeme.toList u.content := fun u mem =>
      lexeme_of_scan scanned (List.mem_append_left _ mem) (inner u mem)
    obtain ⟨s, start, ran, ends⟩ := Token.run_spaced
      ⟨name, " ".intercalate ((t :: us).map (·.span.lexeme))⟩ lexemes (s := .initial) rfl
    obtain ⟨last', v, vs, again, eof', contents, -⟩ := ends.scan_eq ran
    refine ⟨_, again, ?_⟩
    rw [List.map_append, List.map_reverse, contents]
    simp [Scanner.initial, eof']

/-- A number that ends with its dot, a name that begins like a keyword, a minus sign right before an
arrow, and a string literal over two lines with a quote in it. -/
theorem lexemes_scan_again_unspaced : ∃ ts us,
    scan ⟨"close", "1.IFx-->\"a\\\"\nb\""⟩ = .ok ts ∧ ts.length = 6 ∧
    " ".intercalate ((ts.filter (·.kind ≠ .eof)).map (·.span.lexeme)) =
      "1. IFx - -> \"a\\\"\nb\"" ∧
    scan ⟨"wide", "1. IFx - -> \"a\\\"\nb\""⟩ = .ok us ∧
    us.map Token.content = ts.map Token.content := by
  have checked : (scan ⟨"close", "1.IFx-->\"a\\\"\nb\""⟩).toOption.any (fun ts =>
      ts.length = 6 && " ".intercalate ((ts.filter (·.kind ≠ .eof)).map (·.span.lexeme)) =
        "1. IFx - -> \"a\\\"\nb\"") = true := by decide +kernel
  cases scanned : scan ⟨"close", "1.IFx-->\"a\\\"\nb\""⟩ with
  | error e =>
    rw [scanned] at checked
    cases checked
  | ok ts =>
    rw [scanned] at checked
    have facts : ts.length = 6 ∧ " ".intercalate ((ts.filter (·.kind ≠ .eof)).map
        (·.span.lexeme)) = "1. IFx - -> \"a\\\"\nb\"" := by
      simpa [Except.toOption] using checked
    obtain ⟨⟨us, again, same⟩, -⟩ := lexemes_scan_again scanned "wide"
    rw [facts.2] at again
    exact ⟨ts, us, rfl, facts.1, facts.2, again, same⟩

end ScriptLang
