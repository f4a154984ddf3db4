import ScriptLang.Proofs.Token.Tiling

/-! Excerpts of tokens. The excerpt of a token on one line is that line as it is shown, and under it
carets. What is shown has no tabs, but the carets are put by the columns of the source, where tabs
count: they stand below the token as long as no tab comes before it or in it, and behind it by the
number of tabs before it otherwise. -/
namespace ScriptLang

section Lines

variable {c : Char} {cs above here : List Char}

theorem splitLines_newline (cs : List Char) : splitLines ('\n' :: cs) = [] :: splitLines cs := rfl

theorem splitLines_cons (cs : List Char) (other : c ≠ '\n') : ∃ line rest,
    splitLines cs = line :: rest ∧ splitLines (c :: cs) = (c :: line) :: rest := by
  have some : splitLines cs ≠ [] := by
    cases cs with
    | nil => exact nofun
    | cons d ds =>
      unfold splitLines
      rw [List.foldr_cons]
      split
      · exact nofun
      · split <;> exact nofun
  obtain ⟨line, rest, split⟩ := List.exists_cons_of_ne_nil some
  refine ⟨line, rest, split, ?_⟩
  unfold splitLines at split ⊢
  rw [List.foldr_cons, if_neg other, split]

theorem getD_splitLines_zero (cs : List Char) :
    (splitLines cs).getD 0 [] = cs.takeWhile (· ≠ '\n') := by
  induction cs with
  | nil => rfl
  | cons c cs ih =>
    by_cases newline : c = '\n'
    · subst newline
      rfl
    · obtain ⟨line, rest, split, split'⟩ := splitLines_cons cs newline
      rw [split] at ih
      rw [split', List.takeWhile_cons_of_pos (by simpa using newline), ← ih]
      rfl

theorem getD_splitLines_append (ends : above = [] ∨ above.getLast? = some '\n') :
    (splitLines (above ++ cs)).getD (above.count '\n') [] = cs.takeWhile (· ≠ '\n') := by
  induction above with
  | nil => exact getD_splitLines_zero cs
  | cons c above ih =>
    by_cases newline : c = '\n'
    · subst newline
      have ends' : above = [] ∨ above.getLast? = some '\n' := by
        cases above with
        | nil => exact .inl rfl
        | cons d ds => exact .inr (by simpa using ends)
      rw [List.cons_append, splitLines_newline, List.count_cons_self, List.getD_cons_succ]
      exact ih ends'
    · have last : above.getLast? = some '\n' := by
        cases above with
        | nil => simp [newline] at ends
        | cons d ds => simpa using ends
      obtain ⟨k, count⟩ : ∃ k, above.count '\n' = k + 1 :=
        Nat.exists_eq_add_one.2 (List.count_pos_iff.2 (List.mem_of_getLast? last))
      obtain ⟨line, rest, split, split'⟩ := splitLines_cons (above ++ cs) newline
      have rest_ := ih (.inr last)
      rw [split, count, List.getD_cons_succ] at rest_
      rw [List.cons_append, split', List.count_cons_of_ne newline, count, List.getD_cons_succ,
        rest_]

theorem Source.line_behind {source : Source} {before after : List Char}
    (text : source.text.toList = before ++ after) : ∃ here : List Char,
      (source.line (Position.behind before).line).toList = here ++ after.takeWhile (· ≠ '\n') ∧
      '\n' ∉ here ∧ here.length = (Position.behind before).column := by
  obtain ⟨above, here, rfl, inner, ends, column⟩ := Position.column_behind before
  refine ⟨here, ?_, inner, by simpa using column.symm⟩
  have whole : ∀ c ∈ here, decide (c ≠ '\n') = true := by
    intro c mem
    refine decide_eq_true ?_
    rintro rfl
    exact inner mem
  unfold Source.line
  rw [String.toList_ofList, text, List.append_assoc, Position.line_behind, List.count_append,
    List.count_eq_zero.2 inner, Nat.add_zero, getD_splitLines_append ends,
    List.takeWhile_append_of_pos whole]

theorem Position.advanceAll_inline (p : Position) (inline : '\n' ∉ cs) :
    p.advanceAll cs = ⟨p.offset + cs.length, p.line, p.column + cs.length⟩ := by
  induction cs generalizing p with
  | nil => rfl
  | cons c cs ih =>
    rw [List.mem_cons, not_or] at inline
    have next : p.advance c = p.next := if_neg (Ne.symm inline.1)
    rw [advanceAll_cons, next, ih p.next inline.2]
    simp only [Position.next, List.length_cons, Position.mk.injEq, true_and]
    omega

end Lines

def withoutTabs (cs : List Char) : List Char := cs.filter (· ≠ '\t')

def underline (left width : Nat) : List Char := List.replicate left ' ' ++ List.replicate width '^'

def marked (shown under : List Char) : List Char :=
  ((shown.zip under).filter (·.2 = '^')).map Prod.fst

theorem marked_underline (shown : List Char) (left width : Nat) :
    marked shown (underline left width) = (shown.drop left).take width := by
  induction left generalizing shown with
  | zero =>
    rw [List.drop_zero]
    induction width generalizing shown with
    | zero => simp [marked, underline]
    | succ width ih =>
      cases shown with
      | nil => rfl
      | cons c shown => simpa [marked, underline, List.replicate_succ] using ih shown
  | succ left ih =>
    cases shown with
    | nil => simp [marked]
    | cons c shown => simpa [marked, underline, List.replicate_succ] using ih shown

theorem length_withoutTabs (cs : List Char) :
    cs.length = cs.count '\t' + (withoutTabs cs).length := by
  unfold withoutTabs
  rw [← List.countP_eq_length_filter, List.count, List.length_eq_countP_add_countP (· == '\t')]
  congr 2
  funext c
  by_cases tab : c = '\t' <;> simp [tab]

theorem withoutTabs_eq_self {cs : List Char} (h : '\t' ∉ cs) : withoutTabs cs = cs := by
  refine List.filter_eq_self.2 fun c mem => decide_eq_true ?_
  rintro rfl
  exact h mem

theorem underline_length (here lexeme : List Char) :
    underline here.length lexeme.length = List.replicate (here.count '\t') ' ' ++
      underline (withoutTabs here).length (withoutTabs lexeme).length ++
      List.replicate (lexeme.count '\t') '^' := by
  rw [length_withoutTabs here, length_withoutTabs lexeme, Nat.add_comm (lexeme.count '\t')]
  simp only [underline, ← List.replicate_append_replicate, List.append_assoc]

theorem marked_withoutTabs (here lexeme after : List Char) :
    marked (withoutTabs (here ++ lexeme ++ after))
      (underline (withoutTabs here).length (withoutTabs lexeme).length) = withoutTabs lexeme := by
  rw [marked_underline]
  simp [withoutTabs]

/-- The excerpt is a line as it is shown and a line of carets, below the lexeme as it is shown. -/
def Span.MarksLexeme (s : Span) : Prop :=
  ∃ under, s.excerpt.toList =
      withoutTabs (s.source.line s.start.line).toList ++ '\n' :: under ∧
    '\n' ∉ withoutTabs (s.source.line s.start.line).toList ∧ '\n' ∉ under ∧
    marked (withoutTabs (s.source.line s.start.line).toList) under = withoutTabs s.lexeme.toList

theorem Span.excerpt_of_line {s : Span} (h : s.stop.line = s.start.line) :
    s.excerpt.toList = withoutTabs (s.source.line s.start.line).toList ++
      '\n' :: underline s.start.column (max (s.stop.column - s.start.column) 1) := by
  have last : s.lastLine = s.start.line := by rw [lastLine, h, Nat.max_self]
  unfold excerpt
  rw [last, Nat.add_sub_cancel_left]
  simp [underlined, last, withoutTabs, underline]

theorem Token.Placed.line_eq {source : Source} {before lexeme rest : List Char} {t : Token}
    (h : t.Placed source before lexeme) (text : source.text.toList = before ++ lexeme ++ rest)
    (breaks : t.kind ≠ .newline) (inline : '\n' ∉ lexeme) : ∃ here after : List Char,
      (source.line t.span.start.line).toList = here ++ lexeme ++ after ∧
      '\n' ∉ here ++ lexeme ++ after ∧ t.span.start.column = here.length ∧
      t.span.stop.line = t.span.start.line ∧
      t.span.stop.column = here.length + lexeme.length := by
  have whole : ∀ c ∈ lexeme, decide (c ≠ '\n') = true := by
    intro c mem
    refine decide_eq_true ?_
    rintro rfl
    exact inline mem
  obtain ⟨here, line, inner, column⟩ := Source.line_behind ((List.append_assoc ..).symm ▸ text)
  rw [List.takeWhile_append_of_pos whole, ← List.append_assoc] at line
  have stop : t.span.stop = (Position.behind before).advanceAll lexeme := by
    rw [h.stop.resolve_left fun newline => breaks newline.1, Position.behind, Position.behind,
      Position.advanceAll_append]
  rw [Position.advanceAll_inline _ inline] at stop
  have further : '\n' ∉ rest.takeWhile (· ≠ '\n') := fun mem =>
    absurd (List.all_eq_true.1 List.all_takeWhile '\n' mem) (by decide)
  refine ⟨here, rest.takeWhile (· ≠ '\n'), h.start ▸ line, ?_, ?_, ?_, ?_⟩
  · simp only [List.mem_append, inner, inline, further, or_self, not_false_eq_true]
  · rw [h.start, column]
  · rw [stop, h.start]
  · rw [stop, column]

/-- The excerpt of a token on one line underlines as many columns as the token has, from its column
on. No tab may come before the token or in it for these to be those of the token as it is shown;
otherwise they are moved to the right by the tabs before it, and too many by those in it. -/
theorem carets_by_source_columns {source : Source} {ts : List Token}
    (scanned : scan source = .ok ts) {t : Token} (mem : t ∈ ts) (breaks : t.kind ≠ .newline)
    (ends : t.kind ≠ .eof) (inline : '\n' ∉ t.span.lexeme.toList) : ∃ here after : List Char,
      (source.line t.span.start.line).toList = here ++ t.span.lexeme.toList ++ after ∧
      here.length = t.span.start.column ∧
      t.span.excerpt.toList = withoutTabs (here ++ t.span.lexeme.toList ++ after) ++
        '\n' :: underline here.length t.span.lexeme.toList.length ∧
      ('\t' ∉ here → '\t' ∉ t.span.lexeme.toList → t.span.MarksLexeme) ∧
      underline here.length t.span.lexeme.toList.length =
        List.replicate (here.count '\t') ' ' ++
          underline (withoutTabs here).length (withoutTabs t.span.lexeme.toList).length ++
          List.replicate (t.span.lexeme.toList.count '\t') '^' ∧
      marked (withoutTabs (here ++ t.span.lexeme.toList ++ after))
        (underline (withoutTabs here).length (withoutTabs t.span.lexeme.toList).length) =
          withoutTabs t.span.lexeme.toList := by
  obtain ⟨front, gap, tokens, last, text, laid, -, rfl, eof, -⟩ := laid_of_scan scanned
  have found : t ∈ tokens := by
    rcases List.mem_append.1 mem with mem | mem
    · exact List.mem_reverse.1 mem
    · obtain rfl := List.mem_singleton.1 mem
      exact absurd (congrArg Token.Content.kind eof) ends
  obtain ⟨before, lexeme, rest, rfl, placed⟩ := laid.forall_placed t found
  rw [List.append_assoc] at text
  have covered : t.span.lexeme.toList = lexeme := by
    rw [placed.lexeme_eq text, String.toList_ofList]
  rw [covered] at inline ⊢
  obtain ⟨here, after, line, whole, left, same, right⟩ := placed.line_eq text breaks inline
  have width : max (t.span.stop.column - t.span.start.column) 1 = lexeme.length := by
    have := List.length_pos_iff.2 placed.some
    omega
  have excerpt := Span.excerpt_of_line same
  rw [width, left, placed.source, line] at excerpt
  refine ⟨here, after, line, left.symm, excerpt, fun noneBefore noneIn => ?_,
    underline_length here lexeme, marked_withoutTabs here lexeme after⟩
  have marks := marked_withoutTabs here lexeme after
  rw [withoutTabs_eq_self noneBefore, withoutTabs_eq_self noneIn] at marks
  refine ⟨underline here.length lexeme.length, ?_⟩
  rw [placed.source, line, covered, withoutTabs_eq_self noneIn]
  refine ⟨excerpt, fun mem => whole (List.mem_filter.1 mem).1, ?_, marks⟩
  simp [underline]

/-- A string literal on the second of two lines without tabs. -/
theorem carets_by_source_columns_string : ∃ ts t, scan ⟨"<stdin>", "1\n  \"é\" + 2"⟩ = .ok ts ∧
    t ∈ ts ∧ t.span.lexeme = "\"é\"" ∧ t.span.excerpt = "  \"é\" + 2\n  ^^^" ∧
    t.span.MarksLexeme := by
  let source : Source := ⟨"<stdin>", "1\n  \"é\" + 2"⟩
  let t : Token := ⟨.string "é", source, ⟨4, 1, 2⟩, ⟨7, 1, 5⟩⟩
  obtain ⟨ts, scanned, found⟩ :
      ∃ ts, scan ⟨"<stdin>", "1\n  \"é\" + 2"⟩ = .ok ts ∧ ts[2]? = some t := ⟨_, rfl, rfl⟩
  have mem := List.mem_of_getElem? found
  obtain ⟨here, after, line, -, -, marks, -⟩ :=
    carets_by_source_columns scanned mem nofun nofun (by decide +kernel)
  have tabless : '\t' ∉ (source.line 1).toList := by decide +kernel
  change (source.line 1).toList = _ at line
  rw [line] at tabless
  simp only [List.mem_append, not_or] at tabless
  exact ⟨ts, t, scanned, mem, by decide +kernel, by decide +kernel,
    marks tabless.1.1 tabless.1.2⟩

/-- Behind a tab a token is not the one that is underlined: here nothing is, beyond the end. -/
theorem carets_beside_lexeme : ∃ ts t, scan ⟨"<stdin>", "\tVAR 1"⟩ = .ok ts ∧ t ∈ ts ∧
    t.kind ≠ .newline ∧ t.kind ≠ .eof ∧ '\n' ∉ t.span.lexeme.toList ∧ t.span.lexeme = "1" ∧
    t.span.excerpt = "VAR 1\n     ^" ∧ ¬ t.span.MarksLexeme := by
  let source : Source := ⟨"<stdin>", "\tVAR 1"⟩
  let t : Token := ⟨.int 1, source, ⟨5, 0, 5⟩, ⟨6, 0, 6⟩⟩
  have excerpt : t.span.excerpt = "VAR 1\n     ^" := by decide +kernel
  refine ⟨_, t, rfl, List.mem_of_getElem? (i := 1) rfl, nofun, nofun, by decide +kernel,
    by decide +kernel, excerpt, ?_⟩
  rintro ⟨under, eq, -, -, marks⟩
  have line : withoutTabs (source.line 0).toList = "VAR 1".toList := by decide +kernel
  have lexeme : t.span.lexeme = "1" := by decide +kernel
  change _ = withoutTabs (source.line 0).toList ++ _ at eq
  change marked (withoutTabs (source.line 0).toList) under = _ at marks
  rw [excerpt, line] at eq
  obtain rfl : under = "     ^".toList := by simpa using eq.symm
  rw [line, lexeme] at marks
  exact absurd marks (by decide +kernel)

end ScriptLang
