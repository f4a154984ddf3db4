import Mathlib.Data.List.Induction
import ScriptLang.Proofs.Token.Order

/-! The tokens of a text tile it. Each lexeme stands where its token says, in the line and column
that its token says, and between two lexemes there is nothing but blanks and comments. -/
namespace ScriptLang

/-- The line and column of a place are those of its offset in the text: the newlines before it are
counted, and so are the characters behind the last of them. -/
structure Position.In (text : List Char) (p : Position) : Prop where
  line : p.line = (text.take p.offset).count '\n'
  column : ∃ above here, text.take p.offset = above ++ here ∧ '\n' ∉ here ∧
    (above = [] ∨ above.getLast? = some '\n') ∧ p.column = p.offset - above.length

def Position.behind (cs : List Char) : Position := Position.origin.advanceAll cs

namespace Position

@[simp] theorem behind_nil : behind [] = origin := rfl

theorem behind_snoc (cs : List Char) (c : Char) : behind (cs ++ [c]) = (behind cs).advance c := by
  simp [behind, advanceAll_append]

@[simp] theorem offset_behind (cs : List Char) : (behind cs).offset = cs.length := by
  simp [behind, offset_advanceAll, origin]

theorem line_behind (cs : List Char) : (behind cs).line = cs.count '\n' := by
  induction cs using List.reverseRecOn with
  | nil => rfl
  | append_singleton cs c ih =>
    rw [behind_snoc]
    by_cases newline : c = '\n' <;> simp [advance, next, newline, ih]

theorem column_behind (cs : List Char) : ∃ above here, cs = above ++ here ∧ '\n' ∉ here ∧
    (above = [] ∨ above.getLast? = some '\n') ∧ (behind cs).column = cs.length - above.length := by
  induction cs using List.reverseRecOn with
  | nil => exact ⟨[], [], by simp [origin]⟩
  | append_singleton cs c ih =>
    rw [behind_snoc]
    by_cases newline : c = '\n'
    · exact ⟨cs ++ [c], [], by simp [advance, newline]⟩
    · obtain ⟨above, here, rfl, inner, ends, column⟩ := ih
      have other : '\n' ≠ c := fun eq => newline eq.symm
      refine ⟨above, here ++ [c], by simp, by simp [inner, other], ends, ?_⟩
      simp only [List.length_append, Nat.add_sub_cancel_left] at column
      simp [advance, next, newline, column]

theorem behind_in (cs rest : List Char) : (behind cs).In (cs ++ rest) where
  line := by simp [line_behind]
  column := by simpa using column_behind cs

end Position

/-- Blanks, and comments with the newlines that end them. -/
inductive Gap : List Char → Prop where
  | nil : Gap []
  | blank {cs : List Char} {c : Char} (h : Gap cs) (blank : c = ' ' ∨ c = '\t' ∨ c = '\r') :
    Gap (cs ++ [c])
  | comment {cs body : List Char} (h : Gap cs) (inner : '\n' ∉ body) :
    Gap (cs ++ '#' :: body ++ ['\n'])

/-- The gap before the end of a text, where the end may also be that of a comment. -/
inductive Gap.Last : List Char → Prop where
  | gap {cs : List Char} (h : Gap cs) : Last cs
  | comment {cs body : List Char} (h : Gap cs) (inner : '\n' ∉ body) : Last (cs ++ '#' :: body)

/-- The text from an offset on is a gap, the lexeme of the first token, and so on: gaps and lexemes
in turn, each token where it says, up to the gap before the end. -/
inductive Token.Tiling : Nat → List Token → List Char → Prop where
  | last {n : Nat} {gap : List Char} (h : Gap.Last gap) : Tiling n [] gap
  | token {n : Nat} {gap rest : List Char} {t : Token} {ts : List Token} (h : Gap gap)
    (start : t.span.start.offset = n + gap.length) (some : t.span.lexeme ≠ "")
    (more : Tiling t.span.stop.offset ts rest) :
    Tiling n (t :: ts) (gap ++ t.span.lexeme.toList ++ rest)

/-- The token stands in the source behind `before` and covers `lexeme`. Its end is where the lexeme
ends, but on the line of the token if that is a line end. -/
structure Token.Placed (source : Source) (before lexeme : List Char) (t : Token) : Prop where
  source : t.span.source = source
  other : t.kind ≠ .eof
  some : lexeme ≠ []
  start : t.span.start = .behind before
  offset : t.span.stop.offset = before.length + lexeme.length
  stop : (t.kind = .newline ∧ lexeme = ['\n']) ∨ t.span.stop = .behind (before ++ lexeme)

inductive Token.Laid (source : Source) : List Char → List Token → Prop where
  | nil : Laid source [] []
  | token {cs gap lexeme : List Char} {t : Token} {ts : List Token} (h : Laid source cs ts)
    (blank : Gap gap) (placed : t.Placed source (cs ++ gap) lexeme) :
    Laid source (cs ++ gap ++ lexeme) (t :: ts)

theorem Token.Placed.lexeme_eq {source : Source} {before lexeme rest : List Char} {t : Token}
    (h : t.Placed source before lexeme) (text : source.text.toList = before ++ lexeme ++ rest) :
    t.span.lexeme = String.ofList lexeme := by
  unfold Span.lexeme
  rw [h.source, h.offset, h.start, text]
  simp

theorem Token.Placed.stop_in {source : Source} {before lexeme rest : List Char} {t : Token}
    (h : t.Placed source before lexeme) (text : source.text.toList = before ++ lexeme ++ rest)
    (breaks : ¬ (t.kind = .newline ∧ t.span.lexeme = "\n")) :
    t.span.stop.In source.text.toList := by
  rcases h.stop with ⟨newline, rfl⟩ | stop
  · exact absurd ⟨newline, h.lexeme_eq text⟩ breaks
  · rw [stop, text]
    exact Position.behind_in _ _

namespace Token.Laid

variable {source : Source} {cs rest : List Char} {ts us : List Token}

theorem tiling (h : Laid source cs ts) (more : Tiling cs.length us rest)
    (text : source.text.toList = cs ++ rest) : Tiling 0 (ts.reverse ++ us) (cs ++ rest) := by
  induction h generalizing us rest with
  | nil => simpa using more
  | @token cs gap lexeme t ts _ blank placed ih =>
    have lexeme_ : t.span.lexeme.toList = lexeme := by
      rw [placed.lexeme_eq text, String.toList_ofList]
    have some : t.span.lexeme ≠ "" := by
      rw [placed.lexeme_eq text]
      simpa using placed.some
    have start : t.span.start.offset = cs.length + gap.length := by
      rw [placed.start, Position.offset_behind, List.length_append]
    have stop : t.span.stop.offset = (cs ++ gap ++ lexeme).length := by
      simp [placed.offset]
      omega
    have tile : Tiling cs.length (t :: us) (gap ++ t.span.lexeme.toList ++ rest) :=
      .token blank start some (stop ▸ more)
    rw [lexeme_] at tile
    have joined := ih tile (by simp [text])
    simpa using joined

theorem forall_placed (h : Laid source cs ts) : ∀ t ∈ ts, ∃ before lexeme after,
    cs = before ++ lexeme ++ after ∧ t.Placed source before lexeme := by
  induction h with
  | nil => simp
  | @token cs gap lexeme t ts _ _ placed ih =>
    intro u mem
    rcases List.mem_cons.1 mem with rfl | mem
    · exact ⟨_, _, [], by simp, placed⟩
    · obtain ⟨before, lexeme', after, rfl, placed'⟩ := ih u mem
      exact ⟨before, lexeme', after ++ gap ++ lexeme, by simp, placed'⟩

theorem apart (h : Laid source cs ts) :
    ts.Pairwise (fun a b => b.span.stop.offset ≤ a.span.start.offset) ∧
      ∀ t ∈ ts, t.span.stop.offset ≤ cs.length := by
  induction h with
  | nil => simp
  | @token cs gap lexeme t ts _ _ placed ih =>
    have start : t.span.start.offset = cs.length + gap.length := by
      rw [placed.start, Position.offset_behind, List.length_append]
    have stop := placed.offset
    simp only [List.length_append] at stop ⊢
    refine ⟨.cons (fun u mem => ?_) ih.1, fun u mem => ?_⟩
    · have := ih.2 u mem
      omega
    · rcases List.mem_cons.1 mem with rfl | mem
      · omega
      · have := ih.2 u mem
        omega

end Token.Laid

namespace Scanner

/-- The characters of what the scanner is in the middle of, which began behind `before`. -/
def Mode.Holds (before pending : List Char) : Mode → Prop
  | .idle => pending = []
  | .comment => ∃ body, pending = '#' :: body ∧ '\n' ∉ body
  | .string start _ _ | .number start _ _ | .word start _ | .lead start _ =>
    pending ≠ [] ∧ start = .behind before

/-- All that has been read is laid out in tokens, a gap and what is pending. -/
structure Tiled (source : Source) (cs : List Char) (s : Scanner) : Prop where
  position : s.position = .behind cs
  parts : ∃ done gap pending, cs = done ++ gap ++ pending ∧ Token.Laid source done s.tokens ∧
    Gap gap ∧ s.mode.Holds (done ++ gap) pending

namespace Tiled

variable {source : Source} {cs : List Char} {s s' : Scanner} {c : Char}

theorem initial (source : Source) : Scanner.initial.Tiled source [] :=
  ⟨rfl, [], [], [], rfl, .nil, .nil, rfl⟩

theorem position_advance (h : s.Tiled source cs) (c : Char) :
    s.position.advance c = .behind (cs ++ [c]) := by
  rw [h.position, Position.behind_snoc]

theorem idle_parts (h : s.Tiled source cs) (idle : s.mode = .idle) :
    ∃ done gap, cs = done ++ gap ∧ Token.Laid source done s.tokens ∧ Gap gap := by
  obtain ⟨done, gap, pending, eq, laid, blank, holds⟩ := h.parts
  rw [idle] at holds
  obtain rfl : pending = [] := holds
  exact ⟨done, gap, by simpa using eq, laid, blank⟩

theorem begin (h : s.Tiled source cs) (idle : s.mode = .idle) (c : Char) {mode : Mode}
    (holds : ∀ before, s.position = .behind before → mode.Holds before [c]) :
    (s.enter c mode).Tiled source (cs ++ [c]) := by
  obtain ⟨done, gap, rfl, laid, blank⟩ := h.idle_parts idle
  exact ⟨h.position_advance c, done, gap, [c], rfl, laid, blank, holds _ h.position⟩

theorem extend (h : s.Tiled source cs) (c : Char) {mode : Mode}
    (holds : ∀ before pending, s.mode.Holds before pending → mode.Holds before (pending ++ [c])) :
    (s.enter c mode).Tiled source (cs ++ [c]) := by
  obtain ⟨done, gap, pending, rfl, laid, blank, held⟩ := h.parts
  exact ⟨h.position_advance c, done, gap, pending ++ [c], by simp, laid, blank,
    holds _ _ held⟩

theorem emit (h : s.Tiled source cs) {content : Token.Content} {start : Position}
    (other : content.kind ≠ .eof)
    (holds : ∀ before pending, s.mode.Holds before pending →
      pending ≠ [] ∧ start = .behind before) :
    (s.emit source content start s.position).Tiled source cs := by
  obtain ⟨done, gap, pending, rfl, laid, blank, held⟩ := h.parts
  obtain ⟨some, rfl⟩ := holds _ _ held
  have placed : Token.Placed source (done ++ gap) pending
      ⟨content, source, .behind (done ++ gap), s.position⟩ :=
    ⟨rfl, other, some, rfl, by simp [h.position, Nat.add_assoc], .inr h.position⟩
  exact ⟨h.position, _, [], [], by simp, laid.token blank placed, .nil, rfl⟩

theorem close (h : s.Tiled source cs) (other : s.mode ≠ .comment)
    (closed : s.close source = .ok s') : s'.Tiled source cs ∧ s'.mode = .idle := by
  unfold Scanner.close at closed
  cases mode : s.mode with
  | idle => rw [mode] at closed; cases closed; exact ⟨⟨h.position, mode ▸ h.parts⟩, rfl⟩
  | comment => exact absurd mode other
  | string => rw [mode] at closed; cases closed
  | number start read dotted =>
    rw [mode] at closed
    cases closed
    exact ⟨h.emit (kind_ofDigits _) (by simp [mode, Mode.Holds]), rfl⟩
  | word start read =>
    rw [mode] at closed
    cases closed
    exact ⟨h.emit (kind_ofWord _) (by simp [mode, Mode.Holds]), rfl⟩
  | lead start first =>
    simp only [mode] at closed
    split at closed <;> cases closed
    exact ⟨h.emit (by simp [Token.Content.kind]) (by simp [mode, Mode.Holds]), rfl⟩

theorem single (h : s.Tiled source cs) (idle : s.mode = .idle) {content : Token.Content}
    (found : Token.Content.ofChar? c = some content) :
    ((s.emit source content s.position s.position.next).enter c .idle).Tiled source
      (cs ++ [c]) := by
  obtain ⟨done, gap, rfl, laid, blank⟩ := h.idle_parts idle
  have stop : (content.kind = .newline ∧ [c] = ['\n']) ∨
      s.position.next = .behind (done ++ gap ++ [c]) := by
    rw [Position.behind_snoc, ← h.position]
    by_cases newline : c = '\n'
    · subst newline
      cases found
      exact .inl ⟨rfl, rfl⟩
    · exact .inr (by simp [Position.advance, newline])
  have placed : Token.Placed source (done ++ gap) [c]
      ⟨content, source, s.position, s.position.next⟩ :=
    ⟨rfl, kind_ofChar found, by simp, h.position, by simp [Position.next, h.position], stop⟩
  exact ⟨h.position_advance c, _, [], [], by simp, laid.token blank placed, .nil, rfl⟩

theorem blank (h : s.Tiled source cs) (idle : s.mode = .idle)
    (is : c = ' ' ∨ c = '\t' ∨ c = '\r') : (s.enter c .idle).Tiled source (cs ++ [c]) := by
  obtain ⟨done, gap, rfl, laid, blank⟩ := h.idle_parts idle
  exact ⟨h.position_advance c, done, gap ++ [c], [], by simp, laid, blank.blank is, rfl⟩

theorem start (h : s.Tiled source cs) (idle : s.mode = .idle)
    (started : s.start source c = .ok s') : s'.Tiled source (cs ++ [c]) := by
  unfold Scanner.start at started
  split at started
  · next found =>
    cases started
    exact h.single idle found
  · cases started
    exact h.begin idle c (by simp [Mode.Holds])
  · split_ifs at started with is
    · cases started
      exact h.blank idle is
    · next hash =>
      cases started
      exact h.begin idle c (by simp [Mode.Holds, hash])
    all_goals
      cases started
      exact h.begin idle c (by simp [Mode.Holds])

theorem restart (h : s.Tiled source cs) (other : s.mode ≠ .comment)
    (restarted : (do (← s.close source).start source c) = .ok s') :
    s'.Tiled source (cs ++ [c]) := by
  cases closed : s.close source with
  | error e => rw [closed] at restarted; cases restarted
  | ok s₁ =>
    rw [closed] at restarted
    have ⟨tiled, idle⟩ := h.close other closed
    exact tiled.start idle restarted

theorem finish (h : s.Tiled source cs) (c : Char) {content : Token.Content} {start : Position}
    (other : content.kind ≠ .eof)
    (holds : ∀ before pending, s.mode.Holds before pending → start = .behind before) :
    ((s.enter c .idle).emit source content start (s.enter c .idle).position).Tiled source
      (cs ++ [c]) := by
  -- in the mode of a word the character is pending first and ends the token then
  have longer : (s.enter c (.word start [])).Tiled source (cs ++ [c]) :=
    h.extend c fun before pending held => ⟨by simp, holds before pending held⟩
  exact longer.emit other fun _ _ held => held

theorem step (h : s.Tiled source cs) (stepped : s.step source c = .ok s') :
    s'.Tiled source (cs ++ [c]) := by
  unfold Scanner.step at stepped
  cases mode : s.mode with
  | idle =>
    simp only [mode] at stepped
    exact h.start mode stepped
  | comment =>
    simp only [mode] at stepped
    cases stepped
    split
    · next newline =>
      subst newline
      obtain ⟨done, gap, pending, rfl, laid, blank, held⟩ := h.parts
      rw [mode] at held
      obtain ⟨body, rfl, inner⟩ := held
      exact ⟨h.position_advance '\n', done, _, [], by simp, laid, blank.comment inner, rfl⟩
    · next other =>
      have inner : '\n' ≠ c := fun eq => other eq.symm
      apply h.extend
      rw [mode]
      rintro before _ ⟨body, rfl, free⟩
      exact ⟨body ++ [c], by simp, by simp [free, inner]⟩
  | string start read escaped =>
    have goesOn (m : Mode) (holds : ∀ before pending, pending ≠ [] → start = .behind before →
        m.Holds before (pending ++ [c])) : (s.enter c m).Tiled source (cs ++ [c]) := by
      apply h.extend
      rw [mode]
      rintro before pending ⟨some, start_⟩
      exact holds before pending some start_
    simp only [mode] at stepped
    cases escaped with
    | true => cases stepped; exact goesOn _ (by simp [Mode.Holds])
    | false =>
      dsimp only at stepped
      split_ifs at stepped <;> cases stepped
      · exact h.finish c (by simp [Token.Content.kind]) (by simp [mode, Mode.Holds])
      · exact goesOn _ (by simp [Mode.Holds])
      · exact goesOn _ (by simp [Mode.Holds])
  | number start read dotted =>
    simp only [mode] at stepped
    split_ifs at stepped
    · cases stepped; exact h.extend c (by simp [mode, Mode.Holds])
    · cases stepped; exact h.extend c (by simp [mode, Mode.Holds])
    · exact h.restart (by simp [mode]) stepped
  | word start read =>
    simp only [mode] at stepped
    split_ifs at stepped
    · cases stepped; exact h.extend c (by simp [mode, Mode.Holds])
    · exact h.restart (by simp [mode]) stepped
  | lead start first =>
    simp only [mode] at stepped
    split_ifs at stepped
    · cases stepped
      exact h.finish c (by simp [Token.Content.kind]) (by simp [mode, Mode.Holds])
    · exact h.restart (by simp [mode]) stepped

theorem run (h : s.Tiled source cs) {ds : List Char} (ran : s.run source ds = .ok s') :
    s'.Tiled source (cs ++ ds) := by
  induction ds generalizing s cs with
  | nil => cases ran; simpa using h
  | cons c ds ih =>
    unfold Scanner.run at ran
    rw [List.foldlM_cons] at ran
    cases stepped : s.step source c with
    | error e => rw [stepped] at ran; cases ran
    | ok s₁ =>
      rw [stepped] at ran
      simpa using ih (h.step stepped) ran

end Tiled

end Scanner

theorem laid_of_scan {source : Source} {ts : List Token} (h : scan source = .ok ts) :
    ∃ front gap tokens last, source.text.toList = front ++ gap ∧
      Token.Laid source front tokens ∧ Gap.Last gap ∧ ts = tokens.reverse ++ [last] ∧
      last.content = .eof ∧ last.span = ⟨source, .behind source.text.toList,
        (Position.behind source.text.toList).next⟩ := by
  obtain ⟨s, last, ran, closed, rfl⟩ := closed_of_scan h
  have tiled := (Scanner.Tiled.initial source).run ran
  rw [List.nil_append] at tiled
  by_cases comment : s.mode = .comment
  · obtain ⟨done, gap, pending, eq, laid, blank, held⟩ := tiled.parts
    have position := tiled.position
    rw [comment] at held
    obtain ⟨body, rfl, inner⟩ := held
    unfold Scanner.close at closed
    rw [comment] at closed
    cases closed
    exact ⟨done, gap ++ '#' :: body, _, _, by simpa using eq, laid, .comment blank inner, rfl, rfl,
      by rw [← position]⟩
  · obtain ⟨tiled', idle⟩ := tiled.close comment closed
    obtain ⟨done, gap, eq, laid, blank⟩ := tiled'.idle_parts idle
    exact ⟨done, gap, _, _, eq, laid, .gap blank, rfl, rfl, by rw [← tiled'.position]⟩

/-- Tokens stand apart from each other, cover something, and are of the source. -/
structure Token.Apart (source : Source) (ts : List Token) : Prop where
  order : ts.Pairwise fun a b => a.span.stop.offset ≤ b.span.start.offset
  nonempty : ∀ t ∈ ts, t.span.start.offset < t.span.stop.offset
  source : ∀ t ∈ ts, t.span.source = source

theorem apart_of_scan {source : Source} {ts : List Token} (h : scan source = .ok ts) :
    Token.Apart source ts := by
  obtain ⟨front, gap, tokens, last, text, laid, -, rfl, -, span⟩ := laid_of_scan h
  obtain ⟨order, bounded⟩ := laid.apart
  refine ⟨?_, ?_, ?_⟩
  · rw [List.pairwise_append]
    refine ⟨List.pairwise_reverse.2 order, List.pairwise_singleton _ _, ?_⟩
    intro a ha b hb
    obtain rfl := List.mem_singleton.1 hb
    have := bounded a (List.mem_reverse.1 ha)
    simp [span, text]
    omega
  · intro t mem
    rcases List.mem_append.1 mem with mem | mem
    · obtain ⟨before, lexeme, _, _, placed⟩ := laid.forall_placed t (List.mem_reverse.1 mem)
      have := List.length_pos_iff.2 placed.some
      rw [placed.start, placed.offset, Position.offset_behind]
      omega
    · obtain rfl := List.mem_singleton.1 mem
      simp [span, Position.next]
  · intro t mem
    rcases List.mem_append.1 mem with mem | mem
    · obtain ⟨_, _, _, _, placed⟩ := laid.forall_placed t (List.mem_reverse.1 mem)
      exact placed.source
    · obtain rfl := List.mem_singleton.1 mem
      rw [span]

/-- A text is its lexemes in order with gaps between them, its end is marked at its length, and the
places of tokens are where lines and columns say. Only the end mark and a line end stop elsewhere:
on the line on which they start. -/
theorem tokens_tile {source : Source} {ts : List Token} (scanned : scan source = .ok ts) :
    (∃ front last, ts = front ++ [last] ∧ Token.Tiling 0 front source.text.toList ∧
      last.kind = .eof ∧ last.span.start.offset = source.text.length ∧
      ∀ t ∈ front, t.kind ≠ .eof) ∧
    (∀ t ∈ ts, t.span.source = source ∧ t.span.start.In source.text.toList) ∧
    ∀ t ∈ ts, t.kind ≠ .eof → ¬ (t.kind = .newline ∧ t.span.lexeme = "\n") →
      t.span.stop.In source.text.toList := by
  obtain ⟨front, gap, tokens, last, text, laid, ends, rfl, eof, span⟩ := laid_of_scan scanned
  have kind : last.kind = .eof := congrArg Token.Content.kind eof
  have placed : ∀ t ∈ tokens.reverse, ∃ before lexeme after,
      source.text.toList = before ++ lexeme ++ after ∧ t.Placed source before lexeme := by
    intro t mem
    obtain ⟨before, lexeme, after, rfl, placed⟩ := laid.forall_placed t (List.mem_reverse.1 mem)
    exact ⟨before, lexeme, after ++ gap, by simp [text], placed⟩
  refine ⟨⟨tokens.reverse, last, rfl, ?_, kind, ?_, ?_⟩, ?_, ?_⟩
  · have tiling := laid.tiling (.last ends) text
    rwa [List.append_nil, ← text] at tiling
  · rw [span, Position.offset_behind, String.length_toList]
  · intro t mem
    obtain ⟨_, _, _, _, at_⟩ := placed t mem
    exact at_.other
  · intro t mem
    rcases List.mem_append.1 mem with mem | mem
    · obtain ⟨before, lexeme, after, eq, at_⟩ := placed t mem
      refine ⟨at_.source, ?_⟩
      rw [at_.start, eq, List.append_assoc]
      exact Position.behind_in _ _
    · obtain rfl := List.mem_singleton.1 mem
      refine ⟨by rw [span], ?_⟩
      rw [span]
      simpa using Position.behind_in source.text.toList []
  · intro t mem other breaks
    rcases List.mem_append.1 mem with mem | mem
    · obtain ⟨before, lexeme, after, eq, at_⟩ := placed t mem
      exact at_.stop_in eq breaks
    · obtain rfl := List.mem_singleton.1 mem
      exact absurd kind other

/-- A string over two lines, a comment that takes a line end with it, and a tab. -/
theorem tokens_tile_lines : ∃ ts, scan ⟨"lines", "\"a\nb\" # c\n\tx"⟩ = .ok ts ∧ ts.length = 3 ∧
    (∃ front last, ts = front ++ [last] ∧ Token.Tiling 0 front "\"a\nb\" # c\n\tx".toList ∧
      last.kind = .eof ∧ last.span.start.offset = 12) ∧
    ∀ t ∈ ts, t.kind ≠ .eof → t.span.stop.In "\"a\nb\" # c\n\tx".toList := by
  have checked : (scan ⟨"lines", "\"a\nb\" # c\n\tx"⟩).toOption.any (fun ts =>
      ts.length = 3 && ts.all (·.kind ≠ .newline)) = true := by decide +kernel
  cases scanned : scan ⟨"lines", "\"a\nb\" # c\n\tx"⟩ with
  | error e =>
    rw [scanned] at checked
    cases checked
  | ok ts =>
    rw [scanned] at checked
    have facts : ts.length = 3 ∧ ∀ t ∈ ts, t.kind ≠ .newline := by
      simpa [Except.toOption] using checked
    obtain ⟨⟨front, last, eq, tiling, eof, offset, -⟩, -, stop⟩ := tokens_tile scanned
    refine ⟨ts, rfl, facts.1, ⟨front, last, eq, tiling, eof, offset⟩, ?_⟩
    intro t mem other
    exact stop t mem other fun newline => facts.2 t mem newline.1

end ScriptLang
