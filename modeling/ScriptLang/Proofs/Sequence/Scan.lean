import ScriptLang.Proofs.Print.Scan
import ScriptLang.Proofs.Sequence.Program

/-! Scanning two texts one behind the other. A scanner that has read one text and the line ends
behind it is in the middle of nothing, and reads another text as it would from the start. -/
namespace ScriptLang.Scanner

inductive Mode.Same : Mode → Mode → Prop where
  | idle : Same .idle .idle
  | comment : Same .comment .comment
  | string (p q : Position) (read : List Char) (escaped : Bool) :
    Same (.string p read escaped) (.string q read escaped)
  | number (p q : Position) (read : List Char) (dotted : Bool) :
    Same (.number p read dotted) (.number q read dotted)
  | word (p q : Position) (read : List Char) : Same (.word p read) (.word q read)
  | lead (p q : Position) (first : Lead) : Same (.lead p first) (.lead q first)

/-- `s` and `t` have read the same, the one after tokens that say `old` and the other after tokens
that say `new`, the latest first. -/
structure After (old new : List Token.Content) (s t : Scanner) : Prop where
  mode : s.mode.Same t.mode
  tokens : ∃ read, s.tokens.map Token.content = read ++ old ∧
    t.tokens.map Token.content = read ++ new

section After

variable {old new : List Token.Content} {s t s' : Scanner} {a b : Source} {c : Char}

theorem After.onto (h : After [] new s t) :
    t.tokens.map Token.content = s.tokens.map Token.content ++ new := by
  obtain ⟨read, left, right⟩ := h.tokens
  rw [left, right, List.append_nil]

theorem After.enter (h : After old new s t) (c : Char) {m n : Mode} (mode : m.Same n) :
    After old new (s.enter c m) (t.enter c n) :=
  ⟨mode, h.tokens⟩

theorem After.emit (h : After old new s t) (x : Token.Content) (p q p' q' : Position) :
    After old new (s.emit a x p q) (t.emit b x p' q') := by
  obtain ⟨read, left, right⟩ := h.tokens
  refine ⟨.idle, x :: read, ?_, ?_⟩
  · simp only [Scanner.emit, List.map_cons, left, List.cons_append]
  · simp only [Scanner.emit, List.map_cons, right, List.cons_append]

theorem After.close (h : After old new s t) (closed : s.close a = .ok s') :
    ∃ t', t.close b = .ok t' ∧ After old new s' t' := by
  have mode := h.mode
  unfold Scanner.close at closed ⊢
  generalize s.mode = m at mode closed
  generalize t.mode = n at mode ⊢
  cases mode with
  | idle => cases closed; exact ⟨_, rfl, .idle, h.tokens⟩
  | comment => cases closed; exact ⟨_, rfl, .idle, h.tokens⟩
  | string => cases closed
  | number => cases closed; exact ⟨_, rfl, h.emit ..⟩
  | word => cases closed; exact ⟨_, rfl, h.emit ..⟩
  | lead p q first =>
    cases alone : first.alone? with
    | none => simp only [alone] at closed; cases closed
    | some symbol => simp only [alone] at closed ⊢; cases closed; exact ⟨_, rfl, h.emit ..⟩

theorem After.start (h : After old new s t) (started : s.start a c = .ok s') :
    ∃ t', t.start b c = .ok t' ∧ After old new s' t' := by
  unfold Scanner.start at started ⊢
  split at started
  · cases started
    exact ⟨_, rfl, (h.emit ..).enter c .idle⟩
  · cases started
    exact ⟨_, rfl, h.enter c (.lead ..)⟩
  · split_ifs at started ⊢
    · cases started; exact ⟨_, rfl, h.enter c .idle⟩
    · cases started; exact ⟨_, rfl, h.enter c .comment⟩
    · cases started; exact ⟨_, rfl, h.enter c (.string ..)⟩
    · cases started; exact ⟨_, rfl, h.enter c (.number ..)⟩
    · cases started; exact ⟨_, rfl, h.enter c (.word ..)⟩

theorem After.restart (h : After old new s t)
    (restarted : (do (← s.close a).start a c) = .ok s') :
    ∃ t', (do (← t.close b).start b c) = .ok t' ∧ After old new s' t' := by
  cases closed : s.close a with
  | error e => rw [closed] at restarted; cases restarted
  | ok s₁ =>
    rw [closed] at restarted
    obtain ⟨t₁, closed', after⟩ := h.close (b := b) closed
    rw [closed']
    exact after.start restarted

theorem After.step (h : After old new s t) (stepped : s.step a c = .ok s') :
    ∃ t', t.step b c = .ok t' ∧ After old new s' t' := by
  have mode := h.mode
  unfold Scanner.step at stepped ⊢
  generalize s.mode = m at mode stepped
  generalize t.mode = n at mode ⊢
  cases mode with
  | idle => exact h.start stepped
  | comment =>
    cases stepped
    refine ⟨_, rfl, h.enter c ?_⟩
    split
    · exact .idle
    · exact .comment
  | string p q read escaped =>
    cases escaped with
    | true => cases stepped; exact ⟨_, rfl, h.enter c (.string ..)⟩
    | false =>
      dsimp only at stepped ⊢
      split_ifs at stepped ⊢
      · cases stepped; exact ⟨_, rfl, (h.enter c .idle).emit ..⟩
      · cases stepped; exact ⟨_, rfl, h.enter c (.string ..)⟩
      · cases stepped; exact ⟨_, rfl, h.enter c (.string ..)⟩
  | number p q read dotted =>
    dsimp only at stepped ⊢
    split_ifs at stepped ⊢
    · cases stepped; exact ⟨_, rfl, h.enter c (.number ..)⟩
    · cases stepped; exact ⟨_, rfl, h.enter c (.number ..)⟩
    · exact h.restart stepped
  | word p q read =>
    dsimp only at stepped ⊢
    split_ifs at stepped ⊢
    · cases stepped; exact ⟨_, rfl, h.enter c (.word ..)⟩
    · exact h.restart stepped
  | lead p q first =>
    dsimp only at stepped ⊢
    split_ifs at stepped ⊢
    · cases stepped; exact ⟨_, rfl, (h.enter c .idle).emit ..⟩
    · exact h.restart stepped

theorem After.run (h : After old new s t) {cs : List Char} (ran : s.run a cs = .ok s') :
    ∃ t', t.run b cs = .ok t' ∧ After old new s' t' := by
  induction cs generalizing s t with
  | nil => cases ran; exact ⟨t, rfl, h⟩
  | cons c cs ih =>
    unfold Scanner.run at ran ⊢
    rw [List.foldlM_cons] at ran ⊢
    cases stepped : s.step a c with
    | error e => rw [stepped] at ran; cases ran
    | ok s₁ =>
      rw [stepped] at ran
      obtain ⟨t₁, stepped', after⟩ := h.step (b := b) stepped
      rw [stepped']
      exact ih after ran

theorem start_lineEnd (s : Scanner) : ∃ t, s.start a '\n' = .ok t ∧ t.mode = .idle ∧
    t.tokens.map Token.content = .newline :: s.tokens.map Token.content :=
  ⟨_, rfl, rfl, rfl⟩

/-- A line end behind a whole text ends its last token; unless that was a comment, it is a
separator. -/
theorem step_lineEnd (closed : s.close a = .ok s') : ∃ g t, s.step a '\n' = .ok t ∧
    t.mode = .idle ∧ t.tokens.map Token.content =
      List.replicate g .newline ++ s'.tokens.map Token.content := by
  have restart : ∃ t, (do (← s.close a).start a '\n') = .ok t ∧ t.mode = .idle ∧
      t.tokens.map Token.content = .newline :: s'.tokens.map Token.content := by
    rw [closed]
    exact start_lineEnd s'
  unfold Scanner.step
  cases mode : s.mode with
  | comment =>
    refine ⟨0, _, rfl, rfl, ?_⟩
    unfold Scanner.close at closed
    rw [mode] at closed
    cases closed
    rfl
  | string p read escaped =>
    unfold Scanner.close at closed
    rw [mode] at closed
    cases closed
  | idle =>
    unfold Scanner.close at closed
    rw [mode] at closed
    cases closed
    exact ⟨1, start_lineEnd s⟩
  | number p read dotted =>
    dsimp only
    rw [if_neg (by decide), if_neg (by simp)]
    exact ⟨1, restart⟩
  | word p read =>
    dsimp only
    rw [if_neg (by decide)]
    exact ⟨1, restart⟩
  | lead p first =>
    have alone : first.alone?.isNone = false := by
      unfold Scanner.close at closed
      rw [mode] at closed
      cases single : first.alone? with
      | none => simp only [single] at closed; cases closed
      | some symbol => rfl
    dsimp only
    rw [if_neg (by cases first <;> decide), alone]
    exact ⟨1, restart⟩

end After

end ScriptLang.Scanner

namespace ScriptLang

open Scanner

theorem scan_eq_ok {a : Source} {ts : List Token} (h : scan a = .ok ts) :
    ∃ s t, initial.run a a.text.toList = .ok s ∧ s.close a = .ok t ∧
      ts.map Token.content = (t.tokens.map Token.content).reverse ++ [.eof] := by
  obtain ⟨s, t, ran, closed, rfl⟩ := closed_of_scan h
  exact ⟨s, t, ran, closed, by simp⟩

theorem scan_of_run {a : Source} {s t : Scanner} (ran : initial.run a a.text.toList = .ok s)
    (closed : s.close a = .ok t) : ∃ ts, scan a = .ok ts ∧
      ts.map Token.content = (t.tokens.map Token.content).reverse ++ [.eof] := by
  refine ⟨(⟨.eof, a, t.position, t.position.next⟩ :: t.tokens).reverse, ?_, by simp⟩
  unfold scan
  rw [ran]
  change s.finish a = _
  unfold Scanner.finish
  rw [closed]
  rfl

theorem eof_not_mem {ts : List Token} {front : List Token.Content} (h : Token.Ended ts)
    (eq : ts.map Token.content = front ++ [.eof]) : .eof ∉ front := by
  obtain ⟨before, last, rfl, -, inner⟩ := h.ending
  rw [List.map_append] at eq
  rw [← (List.append_inj' eq rfl).1]
  intro mem
  obtain ⟨t, found, eof⟩ := List.mem_map.1 mem
  exact inner t found (congrArg Token.Content.kind eof)

/-- The tokens of two texts with an empty line between them are those of the one, separators in
place of its end mark, and those of the other. -/
theorem scan_joined {a b c : Source} (text : c.text = a.text ++ "\n\n" ++ b.text)
    {ts us : List Token} (first : scan a = .ok ts) (second : scan b = .ok us) :
    ∃ P : Join, P.first = ts ∧ P.second = us ∧ scan c = .ok P.whole := by
  obtain ⟨s, s', ran, closed, front⟩ := scan_eq_ok first
  obtain ⟨r, r', ran', closed', back⟩ := scan_eq_ok second
  -- the first text and the two line ends behind it
  have begun : After [] [] initial initial := ⟨.idle, [], rfl, rfl⟩
  obtain ⟨s₁, ran₁, after₁⟩ := begun.run (b := c) ran
  obtain ⟨s₂, closed₁, after₂⟩ := after₁.close (b := c) closed
  obtain ⟨g, s₃, stepped, idle, tokens⟩ := step_lineEnd closed₁
  obtain ⟨s₄, started, idle', tokens'⟩ := start_lineEnd (a := c) s₃
  have stepped' : s₃.step c '\n' = .ok s₄ := by
    unfold Scanner.step
    rw [idle]
    exact started
  -- the second text, from there
  have resumed : After [] (s₄.tokens.map Token.content) initial s₄ :=
    ⟨by rw [idle']; exact .idle, [], rfl, rfl⟩
  obtain ⟨r₁, ran₂, after₃⟩ := resumed.run (b := c) ran'
  obtain ⟨r₂, closed₂, after₄⟩ := after₃.close (b := c) closed'
  have whole : initial.run c c.text.toList = .ok r₁ := by
    have chars : c.text.toList = a.text.toList ++ '\n' :: '\n' :: b.text.toList := by
      rw [text, String.toList_append, String.toList_append, List.append_assoc]
      rfl
    rw [chars, run_append, ran₁]
    change s₁.run c _ = _
    rw [run_cons stepped, run_cons stepped', ran₂]
  obtain ⟨ws, scanned, contents⟩ := scan_of_run whole closed₂
  have eq : ws.map Token.content = (s'.tokens.map Token.content).reverse ++
      (List.replicate (g + 1) .newline ++ ((r'.tokens.map Token.content).reverse ++ [.eof])) := by
    rw [contents, after₄.onto, tokens', tokens, after₂.onto, List.append_nil,
      List.replicate_succ']
    simp
  exact ⟨⟨_, _, g, ts, us, ws, front, back, eq, eof_not_mem (ended_of_scan first) front,
    (ended_of_scan first).ascending, (ended_of_scan second).ascending,
    (ended_of_scan scanned).ascending⟩, rfl, rfl, scanned⟩

end ScriptLang
