import ScriptLang.Token.Scan

/-! The tokens of a text start one after the other, and only the last of them marks its end. -/
namespace ScriptLang

/-- Tokens with the latest first: each starts before `bound` and after those behind it, and none
marks the end of the text. -/
structure Token.Before (bound : Nat) (ts : List Token) : Prop where
  sorted : ts.Pairwise fun a b => b.span.start.offset < a.span.start.offset
  bounded : ∀ t ∈ ts, t.span.start.offset < bound
  noEnd : ∀ t ∈ ts, t.kind ≠ .eof

namespace Token.Before

theorem nil (bound : Nat) : Before bound [] := ⟨.nil, by simp, by simp⟩

theorem mono {a b : Nat} {ts : List Token} (h : Before a ts) (le : a ≤ b) : Before b ts :=
  ⟨h.sorted, fun t mem => Nat.lt_of_lt_of_le (h.bounded t mem) le, h.noEnd⟩

theorem cons {bound : Nat} {ts : List Token} {content : Content} {source : Source}
    {start stop : Position} (h : Before start.offset ts) (kind : content.kind ≠ .eof)
    (lt : start.offset < bound) : Before bound (⟨content, source, start, stop⟩ :: ts) where
  sorted := .cons (fun t mem => h.bounded t mem) h.sorted
  bounded := by
    intro t mem
    rcases List.mem_cons.1 mem with rfl | mem
    · exact lt
    · exact Nat.lt_trans (h.bounded t mem) lt
  noEnd := by
    intro t mem
    rcases List.mem_cons.1 mem with rfl | mem
    · exact kind
    · exact h.noEnd t mem

end Token.Before

namespace Scanner

def pending (s : Scanner) : Position :=
  match s.mode with
  | .idle | .comment => s.position
  | .string start _ _ | .number start _ _ | .word start _ | .lead start _ => start

/-- The tokens so far are in order, and a pending one has begun after them. -/
structure Ordered (s : Scanner) : Prop where
  before : Token.Before s.pending.offset s.tokens
  begun : s.mode = .idle ∨ s.mode = .comment ∨ s.pending.offset < s.position.offset

theorem kind_ofDigits (digits : List Char) : (Token.Content.ofDigits digits).kind ≠ .eof := by
  unfold Token.Content.ofDigits
  dsimp only
  split <;> simp [Token.Content.kind]

theorem kind_ofWord (letters : List Char) : (Token.Content.ofWord letters).kind ≠ .eof := by
  unfold Token.Content.ofWord
  dsimp only
  split <;> simp [Token.Content.kind]

theorem kind_ofChar {c : Char} {content : Token.Content}
    (h : Token.Content.ofChar? c = some content) : content.kind ≠ .eof := by
  unfold Token.Content.ofChar? at h
  split at h <;> cases h <;> simp [Token.Content.kind]

theorem ordered_close {source : Source} {s s' : Scanner} (h : s.Ordered)
    (eq : s.close source = .ok s') : s'.Ordered ∧ s'.mode = .idle := by
  obtain ⟨before, begun⟩ := h
  unfold close at eq
  unfold pending at before begun
  split at eq <;> simp only [*, reduceCtorEq, false_or] at before begun
  · cases eq; exact ⟨⟨before, .inl rfl⟩, rfl⟩
  · cases eq; exact ⟨⟨before, .inl rfl⟩, rfl⟩
  · cases eq
  · cases eq; exact ⟨⟨before.cons (kind_ofDigits _) begun, .inl rfl⟩, rfl⟩
  · cases eq; exact ⟨⟨before.cons (kind_ofWord _) begun, .inl rfl⟩, rfl⟩
  · split at eq
    · cases eq
      exact ⟨⟨before.cons (by simp [Token.Content.kind]) begun, .inl rfl⟩, rfl⟩
    · cases eq

theorem ordered_start {source : Source} {s s' : Scanner} {c : Char} (h : s.Ordered)
    (idle : s.mode = .idle) (eq : s.start source c = .ok s') : s'.Ordered := by
  have before : Token.Before s.position.offset s.tokens := by
    simpa only [pending, idle] using h.before
  have further : s.position.offset < (s.position.advance c).offset := by simp
  unfold start at eq
  split at eq
  · next found =>
    cases eq
    exact ⟨before.cons (kind_ofChar found) further, .inl rfl⟩
  · cases eq
    exact ⟨before, .inr (.inr further)⟩
  · split at eq
    · cases eq; exact ⟨before.mono (Nat.le_of_lt further), .inl rfl⟩
    · split at eq
      · cases eq; exact ⟨before.mono (Nat.le_of_lt further), .inr (.inl rfl)⟩
      · split at eq
        · cases eq; exact ⟨before, .inr (.inr further)⟩
        · split at eq
          · cases eq; exact ⟨before, .inr (.inr further)⟩
          · split at eq
            · cases eq; exact ⟨before, .inr (.inr further)⟩
            · cases eq

theorem ordered_restart {source : Source} {s s' : Scanner} {c : Char} (h : s.Ordered)
    (eq : (do (← s.close source).start source c) = .ok s') : s'.Ordered := by
  cases closed : s.close source with
  | error e => rw [closed] at eq; cases eq
  | ok s₁ =>
    rw [closed] at eq
    obtain ⟨ordered, idle⟩ := ordered_close h closed
    exact ordered_start ordered idle eq

theorem ordered_step {source : Source} {s s' : Scanner} {c : Char} (h : s.Ordered)
    (eq : s.step source c = .ok s') : s'.Ordered := by
  have further : s.position.offset < (s.position.advance c).offset := by simp
  have before := h.before
  have begun := h.begun
  unfold pending at before begun
  unfold step at eq
  cases mode : s.mode with
  | idle =>
    simp only [mode] at eq
    exact ordered_start h mode eq
  | comment =>
    simp only [mode] at eq before
    cases eq
    have before' := before.mono (Nat.le_of_lt further)
    by_cases newline : c = '\n'
    · rw [if_pos newline]; exact ⟨before', .inl rfl⟩
    · rw [if_neg newline]; exact ⟨before', .inr (.inl rfl)⟩
  | string start read escaped =>
    simp only [mode, reduceCtorEq, false_or] at eq before begun
    cases escaped with
    | true => cases eq; exact ⟨before, .inr (.inr (Nat.lt_trans begun further))⟩
    | false =>
      dsimp only at eq
      split at eq
      · cases eq
        exact ⟨before.cons (by simp [Token.Content.kind]) (Nat.lt_trans begun further), .inl rfl⟩
      · split at eq <;> cases eq <;> exact ⟨before, .inr (.inr (Nat.lt_trans begun further))⟩
  | number start read dotted =>
    simp only [mode, reduceCtorEq, false_or] at eq before begun
    split at eq
    · cases eq; exact ⟨before, .inr (.inr (Nat.lt_trans begun further))⟩
    · split at eq
      · cases eq; exact ⟨before, .inr (.inr (Nat.lt_trans begun further))⟩
      · exact ordered_restart h eq
  | word start read =>
    simp only [mode, reduceCtorEq, false_or] at eq before begun
    split at eq
    · cases eq; exact ⟨before, .inr (.inr (Nat.lt_trans begun further))⟩
    · exact ordered_restart h eq
  | lead start first =>
    simp only [mode, reduceCtorEq, false_or] at eq before begun
    split at eq
    · cases eq
      exact ⟨before.cons (by simp [Token.Content.kind]) (Nat.lt_trans begun further), .inl rfl⟩
    · split at eq
      · cases eq
      · exact ordered_restart h eq

theorem ordered_run {source : Source} {s s' : Scanner} {cs : List Char} (h : s.Ordered)
    (eq : s.run source cs = .ok s') : s'.Ordered := by
  induction cs generalizing s with
  | nil => cases eq; exact h
  | cons c cs ih =>
    unfold run at eq
    rw [List.foldlM_cons] at eq
    cases stepped : s.step source c with
    | error e => rw [stepped] at eq; cases eq
    | ok s₁ => rw [stepped] at eq; exact ih (ordered_step h stepped) eq

end Scanner

def Token.Ascending (ts : List Token) : Prop :=
  ts.Pairwise fun a b => a.span.start.offset < b.span.start.offset

/-- A token that marks the end comes last, and none before it does. -/
structure Token.Ended (ts : List Token) : Prop where
  ascending : Ascending ts
  ending : ∃ front last, ts = front ++ [last] ∧ last.kind = .eof ∧ ∀ t ∈ front, t.kind ≠ .eof

theorem closed_of_scan {source : Source} {ts : List Token} (h : scan source = .ok ts) :
    ∃ s last, Scanner.initial.run source source.text.toList = .ok s ∧ s.close source = .ok last ∧
      ts = last.tokens.reverse ++ [⟨.eof, source, last.position, last.position.next⟩] := by
  unfold scan at h
  cases ran : Scanner.initial.run source source.text.toList with
  | error e => rw [ran] at h; cases h
  | ok s =>
    rw [ran] at h
    change s.finish source = .ok ts at h
    unfold Scanner.finish at h
    cases closed : s.close source with
    | error e => rw [closed] at h; cases h
    | ok last =>
      rw [closed] at h
      cases h
      exact ⟨s, last, rfl, closed, List.reverse_cons⟩

theorem ended_of_scan {source : Source} {ts : List Token} (h : scan source = .ok ts) :
    Token.Ended ts := by
  obtain ⟨s, last, ran, closed, rfl⟩ := closed_of_scan h
  have ordered : s.Ordered := Scanner.ordered_run ⟨.nil _, .inl rfl⟩ ran
  obtain ⟨⟨before, -⟩, idle⟩ := Scanner.ordered_close ordered closed
  simp only [Scanner.pending, idle] at before
  refine ⟨?_, last.tokens.reverse, _, rfl, rfl, ?_⟩
  · unfold Token.Ascending
    rw [List.pairwise_append]
    refine ⟨List.pairwise_reverse.2 before.sorted, List.pairwise_singleton _ _, ?_⟩
    intro a ha b hb
    obtain rfl := List.mem_singleton.1 hb
    exact before.bounded a (List.mem_reverse.1 ha)
  · intro t mem
    exact before.noEnd t (List.mem_reverse.1 mem)

end ScriptLang
