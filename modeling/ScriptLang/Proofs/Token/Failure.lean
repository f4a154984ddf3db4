import ScriptLang.Proofs.Sequence.Scan
import ScriptLang.Proofs.Token.Lexeme
import ScriptLang.Proofs.Token.Tiling

/-! Where a text cannot be scanned any further. What stands before the place that an error names
scans on its own, and whether a character is illegal depends on nothing that stands behind it. -/
namespace ScriptLang

def Token.inSource (b : Source) (t : Token) : Token := ⟨t.content, b, t.span.start, t.span.stop⟩

def LexError.inSource (b : Source) (e : LexError) : LexError :=
  ⟨e.fault, b, e.span.start, e.span.stop⟩

namespace Scanner

def inSource (b : Source) (s : Scanner) : Scanner := { s with tokens := s.tokens.map (.inSource b) }

def resultIn (b : Source) : Except LexError Scanner → Except LexError Scanner
  | .ok s => .ok (s.inSource b)
  | .error e => .error (e.inSource b)

section InSource

variable (a b : Source) (s : Scanner) (c : Char)

@[simp] theorem mode_inSource : (s.inSource b).mode = s.mode := rfl

theorem close_inSource : (s.inSource b).close b = resultIn b (s.close a) := by
  unfold close
  cases mode : s.mode with
  | idle | comment | string | number | word => simp [mode]; rfl
  | lead start first => cases alone : first.alone? <;> simp [mode, alone] <;> rfl

theorem start_inSource : (s.inSource b).start b c = resultIn b (s.start a c) := by
  unfold start
  split
  · rfl
  · rfl
  · split_ifs <;> rfl

theorem restart_inSource : (do (← (s.inSource b).close b).start b c) =
    resultIn b (do (← s.close a).start a c) := by
  rw [close_inSource a b s]
  cases s.close a with
  | error e => rfl
  | ok k => exact start_inSource a b k c

theorem step_inSource : (s.inSource b).step b c = resultIn b (s.step a c) := by
  unfold step
  rw [mode_inSource]
  cases s.mode with
  | idle => exact start_inSource a b s c
  | comment => rfl
  | string start read escaped =>
    cases escaped with
    | true => rfl
    | false => dsimp only; split_ifs <;> rfl
  | number | word => dsimp only; split_ifs <;> first | rfl | exact restart_inSource a b s c
  | lead => dsimp only; split_ifs <;> first | rfl | exact restart_inSource a b s c

theorem run_inSource (cs : List Char) : (s.inSource b).run b cs = resultIn b (s.run a cs) := by
  induction cs generalizing s with
  | nil => rfl
  | cons c cs ih =>
    unfold run
    rw [List.foldlM_cons, List.foldlM_cons, step_inSource a b s c]
    cases s.step a c with
    | error e => rfl
    | ok s' => exact ih s'

end InSource

variable {source : Source} {cs : List Char} {s s' : Scanner} {c : Char} {e : LexError}

theorem exists_of_run_error (failed : s.run source cs = .error e) :
    ∃ before after s', cs = before ++ after ∧ s.run source before = .ok s' ∧
      ∃ c rest, after = c :: rest ∧ s'.step source c = .error e := by
  induction cs generalizing s with
  | nil => cases failed
  | cons c cs ih =>
    unfold run at failed
    rw [List.foldlM_cons] at failed
    cases stepped : s.step source c with
    | error e' =>
      rw [stepped] at failed
      cases failed
      exact ⟨[], c :: cs, s, rfl, rfl, c, cs, rfl, stepped⟩
    | ok s₁ =>
      rw [stepped] at failed
      obtain ⟨before, after, s', rfl, ran, rest⟩ := ih failed
      exact ⟨c :: before, after, s', rfl, (run_cons stepped before).trans ran, rest⟩

def Scans (source : Source) (cs : List Char) : Prop :=
  ∃ s k, initial.run source cs = .ok s ∧ s.close source = .ok k

theorem Scans.scan (h : Scans source cs) (name : String) :
    ∃ ts, ScriptLang.scan ⟨name, String.ofList cs⟩ = .ok ts := by
  obtain ⟨s, k, ran, closed⟩ := h
  let b : Source := ⟨name, String.ofList cs⟩
  have ran' : initial.run b b.text.toList = .ok (s.inSource b) := by
    rw [String.toList_ofList]
    exact (run_inSource source b initial cs).trans (by rw [ran, resultIn])
  have closed' : (s.inSource b).close b = .ok (k.inSource b) := by
    rw [close_inSource source, closed, resultIn]
  obtain ⟨ts, scanned, -⟩ := scan_of_run ran' closed'
  exact ⟨ts, scanned⟩

theorem scan_eq_error : ScriptLang.scan source = .error e ↔
    initial.run source source.text.toList = .error e ∨
      ∃ s, initial.run source source.text.toList = .ok s ∧ s.close source = .error e := by
  unfold ScriptLang.scan
  cases ran : initial.run source source.text.toList with
  | error e' => simp [bind, Except.bind]
  | ok s => cases closed : s.close source <;> simp [bind, Except.bind, finish, closed]

theorem close_position (closed : s.close source = .ok s') : s'.position = s.position := by
  unfold close at closed
  split at closed
  · cases closed; rfl
  · cases closed; rfl
  · cases closed
  · cases closed; rfl
  · cases closed; rfl
  · split at closed <;> cases closed; rfl

theorem pending_of_free (free : s.mode = .idle ∨ s.mode = .comment) : s.pending = s.position := by
  unfold pending
  rcases free with mode | mode <;> rw [mode]

theorem close_of_free (free : s.mode = .idle ∨ s.mode = .comment) :
    ∃ k, s.close source = .ok k := by
  unfold close
  rcases free with mode | mode <;> simp [mode]

theorem pending_le_position (ran : initial.run source cs = .ok s) :
    s.pending.offset ≤ s.position.offset := by
  have ordered : s.Ordered := ordered_run ⟨.nil _, .inl rfl⟩ ran
  rcases ordered.begun with idle | comment | lt
  · simp [pending_of_free (.inl idle)]
  · simp [pending_of_free (.inr comment)]
  · exact Nat.le_of_lt lt

theorem start_pending (started : s.start source c = .ok s') :
    s'.pending = s.position ∨ (s'.pending = s'.position ∧ ∃ k, s'.close source = .ok k) := by
  unfold start at started
  split at started
  · cases started; exact .inr ⟨rfl, _, rfl⟩
  · cases started; exact .inl rfl
  · split_ifs at started <;> cases started
    · exact .inr ⟨rfl, _, rfl⟩
    · exact .inr ⟨rfl, _, rfl⟩
    · exact .inl rfl
    · exact .inl rfl
    · exact .inl rfl

theorem restart_pending (restarted : (do (← s.close source).start source c) = .ok s') :
    (s'.pending = s.position ∧ ∃ k, s.close source = .ok k) ∨
      (s'.pending = s'.position ∧ ∃ k, s'.close source = .ok k) := by
  cases closed : s.close source with
  | error e => rw [closed] at restarted; cases restarted
  | ok k =>
    rw [closed] at restarted
    rw [← close_position closed]
    exact (start_pending restarted).imp_left fun here => ⟨here, k, rfl⟩

/-- A character goes on with what is pending, or begins something where the text could have ended,
or the text may end behind it. -/
theorem step_pending (stepped : s.step source c = .ok s') : s'.pending = s.pending ∨
    (s'.pending = s.position ∧ ∃ k, s.close source = .ok k) ∨
      (s'.pending = s'.position ∧ ∃ k, s'.close source = .ok k) := by
  unfold step at stepped
  cases mode : s.mode with
  | idle =>
    rw [mode] at stepped
    exact .inr ((start_pending stepped).imp_left fun here => ⟨here, close_of_free (.inl mode)⟩)
  | comment =>
    rw [mode] at stepped
    cases stepped
    have free : (s.enter c (if c = '\n' then .idle else .comment)).mode = .idle ∨
        (s.enter c (if c = '\n' then .idle else .comment)).mode = .comment := by
      by_cases line : c = '\n' <;> simp [enter, line]
    exact .inr (.inr ⟨pending_of_free free, close_of_free free⟩)
  | string start read escaped =>
    have here : s.pending = start := by unfold pending; rw [mode]
    rw [mode] at stepped
    rw [here]
    cases escaped with
    | true => cases stepped; exact .inl rfl
    | false =>
      dsimp only at stepped
      split_ifs at stepped <;> cases stepped
      · exact .inr (.inr ⟨rfl, _, rfl⟩)
      · exact .inl rfl
      · exact .inl rfl
  | number start read dotted =>
    have here : s.pending = start := by unfold pending; rw [mode]
    rw [mode] at stepped
    rw [here]
    dsimp only at stepped
    split_ifs at stepped
    · cases stepped; exact .inl rfl
    · cases stepped; exact .inl rfl
    · exact .inr (restart_pending stepped)
  | word start read =>
    have here : s.pending = start := by unfold pending; rw [mode]
    rw [mode] at stepped
    rw [here]
    dsimp only at stepped
    split_ifs at stepped
    · cases stepped; exact .inl rfl
    · exact .inr (restart_pending stepped)
  | lead start first =>
    rw [mode] at stepped
    dsimp only at stepped
    split_ifs at stepped
    · cases stepped; exact .inr (.inr ⟨rfl, _, rfl⟩)
    · exact .inr (restart_pending stepped)

theorem offset_position (ran : initial.run source cs = .ok s) : s.position.offset = cs.length := by
  simp [((Tiled.initial source).run ran).position]

theorem scans_before (ran : initial.run source cs = .ok s) :
    Scans source (cs.take s.pending.offset) := by
  induction cs using List.reverseRecOn generalizing s with
  | nil =>
    cases ran
    exact ⟨initial, initial, rfl, rfl⟩
  | append_singleton cs c ih =>
    have here := offset_position ran
    obtain ⟨r, ran', stepped⟩ : ∃ r, initial.run source cs = .ok r ∧ r.step source c = .ok s := by
      rw [run_append] at ran
      cases ran' : initial.run source cs with
      | error e => rw [ran'] at ran; cases ran
      | ok r =>
        rw [ran'] at ran
        refine ⟨r, rfl, ?_⟩
        cases stepped : r.step source c with
        | error e => simp [run, Except.bind, stepped] at ran
        | ok t => simpa [run, Except.bind, stepped] using ran
    have there := offset_position ran'
    rcases step_pending stepped with same | ⟨begun, k, closed⟩ | ⟨ended, k, closed⟩
    · have within : r.pending.offset ≤ cs.length := there ▸ pending_le_position ran'
      rw [same, List.take_append_of_le_length within]
      exact ih ran'
    · rw [begun, there, List.take_left]
      exact ⟨r, k, ran', closed⟩
    · rw [ended, here, List.take_length]
      exact ⟨s, k, ran, closed⟩

theorem start_eq_error (failed : s.start source c = .error e) :
    e = ⟨.illegalCharacter c, source, s.position, s.position.next⟩ := by
  unfold start at failed
  split at failed
  · cases failed
  · cases failed
  · split_ifs at failed
    cases failed
    rfl

theorem close_eq_error (failed : s.close source = .error e) :
    (∃ start read escaped, s.mode = .string start read escaped ∧
      e = ⟨.unclosedString, source, start, s.position⟩) ∨
    ∃ start, s.mode = .lead start .bang ∧ e = ⟨.missingEqual, source, start, s.position⟩ := by
  unfold close at failed
  cases mode : s.mode with
  | idle | comment | number | word => rw [mode] at failed; cases failed
  | string start read escaped =>
    rw [mode] at failed
    cases failed
    exact .inl ⟨start, read, escaped, rfl, rfl⟩
  | lead start first =>
    rw [mode] at failed
    cases first with
    | bang => cases failed; exact .inr ⟨start, rfl, rfl⟩
    | equal | less | greater | minus => cases failed

theorem restart_eq_error {k : Scanner} (closed : s.close source = .ok k)
    (failed : (do (← s.close source).start source c) = .error e) :
    e = ⟨.illegalCharacter c, source, s.position, s.position.next⟩ := by
  rw [closed] at failed
  rw [← close_position closed]
  exact start_eq_error failed

theorem step_eq_error (failed : s.step source c = .error e) :
    (∃ k, s.close source = .ok k ∧
      e = ⟨.illegalCharacter c, source, s.position, s.position.next⟩) ∨
    ∃ start, s.mode = .lead start .bang ∧ c ≠ '=' ∧
      e = ⟨.missingEqual, source, start, s.position.next⟩ := by
  cases closed : s.close source with
  | error e' =>
    unfold step at failed
    rcases close_eq_error closed with ⟨start, read, escaped, mode, -⟩ | ⟨start, mode, -⟩
    · rw [mode] at failed
      cases escaped with
      | true => cases failed
      | false => dsimp only at failed; split_ifs at failed
    · rw [mode] at failed
      dsimp only at failed
      split_ifs at failed with equal none
      · cases failed
        exact .inr ⟨start, mode, equal, rfl⟩
      · exact absurd rfl none
  | ok k =>
    refine .inl ⟨k, rfl, ?_⟩
    unfold step at failed
    cases mode : s.mode with
    | idle => rw [mode] at failed; exact start_eq_error failed
    | comment => rw [mode] at failed; cases failed
    | string => unfold close at closed; rw [mode] at closed; cases closed
    | number | word =>
      rw [mode] at failed
      dsimp only at failed
      split_ifs at failed
      exact restart_eq_error closed failed
    | lead start first =>
      rw [mode] at failed
      dsimp only at failed
      split_ifs at failed with second none
      · unfold close at closed
        rw [mode] at closed
        cases first with
        | bang => cases closed
        | equal | less | greater | minus => cases none
      · exact restart_eq_error closed failed

theorem pending_behind (ran : initial.run source cs = .ok s) :
    ∃ before pending, cs = before ++ pending ∧ s.pending = .behind before := by
  have tiled := (Tiled.initial source).run ran
  obtain ⟨done, gap, rest, eq, -, -, held⟩ := tiled.parts
  cases mode : s.mode with
  | idle => exact ⟨cs, [], by simp, (pending_of_free (.inl mode)).trans tiled.position⟩
  | comment => exact ⟨cs, [], by simp, (pending_of_free (.inr mode)).trans tiled.position⟩
  | string | number | word | lead =>
    rw [mode] at held
    exact ⟨done ++ gap, rest, eq, by unfold pending; rw [mode]; exact held.2⟩

theorem begun_behind {before rest : List Char} (ran : initial.run source cs = .ok s)
    (split : cs = before ++ rest) (here : s.pending.offset = before.length) :
    s.pending = .behind before ∧ Scans source before := by
  have scans := scans_before ran
  obtain ⟨front, back, split', place⟩ := pending_behind ran
  have length : front.length = before.length := by rw [← here, place, Position.offset_behind]
  obtain rfl := (List.append_inj (split'.symm.trans split) length).1
  exact ⟨place, by simpa [split', place] using scans⟩

theorem lead_begun {start : Position} (ran : initial.run source cs = .ok s)
    (mode : s.mode = .lead start .bang) :
    ∃ before, cs = before ++ ['!'] ∧ start = .behind before ∧ Scans source before := by
  have here : s.pending = start := by unfold pending; rw [mode]
  obtain ⟨before, pending, split, begun⟩ := ((Spelling.initial source).run ran).pending
  rw [mode] at begun
  obtain ⟨offset, c, rfl, lead⟩ := begun
  obtain rfl : c = '!' := by
    unfold Lead.ofChar? at lead
    split at lead <;> cases lead
    rfl
  have begun := begun_behind ran split (by rw [here, offset])
  rw [here] at begun
  exact ⟨before, split, begun⟩

theorem string_begun {start : Position} {read : List Char} {escaped : Bool}
    (ran : initial.run source cs = .ok s) (mode : s.mode = .string start read escaped) :
    ∃ before body tail, cs = before ++ '"' :: (body ++ tail) ∧ (tail = [] ∨ tail = ['\\']) ∧
      Escaped body read.reverse ∧ start = .behind before ∧ Scans source before := by
  have here : s.pending = start := by unfold pending; rw [mode]
  obtain ⟨before, pending, split, begun⟩ := ((Spelling.initial source).run ran).pending
  rw [mode] at begun
  obtain ⟨offset, body, inner, rfl⟩ := begun
  have begun := begun_behind ran split (by rw [here, offset])
  rw [here] at begun
  exact ⟨before, body, _, split, by cases escaped <;> simp, inner, begun⟩

end Scanner

theorem Escaped.unclosed {body text tail : List Char} (h : Escaped body text)
    (ends : tail = [] ∨ tail = ['\\']) {body' text' : List Char} (h' : Escaped body' text')
    (more : List Char) : body ++ tail ≠ body' ++ '"' :: more := by
  induction h generalizing body' text' with
  | nil => rcases ends with rfl | rfl <;> cases h' <;> simp
  | plain quote backslash _ ih =>
    cases h' with
    | nil => simp [quote]
    | plain _ _ h' => simpa using fun _ => ih h'
    | escape => simp [backslash]
  | escape c _ ih =>
    cases h' with
    | nil => simp
    | plain _ backslash => simp [Ne.symm backslash]
    | escape _ h' => simpa using fun _ => ih h'

/-- What stands at the place of an error. -/
def LexFault.At (text : List Char) (p : Nat) : LexFault → Prop
  | .illegalCharacter c => text[p]? = some c
  | .missingEqual => text[p]? = some '!' ∧ text[p + 1]? ≠ some '='
  | .unclosedString => text[p]? = some '"' ∧ ∀ body inner more, Escaped body inner →
    text.drop (p + 1) ≠ body ++ '"' :: more

open Scanner in
theorem exists_of_scan_error {source : Source} {e : LexError} (failed : scan source = .error e) :
    ∃ before after, source.text.toList = before ++ after ∧ e.span.source = source ∧
      e.span.start = .behind before ∧ Scans source before ∧
      e.fault.At (before ++ after) before.length ∧
      ∀ c, e.fault = .illegalCharacter c → e.span.stop = e.span.start.next ∧ ∃ s rest,
        initial.run source before = .ok s ∧ after = c :: rest ∧ s.step source c = .error e := by
  rcases scan_eq_error.1 failed with ran | ⟨s, ran, closed⟩
  · obtain ⟨before, _, s, text, ran', c, rest, rfl, stepped⟩ := exists_of_run_error ran
    rcases step_eq_error stepped with ⟨k, closed, rfl⟩ | ⟨start, mode, other, rfl⟩
    · refine ⟨before, c :: rest, text, rfl, ((Tiled.initial source).run ran').position,
        ⟨s, k, ran', closed⟩, by simp [LexFault.At], fun d same => ?_⟩
      cases same
      exact ⟨rfl, s, rest, ran', rfl, stepped⟩
    · obtain ⟨front, rfl, rfl, scans⟩ := lead_begun ran' mode
      exact ⟨front, '!' :: c :: rest, by simp [text], rfl, rfl, scans,
        by simp [LexFault.At, other], nofun⟩
  · rcases close_eq_error closed with ⟨start, read, escaped, mode, rfl⟩ | ⟨start, mode, rfl⟩
    · obtain ⟨before, body, tail, text, ends, inner, rfl, scans⟩ := string_begun ran mode
      refine ⟨before, _, text, rfl, rfl, scans, ⟨by simp, fun body' text' more h' => ?_⟩, nofun⟩
      simpa using inner.unclosed ends h' more
    · obtain ⟨before, text, rfl, scans⟩ := lead_begun ran mode
      exact ⟨before, _, text, rfl, rfl, scans, by simp [LexFault.At], nofun⟩

open Scanner in
theorem scan_of_illegal {source other : Source} {before rest : List Char} {c : Char} {s : Scanner}
    {e : LexError} (ran : initial.run source before = .ok s) (failed : s.step source c = .error e)
    (same : other.text.toList = before ++ c :: rest) : scan other = .error (e.inSource other) := by
  have read : initial.run other before = .ok (s.inSource other) := by
    rw [show initial = initial.inSource other from rfl, run_inSource source, ran, resultIn]
  have stepped : (s.inSource other).step other c = .error (e.inSource other) := by
    rw [step_inSource source, failed, resultIn]
  refine scan_eq_error.2 (.inl ?_)
  rw [same, run_append, read]
  simp [run, Except.bind, bind, stepped]

/-- An error of a scan stands behind characters that scan on their own, in the line and column of
its offset. An illegal character is illegal in every text that goes on in any way behind it; other
errors are a `!` without its `=`, and the first quote of a literal that no quote closes. -/
theorem scan_stops_at_error {source : Source} {e : LexError} (failed : scan source = .error e) :
    e.span.source = source ∧ e.span.start.In source.text.toList ∧
    (∀ name, ∃ ts, scan ⟨name, String.ofList (source.text.toList.take e.span.start.offset)⟩ =
      .ok ts) ∧
    e.fault.At source.text.toList e.span.start.offset ∧
    ∀ c, e.fault = .illegalCharacter c → e.span.stop = e.span.start.next ∧
      ∀ other : Source, other.text.toList.take (e.span.start.offset + 1) =
          source.text.toList.take (e.span.start.offset + 1) →
        scan other = .error ⟨e.fault, other, e.span.start, e.span.stop⟩ := by
  obtain ⟨before, after, text, own, start, scans, stands, illegal⟩ := exists_of_scan_error failed
  rw [text, start, Position.offset_behind, List.take_left]
  refine ⟨own, Position.behind_in before after, scans.scan, stands, fun c fault => ?_⟩
  obtain ⟨stop, s, rest, ran, rfl, stepped⟩ := illegal c fault
  refine ⟨by rw [stop, start], fun other same => ?_⟩
  have same' : other.text.toList = before ++ c :: other.text.toList.drop (before.length + 1) := by
    have front : (before ++ c :: rest).take (before.length + 1) = before ++ [c] := by
      rw [List.take_length_add_append]
      rfl
    rw [front] at same
    simpa [same] using (List.take_append_drop (before.length + 1) other.text.toList).symm
  rw [scan_of_illegal ran stepped same', LexError.inSource, start]

/-- A `$` behind a symbol that another character might have continued. -/
theorem scan_stops_at_error_dollar : ∃ e, scan ⟨"first", "a\n>$ = \"b"⟩ = .error e ∧
    e.fault = .illegalCharacter '$' ∧ e.span.start = ⟨3, 1, 1⟩ ∧ e.span.stop = ⟨4, 1, 2⟩ ∧
    (∃ ts, scan ⟨"second", "a\n>"⟩ = .ok ts) ∧
    scan ⟨"third", "a\n>$!"⟩ =
      .error ⟨.illegalCharacter '$', ⟨"third", "a\n>$!"⟩, ⟨3, 1, 1⟩, ⟨4, 1, 2⟩⟩ := by
  obtain ⟨e, failed, fault, start⟩ : ∃ e, scan ⟨"first", "a\n>$ = \"b"⟩ = .error e ∧
      e.fault = .illegalCharacter '$' ∧ e.span.start = ⟨3, 1, 1⟩ := ⟨_, rfl, rfl, rfl⟩
  obtain ⟨-, -, front, -, illegal⟩ := scan_stops_at_error failed
  obtain ⟨stop, further⟩ := illegal '$' fault
  rw [start] at front stop further
  rw [stop, fault] at further
  exact ⟨e, failed, fault, start, stop, front "second", further ⟨"third", "a\n>$!"⟩ rfl⟩

end ScriptLang
