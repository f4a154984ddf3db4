import ScriptLang.Proofs.Walk.Grammar

/-! Reading ends, and goes forward as long as it lasts. On the walk through a list of tokens whose
end is marked, no place lies behind the mark, so nothing is ever looked up outside the list; what is
read has taken a token, and what fails, or is given up, is never left before its beginning. -/
namespace ScriptLang

open Grammar Rule

def Walk.readings (n : Nat) : List (Walk Unit × Rule Tree) :=
  [(Walk.statement (Walk.level n), Grammar.statement (Grammar.level n)),
    (Walk.expression (n + 1) (Walk.level n), Grammar.expression (n + 1) (Grammar.level n)),
    (Walk.comparison (n + 1) (Walk.level n), Grammar.comparison (n + 1) (Grammar.level n)),
    (Walk.factor (n + 1) (Walk.level n), Grammar.factor (n + 1) (Grammar.level n)),
    (Walk.call (n + 1) (Walk.level n), Grammar.call (n + 1) (Grammar.level n)),
    (Walk.atom (n + 1) (Walk.level n), Grammar.atom (n + 1) (Grammar.level n))]

section Walked

variable {ts : List Token}

theorem Walk.peek_eq {i : Nat} (within : i < ts.length) : Walk.peek ts i = ts[i]? := by
  rw [Walk.peek, Nat.min_eq_left (by omega)]

theorem Walk.previous_eq {i : Nat} (within : i < ts.length) : Walk.previous ts i = ts[i - 1]? := by
  rw [Walk.previous, Nat.min_eq_left (by omega)]

theorem Walk.readings_follows (closed : Token.Closed (ts.map Token.content)) {n : Nat}
    {q : Walk Unit × Rule Tree} (mem : q ∈ Walk.readings n) : q.1.Follows ts 1 n q.2 := by
  have self := level_tracks closed n
  have more := Nat.lt_succ_self n
  have less {w : Walk Unit} {p : Rule Tree} (h : w.Follows ts 1 (n + 1) p) : w.Follows ts 1 n p :=
    fun c => (h c).mono (Nat.le_refl 1) (Nat.le_succ n)
  simp only [Walk.readings, List.mem_cons, List.not_mem_nil, or_false] at mem
  rcases mem with rfl | rfl | rfl | rfl | rfl | rfl
  · exact statement_tracks closed self
  · exact less (expression_tracks closed self more)
  · exact less (comparison_tracks closed self more)
  · exact less (factor_tracks closed self more)
  · exact less (call_tracks closed self more)
  · exact less (atom_tracks closed self (Nat.le_succ n))

/-- With a step for every token left, a walk succeeds with its rule or fails with it. -/
theorem Course.Tracks.ends {α β : Type} {i least steps : Nat} {view : β → α} {course : Course α}
    {o : Outcome β} (h : course.Tracks ts i least steps view o) (enough : ts.length ≤ i + steps) :
    ((∃ b d, o = .done b d ∧ course.arrival = .done (view b) d.index ∧ d.Stands ts ∧
        i + least ≤ d.index) ∨
      ∃ e j, o = .failed e ∧ course.arrival = .failed j ∧ i ≤ j ∧ j ≤ e.index) ∧
    ∀ e ∈ course.events, e.Forward ts := by
  cases h with
  | done forward stands further => exact ⟨.inl ⟨_, _, rfl, rfl, stands, further⟩, forward⟩
  | failed forward place onward named => exact ⟨.inr ⟨_, _, rfl, rfl, onward, named⟩, forward⟩
  | spent more => omega

end Walked

section Program

variable {t : Token} {ts : List Token} {n : Nat}

theorem program_ends (closed : Token.Closed ((t :: ts).map Token.content)) (more : ts.length < n) :
    ((∃ x d, program n (.ofTokens t ts) = .done x d ∧
        (Walk.program n (t :: ts) 0).arrival = .done () d.index) ∨
      ∃ e j, program n (.ofTokens t ts) = .failed e ∧
        (Walk.program n (t :: ts) 0).arrival = .failed j ∧ j ≤ e.index) ∧
    ∀ e ∈ (Walk.program n (t :: ts) 0).events, e.Forward (t :: ts) := by
  have tracks := program_tracks closed n (.ofTokens t ts) (.ofTokens t ts)
  obtain ⟨ends, forward⟩ := tracks.ends (by rw [List.length_cons]; omega)
  refine ⟨?_, forward⟩
  rcases ends with ⟨x, d, read, arrival, -⟩ | ⟨e, j, fails, arrival, -, named⟩
  · exact .inl ⟨x, d, read, arrival⟩
  · exact .inr ⟨e, j, fails, arrival, named⟩

theorem arrival_of_done (closed : Token.Closed ((t :: ts).map Token.content)) (more : ts.length < n)
    {x : Tree} {d : Cursor} (read : program n (.ofTokens t ts) = .done x d) :
    (Walk.program n (t :: ts) 0).arrival = .done () d.index := by
  rcases (program_ends closed more).1 with ⟨_, _, read', arrival⟩ | ⟨_, _, fails, -⟩
  · cases read.symm.trans read'
    exact arrival
  · cases read.symm.trans fails

theorem arrival_of_failed (closed : Token.Closed ((t :: ts).map Token.content))
    (more : ts.length < n) {e : Failure} (fails : program n (.ofTokens t ts) = .failed e) :
    ∃ j, (Walk.program n (t :: ts) 0).arrival = .failed j ∧ j ≤ e.index := by
  rcases (program_ends closed more).1 with ⟨_, _, read, -⟩ | ⟨_, j, fails', arrival⟩
  · cases fails.symm.trans read
  · cases fails.symm.trans fails'
    exact ⟨j, arrival⟩

theorem program_steps (closed : Token.Closed ((t :: ts).map Token.content))
    (more : ts.length < n) :
    program n (.ofTokens t ts) = program (ts.length + 1) (.ofTokens t ts) := by
  rcases program_le more (.ofTokens t ts) with out | same
  · rcases (program_ends closed (Nat.lt_succ_self ts.length)).1 with
      ⟨x, d, read, -⟩ | ⟨e, j, fails, -⟩
    · rw [read] at out
      cases out
    · rw [fails] at out
      cases out
  · exact same.symm

end Program

/-- Tokens with an end mark, and only one, are read to an end, and with more steps to the same one;
so is every part of an expression, wherever it begins. No place on the way lies behind the mark:
the token looked at is the one at the place, and the one before it the one before the place, but at
the first place. A construct that is read ends behind its first token, unless it is a sequence; if
it fails, the place it is left at is not before its beginning; and after what was tried and given up
reading goes on where that began. -/
theorem parse_goes_forward (t : Token) (ts : List Token)
    (closed : Token.Closed ((t :: ts).map Token.content)) :
    ((∃ x d, parse (t :: ts) = .ok x ∧ ∀ n, ts.length < n →
        program n (.ofTokens t ts) = .done x d ∧
        (Walk.program n (t :: ts) 0).arrival = .done () d.index) ∨
      ∃ e, parse (t :: ts) = .error ⟨e.expected, e.found.span, e.trailing⟩ ∧ ∀ n, ts.length < n →
        program n (.ofTokens t ts) = .failed e ∧
        ∃ j, (Walk.program n (t :: ts) 0).arrival = .failed j ∧ j ≤ e.index) ∧
    (∀ n, ts.length < n →
      (∀ i, i = 0 ∨ .comes i ∈ (Walk.program n (t :: ts) 0).events →
        i ≤ ts.length ∧ Walk.peek (t :: ts) i = (t :: ts)[i]? ∧
        Walk.previous (t :: ts) i = (t :: ts)[i - 1]?) ∧
      (∀ r i j, .reads r i j ∈ (Walk.program n (t :: ts) 0).events →
        i ≤ j ∧ (r ≠ .sequence → i < j)) ∧
      (∀ r i j, .fails r i j ∈ (Walk.program n (t :: ts) 0).events → i ≤ j) ∧
      (∀ i j k, .givesUp i j k ∈ (Walk.program n (t :: ts) 0).events → i ≤ j ∧ k = i) ∧
      ∀ q ∈ Walk.readings n, ∀ c : Cursor, c.Stands (t :: ts) →
        (∃ x d, q.2 c = .done x d ∧ (q.1 (t :: ts) c.index).arrival = .done () d.index ∧
          d.Stands (t :: ts) ∧ c.index < d.index) ∨
        ∃ e j, q.2 c = .failed e ∧ (q.1 (t :: ts) c.index).arrival = .failed j ∧
          c.index ≤ j ∧ j ≤ e.index) ∧
    ∀ (p : Rule Tree) (c d : Cursor), attempt p c = .done none d →
      { d with abandoned := c.abandoned } = c := by
  refine ⟨?_, fun n more => ?_, fun p c d tried => ?_⟩
  · rcases (program_ends closed (Nat.lt_succ_self ts.length)).1 with
      ⟨x, d, read, -⟩ | ⟨e, j, fails, -⟩
    · refine .inl ⟨x, d, by rw [parse, read], fun n more => ?_⟩
      have same := (program_steps closed more).trans read
      exact ⟨same, arrival_of_done closed more same⟩
    · refine .inr ⟨e, by rw [parse, fails], fun n more => ?_⟩
      have same := (program_steps closed more).trans fails
      exact ⟨same, arrival_of_failed closed more same⟩
  · have forward := (program_ends closed more).2
    refine ⟨fun i came => ?_, fun r i j read => ?_, fun r i j fails => forward _ fails,
      fun i j k given => forward _ given, fun q mem c stands => ?_⟩
    · have within : i < (t :: ts).length := by
        rcases came with rfl | came
        · exact Nat.succ_pos _
        · exact forward _ came
      exact ⟨Nat.le_of_lt_succ within, Walk.peek_eq within, Walk.previous_eq within⟩
    · have least : i + r.least ≤ j := forward _ read
      refine ⟨by omega, fun other => ?_⟩
      rw [Construct.least, if_neg other] at least
      exact least
    · have tracks := Walk.readings_follows closed mem c stands
      rcases (tracks.ends (by rw [List.length_cons]; omega)).1 with
        ⟨x, d, read, arrival, stands', further⟩ | ended
      · exact .inl ⟨x, d, read, arrival, stands', further⟩
      · exact .inr ended
  · unfold attempt at tried
    cases read : p c with
    | failed e =>
      rw [read] at tried
      cases tried
      rfl
    | _ => rw [read] at tried; cases tried

/-- The tokens of `IF 1 THEN RETURN (1, 2)`, all in one place: the value of the `RETURN` is given up
at the comma, and read again as the arguments of a call. -/
theorem parse_goes_forward_givenUp : ∃ t ts, Token.Closed ((t :: ts).map Token.content) ∧
    (∃ x d, parse (t :: ts) = .ok x ∧ program 10 (.ofTokens t ts) = .done x d ∧ d.index = 9) ∧
    .givesUp 4 6 4 ∈ (Walk.program 10 (t :: ts) 0).events ∧
    .reads .call 0 9 ∈ (Walk.program 10 (t :: ts) 0).events ∧
    ∀ i, .comes i ∈ (Walk.program 10 (t :: ts) 0).events → i ≤ 9 := by
  let place (x : Token.Content) : Token := ⟨x, ⟨⟨"call", ""⟩, .origin, .origin⟩⟩
  let behind : List Token.Content := [.int 1, .keyword .THEN, .keyword .RETURN, .symbol .leftParen,
    .int 1, .symbol .comma, .int 2, .symbol .rightParen, .eof]
  have closed : Token.Closed ((place (.keyword .IF) :: behind.map place).map Token.content) := by
    simp [place, behind, Token.Closed]
  have whole : (Walk.program 10 (place (.keyword .IF) :: behind.map place) 0).arrival =
      .done () 9 := by decide +kernel
  obtain ⟨read | fails, forward, -⟩ := parse_goes_forward _ _ closed
  · obtain ⟨x, d, read, steps⟩ := read
    obtain ⟨done, arrival⟩ := steps 10 (by decide)
    have index : d.index = 9 := (Arrival.done.inj (arrival.symm.trans whole)).2
    refine ⟨_, _, closed, ⟨x, d, read, done, index⟩, by decide +kernel, by decide +kernel, ?_⟩
    exact fun i came => ((forward 10 (by decide)).1 i (.inr came)).1
  · obtain ⟨e, -, steps⟩ := fails
    obtain ⟨-, j, arrival, -⟩ := steps 10 (by decide)
    rw [whole] at arrival
    cases arrival

end ScriptLang
