import ScriptLang.Proofs.Blame.Grammar
import Mathlib.Data.List.InsertIdx

/-! What a syntax error says is true. It is about a token of the text and names other tokens; with
one of them in its place the text is read further. And the token itself could not have stood there,
whatever follows it, unless it begins the value of a `RETURN` that cannot be read. -/
namespace ScriptLang

open Grammar Rule

namespace Grammar

variable {fuel : Nat} {c d : Cursor} {e : Failure}

theorem program_lost {W : Drift} (h : W.Lost W.Halted (statements fuel (level fuel) c))
    (fails : program fuel c = .failed e) : W.Fails e.index := by
  cases read : statements fuel (level fuel) c with
  | spent =>
    rw [show program fuel c = .spent from bind_spent read] at fails
    cases fails
  | failed f =>
    rw [read] at h
    rw [show program fuel c = .failed f from bind_failed read] at fails
    cases fails
    exact h.2
  | done a d =>
    rw [read] at h
    rw [program_eq read] at fails
    rcases h with passed | halted
    · split at fails
      · cases fails
      · cases fails
        have moves : (.failed (d.deeper.getD (leftOver a.2 d)) : Outcome Tree).Forward W.tokens
            d.index 0 := deeper_forward passed.1 passed.1.current rfl
        exact W.beyond (Nat.lt_of_lt_of_le passed.2 moves.2)
    · obtain ⟨f, deeper, -, lost⟩ := halted.deeper_eq
      have more : d.kind ≠ .eof := fun eof => by simpa [eof, expressionStart] using halted.starts
      rw [if_neg more, deeper] at fails
      cases fails
      exact lost

theorem program_forks {J : Fork} (cursors : c.Forks J d) (fails : program fuel c = .failed e)
    (at_ : e.index = J.edge) (fuel' : Nat) :
    (J.there.kind ∈ e.expected → ∀ f, program fuel' d = .failed f → J.edge < f.index) ∧
      (¬ J.Parts → ∀ t d', program fuel' d ≠ .done t d') := by
  have statements_ : Rule.Forks J Drift.Halted Prod.snd (statements fuel (level fuel))
      (statements fuel' (level fuel')) := statements_forks (level_forks J fuel fuel' .expression)
  have forks := statements_.forks c d cursors
  generalize left : statements fuel (level fuel) c = o at forks
  generalize right : statements fuel' (level fuel') d = o' at forks
  cases forks with
  | @done read read' c' d' same cursors' =>
    have same : read.2 = read'.2 := same
    rw [program_eq left] at fails
    rw [program_eq right]
    split at fails
    · cases fails
    next more =>
    cases fails
    by_cases eof : d'.kind = .eof
    · rw [if_pos eof]
      refine ⟨fun _ _ => nofun, fun joined => ?_⟩
      have other : c'.kind ≠ d'.kind := fun is => more (is.trans eof)
      rcases Nat.lt_or_eq_of_le cursors'.le with less | reached
      · exact absurd (cursors'.kind less) other
      · exact absurd (cursors'.parts reached other) joined
    · rw [if_neg eof]
      refine ⟨fun asked f fails => ?_, fun _ _ _ => nofun⟩
      cases fails
      have stops := statements_ends J.rightEnds (level_begins J.rightEnds fuel') cursors.right right
      have out (none : d'.deeper = none) : d'.kind ∉ (leftOver read.2 c').expected := by
        have notNewline := stops.unseparated
        rw [same]
        exact stops.out (by simp [notNewline, eof]) none
      have failures := (cursors'.deeper (e := leftOver read.2 c') (f := leftOver read'.2 d') rfl rfl
        cursors'.left.current cursors'.right.current fun _ => out).2.2
      cases failures with
      | before _ less => omega
      | beyond less => omega
      | edge _ past => exact past asked
  | @failed e' f' _ _ failures =>
    rw [show program fuel c = .failed e' from bind_failed left] at fails
    rw [show program fuel' d = .failed f' from bind_failed right]
    cases fails
    refine ⟨fun asked f fails => ?_, fun _ _ _ => nofun⟩
    cases fails
    cases failures with
    | before _ less => omega
    | beyond less => omega
    | edge _ past => exact past asked
  | stray h =>
    rw [← left] at h
    exact absurd at_ (program_lost h fails).2
  | blocked parts h past =>
    rw [program_eq right, if_pos (past.eof parts)]
    exact ⟨fun _ _ => nofun, fun joined => absurd parts joined⟩
  | stopped parts closes poised index h =>
    rw [← right] at h
    exact ⟨fun _ f fails => program_lost h fails, fun joined => absurd parts joined⟩
  | spent =>
    rw [show program fuel' d = .spent from bind_spent right]
    exact ⟨fun _ _ => nofun, fun _ _ _ => nofun⟩

end Grammar

/-- The error is about the token with number `i`. -/
def SyntaxError.At (ts : List Token) (i : Nat) (e : SyntaxError) : Prop :=
  ∃ t, ts[i]? = some t ∧ e.span = t.span

theorem parse_reading {ts : List Token} (ends : Token.Terminated ts) :
    ∃ c : Cursor, c.Poised ts ∧ c.index = 0 ∧ c.abandoned = none ∧
      ((∃ n d, program ts.length c = .done n d ∧ parse ts = .ok n) ∨
        ∃ f : Failure, program ts.length c = .failed f ∧ f.At ts ∧ f.Honest ∧
          parse ts = .error ⟨f.expected, f.found.span, f.trailing⟩) := by
  cases ts with
  | nil =>
    obtain ⟨front, last, eq, -⟩ := ends.ending
    cases front <;> cases eq
  | cons t rest =>
    have poised : (Cursor.ofTokens t rest).Poised (t :: rest) := ⟨.ofTokens t rest, nofun⟩
    refine ⟨.ofTokens t rest, poised, rfl, rfl, ?_⟩
    have moves := program_proceeds ends (t :: rest).length _ poised
    rw [parse, ← List.length_cons (a := t)]
    generalize program (t :: rest).length (.ofTokens t rest) = o at moves
    cases o with
    | done n d => exact .inl ⟨n, d, rfl, rfl⟩
    | failed f => exact .inr ⟨f, rfl, moves.1, moves.2.2, rfl⟩
    | spent =>
      have less : 0 + (t :: rest).length < (t :: rest).length := moves
      omega

theorem Token.Ascending.index_eq {ts : List Token} (h : Token.Ascending ts) {i j : Nat}
    {t u : Token} (ht : ts[i]? = some t) (hu : ts[j]? = some u) (same : t.span = u.span) :
    i = j := by
  have before := h.offset_lt_iff ht hu
  have after := h.offset_lt_iff hu ht
  rw [same] at before after
  omega

theorem Fork.judged (J : Fork) {e : SyntaxError} (fails : parse J.left = .error e)
    (place : e.At J.left J.edge) :
    (J.there.kind ∈ e.expected → (∃ n, parse J.right = .ok n) ∨
      ∃ e' j, J.edge < j ∧ parse J.right = .error e' ∧ e'.At J.right j) ∧
    (¬ J.Parts → ∃ e', parse J.right = .error e') := by
  obtain ⟨c, poised, start, none, ⟨n, c', -, read⟩ | ⟨f, read, at_, -, eq⟩⟩ :=
    parse_reading J.leftEnds
  · rw [read] at fails
    cases fails
  rw [eq] at fails
  cases fails
  obtain ⟨t, found, span⟩ := place
  have edge : f.index = J.edge := J.leftEnds.ascending.index_eq at_ found span
  obtain ⟨d, poised', start', none', reading⟩ := parse_reading J.rightEnds
  have abandoned : Option.Rel (Failure.Forks J) c.abandoned d.abandoned := by
    rw [none, none']
    exact .none
  have cursors : c.Forks J d := ⟨poised, poised', by omega, by omega, abandoned⟩
  obtain ⟨further, refused⟩ := program_forks cursors read edge J.right.length
  rcases reading with ⟨n, d', done, parsed⟩ | ⟨f', failed, at_', -, parsed⟩
  · exact ⟨fun _ => .inl ⟨n, parsed⟩, fun joined => absurd done (refused joined n d')⟩
  · exact ⟨fun asked => .inr ⟨_, f'.index, further asked f' failed, parsed, f'.found, at_', rfl⟩,
      fun _ => ⟨_, parsed⟩⟩

def Fork.replacing {ts : List Token} {i : Nat} {t : Token} (ends : Token.Terminated ts)
    (found : ts[i]? = some t) {u : Token} {rest : List Token}
    (other : Token.Terminated (ts.take i ++ u :: rest)) (short : ∀ z ∈ rest, z.kind = .eof) :
    Fork where
  left := ts
  right := ts.take i ++ u :: rest
  edge := i
  here := t
  there := u
  same {j} less := by
    have within := (List.getElem?_eq_some_iff.1 found).1
    rw [List.getElem?_append_left (by rw [List.length_take]; omega), List.getElem?_take_of_lt less]
  here_at := found
  there_at := by
    have within := (List.getElem?_eq_some_iff.1 found).1
    rw [List.getElem?_append_right (by rw [List.length_take]; omega), List.length_take]
    simp [Nat.min_eq_left (Nat.le_of_lt within)]
  leftEnds := ends
  rightEnds := other
  near _ {j z} more at_ := by
    apply short z
    have within := (List.getElem?_eq_some_iff.1 found).1
    rw [List.getElem?_append_right (by rw [List.length_take]; omega), List.length_take] at at_
    obtain ⟨k, eq⟩ : ∃ k, j - min i ts.length = k + 1 := ⟨j - i - 1, by omega⟩
    rw [eq, List.getElem?_cons_succ] at at_
    exact List.mem_of_getElem? at_

theorem exists_error (source : Source) (test : List Token → SyntaxError → Bool)
    (found : (scan source).toOption.any (fun ts => match parse ts with
      | .ok _ => false
      | .error e => test ts e) = true) :
    ∃ ts e, scan source = .ok ts ∧ parse ts = .error e ∧ test ts e = true := by
  cases scanned : scan source with
  | error e =>
    rw [scanned] at found
    cases found
  | ok ts =>
    rw [scanned] at found
    change (match parse ts with
      | .ok _ => false
      | .error e => test ts e) = true at found
    cases read : parse ts with
    | ok n =>
      rw [read] at found
      cases found
    | error e =>
      rw [read] at found
      exact ⟨ts, e, rfl, read, found⟩

/-- What may stand behind these tokens: with the end of the text behind it they are a program, or
the error is further on. -/
def Acceptable (before : List Token) (x : Token.Kind) : Prop :=
  if x = .eof then ∀ z : Token, z.kind = .eof → Token.Ascending (before ++ [z]) →
    ∃ n, parse (before ++ [z]) = .ok n
  else ∀ u z : Token, u.kind = x → z.kind = .eof → Token.Ascending (before ++ [u, z]) →
    (∃ n, parse (before ++ [u, z]) = .ok n) ∨
      ∃ e j, before.length < j ∧ parse (before ++ [u, z]) = .error e ∧ e.At (before ++ [u, z]) j

theorem acceptable_of_expected {ts : List Token} (ends : Token.Terminated ts) {e : SyntaxError}
    (fails : parse ts = .error e) {i : Nat} (place : e.At ts i) {x : Token.Kind}
    (asked : x ∈ e.expected) : Acceptable (ts.take i) x := by
  obtain ⟨t, found, span⟩ := place
  have length : (ts.take i).length = i :=
    List.length_take_of_le (Nat.le_of_lt (List.getElem?_eq_some_iff.1 found).1)
  have judged {u : Token} {rest : List Token} (is : u.kind = x)
      (other : Token.Terminated (ts.take i ++ u :: rest)) (short : ∀ z ∈ rest, z.kind = .eof) :=
    ((Fork.replacing ends found other short).judged fails ⟨t, found, span⟩).1 (is ▸ asked)
  unfold Acceptable
  split
  · next eof =>
    intro z is order
    have closed : Token.Terminated (ts.take i ++ [z]) := ⟨order, _, z, rfl, is⟩
    apply (judged (is.trans eof.symm) closed nofun).resolve_right
    rintro ⟨e', j, more, -, t', at_, -⟩
    -- there is no token behind the end
    have within := (List.getElem?_eq_some_iff.1 at_).1
    have more : i < j := more
    simp only [Fork.replacing, List.length_append, length, List.length_singleton] at within
    omega
  · intro u z is eof order
    have closed : Token.Terminated (ts.take i ++ [u, z]) :=
      ⟨order, ts.take i ++ [u], z, by simp, eof⟩
    rw [length]
    exact judged is closed (by simpa using eof)

/-- A syntax error is about a token of the text. It names some kinds of tokens, that of the token
not among them, and each of them is acceptable in its place. -/
theorem error_expected {source : Source} {ts : List Token} {e : SyntaxError}
    (scanned : scan source = .ok ts) (fails : parse ts = .error e) :
    ∃ i t, ts[i]? = some t ∧ e.span = t.span ∧ e.expected ≠ [] ∧ t.kind ∉ e.expected ∧
      ∀ x ∈ e.expected, Acceptable (ts.take i) x := by
  have ends := (ended_of_scan scanned).terminated
  obtain ⟨-, -, -, -, ⟨n, -, -, read⟩ | ⟨f, -, place, honest, eq⟩⟩ := parse_reading ends
  · rw [read] at fails
    cases fails
  have error := fails
  rw [eq] at error
  cases error
  exact ⟨f.index, f.found, place, rfl, honest.1, honest.2,
    fun x asked => acceptable_of_expected ends fails ⟨f.found, place, rfl⟩ asked⟩

/-- Two arguments with nothing between them: a comma is asked for, or the parenthesis. -/
theorem error_expected_argument : ∃ ts e i t, scan ⟨"call", "f(1 2)"⟩ = .ok ts ∧
    parse ts = .error e ∧ e.expected = [.symbol .comma, .symbol .rightParen] ∧ ts[i]? = some t ∧
    e.span = t.span ∧ e.expected ≠ [] ∧ t.kind ∉ e.expected ∧
    ∀ x ∈ e.expected, Acceptable (ts.take i) x := by
  have ⟨ts, e, scanned, fails, found⟩ := exists_error ⟨"call", "f(1 2)"⟩
    (fun _ e => e.expected = [.symbol .comma, .symbol .rightParen]) (by decide +kernel)
  have ⟨i, t, told⟩ := error_expected scanned fails
  exact ⟨ts, e, i, t, scanned, fails, of_decide_eq_true found, told⟩

def Fork.sharing {ts us : List Token} {i : Nat} {t : Token} (ends : Token.Terminated ts)
    (other : Token.Terminated us) (found : ts[i]? = some t)
    (same : us.take (i + 1) = ts.take (i + 1)) (settled : ¬ Token.Dangling ts i) : Fork where
  left := ts
  right := us
  edge := i
  here := t
  there := t
  same {j} less := by
    rw [← List.getElem?_take_of_lt (show j < i + 1 by omega), ← same,
      List.getElem?_take_of_lt (by omega)]
  here_at := found
  there_at := by
    rw [← List.getElem?_take_of_lt (Nat.lt_succ_self i), same,
      List.getElem?_take_of_lt (Nat.lt_succ_self i), found]
  leftEnds := ends
  rightEnds := other
  near parts := by
    rcases parts with differs | dangles
    · exact absurd rfl differs
    · exact absurd dangles settled

/-- No tokens that agree with those of the text up to the one that the error is about are a
program, unless a `RETURN` stands before it whose value cannot be read. -/
theorem refused_token {source : Source} {ts : List Token} {e : SyntaxError}
    (scanned : scan source = .ok ts) (fails : parse ts = .error e) :
    ∃ i, e.At ts i ∧ (¬ Token.Dangling ts i → ∀ us, Token.Terminated us →
      us.take (i + 1) = ts.take (i + 1) → ∃ e', parse us = .error e') := by
  have ends := (ended_of_scan scanned).terminated
  obtain ⟨-, -, -, -, ⟨n, -, -, read⟩ | ⟨f, -, found, -, eq⟩⟩ := parse_reading ends
  · rw [read] at fails
    cases fails
  have error := fails
  rw [eq] at error
  cases error
  have place : SyntaxError.At ts f.index ⟨f.expected, f.found.span, f.trailing⟩ :=
    ⟨f.found, found, rfl⟩
  refine ⟨f.index, place, ?_⟩
  intro settled us other same
  apply ((Fork.sharing ends other found same settled).judged fails place).2
  rintro (differs | dangles)
  · exact differs rfl
  · exact settled dangles

/-- No text that begins with `f(1 2` is a program. -/
theorem refused_token_argument : ∃ ts e i, scan ⟨"call", "f(1 2)"⟩ = .ok ts ∧
    parse ts = .error e ∧ e.At ts i ∧ ∀ us, Token.Terminated us →
      us.take (i + 1) = ts.take (i + 1) → ∃ e', parse us = .error e' := by
  have ⟨ts, e, scanned, fails, found⟩ := exists_error ⟨"call", "f(1 2)"⟩
    (fun ts _ => ts.all (·.kind ≠ .keyword .RETURN)) (by decide +kernel)
  have ⟨i, place, refused⟩ := refused_token scanned fails
  have settled : ¬ Token.Dangling ts i := by
    rintro ⟨⟨j, t, -, before, returns⟩, -⟩
    exact of_decide_eq_true (List.all_eq_true.1 found t (List.mem_of_getElem? before)) returns
  exact ⟨ts, e, i, scanned, fails, place, refused settled⟩

/-- The value of a `RETURN` in parentheses fails at its second number, but the error is about the
bracket before it. Without the second number the text is a program. -/
theorem list_blamed_for_number : ∃ ts us e i n,
    scan ⟨"<stdin>", "(IF 1 THEN RETURN [1 2])"⟩ = .ok ts ∧ parse ts = .error e ∧ e.At ts i ∧
    Token.Terminated us ∧ us.take (i + 1) = ts.take (i + 1) ∧ parse us = .ok n := by
  have ⟨ts, e, scanned, fails, found⟩ := exists_error ⟨"<stdin>", "(IF 1 THEN RETURN [1 2])"⟩
    (fun ts e => ts[5]?.map Token.span = some e.span ∧ ts.length = 11 ∧
      (parse (ts.eraseIdx 7)).toOption.isSome = true) (by decide +kernel)
  have ⟨span, length, whole⟩ := of_decide_eq_true found
  obtain ⟨t, place, eq⟩ := Option.map_eq_some_iff.1 span
  have ends := (ended_of_scan scanned).terminated
  obtain ⟨front, last, rfl, eof⟩ := ends.ending
  have within : 7 < front.length := by
    rw [List.length_append, List.length_singleton] at length
    omega
  have shorter : (front ++ [last]).eraseIdx 7 = front.eraseIdx 7 ++ [last] :=
    List.eraseIdx_append_of_lt_length within _
  have closed : Token.Terminated ((front ++ [last]).eraseIdx 7) :=
    ⟨ends.ascending.sublist (List.eraseIdx_sublist _ _), _, last, shorter, eof⟩
  have same : ((front ++ [last]).eraseIdx 7).take 6 = (front ++ [last]).take 6 :=
    List.take_eraseIdx_eq_take_of_le _ 6 7 (by decide)
  cases read : parse ((front ++ [last]).eraseIdx 7) with
  | error e' =>
    rw [read] at whole
    cases whole
  | ok n => exact ⟨_, _, e, 5, n, scanned, fails, ⟨t, place, eq.symm⟩, closed, same, read⟩

end ScriptLang
