import ScriptLang.Proofs.Layout
import ScriptLang.Proofs.Separator.Grammar
import ScriptLang.Proofs.Sequence
import ScriptLang.Proofs.Token.Pending

/-! Comments at the end of a line. A comment reaches up to the end of its line and takes the line
end with it, so that a separator is lost with every comment that is put behind something. This is
all that such a comment changes. Programs that have another separator there, or no use for one, are
the same with the comment, and a line end of its own makes any comment harmless. -/
namespace ScriptLang

variable {σ : Type}

open Grammar

/-- A separator between `front` and `back` that says nothing: at the beginning, beside another
separator, at the end, or before what closes a block, unless it is there that a body begins or
ends. -/
inductive Token.Redundant (front back : List Token.Content) : Prop where
  | opening (start : LineStart front)
  | doubled (next : back.head? = some .newline)
  | last (next : back.head? = some .eof)
  | closing {x : Token.Content} (next : back.head? = some x) (ends : x.kind ∈ closers)
    (free : ¬ BodyOpen front)

namespace Token

variable {front back : List Content}

theorem Closed.tail {x : Content} {xs : List Content} (h : Closed (x :: xs)) (more : x ≠ .eof) :
    Closed xs := by
  cases xs with
  | nil => exact absurd h more
  | cons y ys => exact h.2

theorem LineStart.exists_spare (start : LineStart front) (inner : .eof ∉ front)
    (closed : Closed back) :
    ∃ J : Spare, J.long = front ++ .newline :: back ∧ J.short = front ++ back := by
  refine ⟨⟨front, back, inner, closed, front.length, Nat.le_refl _, Nat.le_succ _, fun _ => start,
    ?_, ?_⟩, rfl, rfl⟩
  · intro x eq
    omega
  · intro x eq
    omega

theorem Redundant.exists_spare (h : Redundant front back) (inner : .eof ∉ front)
    (closed : Closed back) :
    ∃ J : Spare, J.long = front ++ .newline :: back ∧ J.short = front ++ back := by
  have ofNext {x : Content} (next : back.head? = some x) (ends : x.kind ∈ Token.ends)
      (free : x.kind ≠ .eof → ¬ BodyOpen front) :
      ∃ J : Spare, J.long = front ++ .newline :: back ∧ J.short = front ++ back := by
    refine ⟨⟨front, back, inner, closed, front.length + 1, Nat.le_succ _, Nat.le_refl _, ?_, ?_,
      ?_⟩, rfl, rfl⟩
    · intro eq
      omega
    · rintro y - mem
      rwa [Option.mem_unique mem next]
    · rintro y - mem more
      rw [Option.mem_unique mem next] at more
      exact free more
  cases h with
  | opening start => exact start.exists_spare inner closed
  | doubled next =>
    obtain ⟨rest, rfl⟩ := List.head?_eq_some_iff.1 next
    -- the second of two separators can as well be spared
    have start : LineStart (front ++ [.newline]) := .inr (by simp)
    obtain ⟨J, long, short⟩ := start.exists_spare (by simpa using inner) (closed.tail nofun)
    exact ⟨J, by simpa using long, by simpa using short⟩
  | last next => exact ofNext next (by decide) fun more => absurd rfl more
  | closing next ends free => exact ofNext next (.tail _ ends) fun _ => free

end Token

def Phrase.Starts (cs : List Token.Content) : Prop := ∃ x ∈ cs.head?, x.kind ∈ statementStart

namespace Phrase

theorem Starts.append {cs : List Token.Content} (h : Starts cs) (ds : List Token.Content) :
    Starts (cs ++ ds) := by
  obtain ⟨x, first, start⟩ := h
  exact ⟨x, by rw [List.head?_append, first]; rfl, start⟩

theorem Atom.starts {cs : List Token.Content} {n : Node Unit} (h : Atom cs n) : Starts cs := by
  cases h <;> exact ⟨_, rfl, by simp [Token.Content.kind, statementStart, expressionStart]⟩

theorem Call.starts {cs : List Token.Content} {n : Node Unit} : Call cs n → Starts cs
  | .atom h => h.starts
  | .call callee _ => by simpa using callee.starts.append _

theorem Power.starts {cs : List Token.Content} {n : Node Unit} : Power cs n → Starts cs
  | .one h => h.starts
  | .more left _ _ => left.starts.append _

theorem Factor.starts {cs : List Token.Content} {n : Node Unit} : Factor cs n → Starts cs
  | .plus _ => ⟨_, rfl, by decide⟩
  | .minus _ => ⟨_, rfl, by decide⟩
  | .power h => h.starts

theorem Term.starts {cs : List Token.Content} {n : Node Unit} : Term cs n → Starts cs
  | .one h => h.starts
  | .more left _ _ => left.starts.append _

theorem Arithmetic.starts {cs : List Token.Content} {n : Node Unit} : Arithmetic cs n → Starts cs
  | .one h => h.starts
  | .more left _ _ => left.starts.append _

theorem Chain.starts {cs : List Token.Content} {n : Node Unit} : Chain cs n → Starts cs
  | .one h => h.starts
  | .more left _ _ => left.starts.append _

theorem Comparison.starts {cs : List Token.Content} {n : Node Unit} : Comparison cs n → Starts cs
  | .not _ => ⟨_, rfl, by decide⟩
  | .chain h => h.starts

theorem Logic.starts {cs : List Token.Content} {n : Node Unit} : Logic cs n → Starts cs
  | .one h => h.starts
  | .more left _ _ => left.starts.append _

theorem Expression.starts {cs : List Token.Content} {n : Node Unit} : Expression cs n → Starts cs
  | .assign _ _ => ⟨_, rfl, by decide⟩
  | .logic h => h.starts

theorem Statement.starts {cs : List Token.Content} {n : Node Unit} : Statement cs n → Starts cs
  | .returns => ⟨_, rfl, by decide⟩
  | .returnsValue _ => ⟨_, rfl, by decide⟩
  | .continues => ⟨_, rfl, by decide⟩
  | .breaks => ⟨_, rfl, by decide⟩
  | .expression h => h.starts
end Phrase

theorem Token.not_bodyOpen {front : List Token.Content}
    (blocks : ∀ k ∈ [Keyword.THEN, .ELSE], ∀ line, .keyword k :: line <:+ front →
      line.head? = some .newline)
    (other : front.getLast? ≠ some (.symbol .rightParen)) : ¬ BodyOpen front := by
  intro h
  cases h with
  | begins head behind => cases blocks _ head [] behind
  | inline head behind statement =>
    obtain ⟨x, first, start⟩ := statement.starts
    cases Option.some.inj (first.symm.trans (blocks _ head _ behind))
    revert start
    decide
  | function name params behind =>
    obtain ⟨lead, rfl⟩ := behind
    exact other (by rw [← List.append_assoc, List.getLast?_concat])

namespace Scanner

variable {a b : Source} {s t k : Scanner} {c : Char}

theorem reaches_comment (mode : s.mode = .comment) {cs : List Char} (line : '\n' ∉ cs) :
    s.Reaches a (cs ++ ['\n']) .idle (s.tokens.map Token.content) := by
  have step (c : Char) : s.step a c = .ok (s.enter c (if c = '\n' then .idle else .comment)) := by
    unfold Scanner.step
    rw [mode]
  induction cs generalizing s with
  | nil => exact .cons (step '\n') ⟨_, rfl, rfl, rfl⟩
  | cons c cs ih =>
    have other : c ≠ '\n' := fun eq => line (by simp [eq])
    refine .cons (step c) ?_
    rw [if_neg other]
    exact ih (s := s.enter c .comment) rfl (fun mem => line (by simp [mem])) fun c => by
      unfold Scanner.step
      rfl

theorem Mode.Same.outside {m n : Mode} (h : m.Same n) (outside : m.Outside) : n.Outside := by
  cases h <;> exact outside

theorem run_alike {cs : List Char} (ran : initial.run a cs = .ok s) (b : Source) :
    ∃ t, initial.run b cs = .ok t ∧ After [] [] s t :=
  After.run ⟨.idle, [], rfl, rfl⟩ ran

theorem run_lineEnd (outside : s.mode.Outside) {cs : List Char}
    (ran : s.run a ('\n' :: cs) = .ok t) :
    ∃ k r : Scanner, s.close a = .ok k ∧ r.run a cs = .ok t ∧ r.mode = .idle ∧
      r.tokens.map Token.content = .newline :: k.tokens.map Token.content := by
  cases stepped : s.step a '\n' with
  | error e =>
    unfold Scanner.run at ran
    rw [List.foldlM_cons, stepped] at ran
    cases ran
  | ok r =>
    rw [run_cons stepped] at ran
    obtain ⟨k, closed, started⟩ := (step_eq_ok outside (by simp)).1 stepped
    cases started
    exact ⟨k, _, closed, ran, rfl, rfl⟩

theorem reaches_commented {cs note : List Char} (ran : initial.run a cs = .ok s)
    (outside : s.mode.Outside) (closed : s.close a = .ok k) (line : '\n' ∉ note) (b : Source) :
    initial.Reaches b (cs ++ '#' :: (note ++ ['\n'])) .idle (k.tokens.map Token.content) := by
  obtain ⟨t, ran', after⟩ := run_alike ran b
  obtain ⟨k', closed', after'⟩ := after.close (b := b) closed
  have found : k'.tokens.map Token.content = k.tokens.map Token.content := by
    simpa using after'.onto
  have begun : t.step b '#' = .ok (k'.enter '#' .comment) :=
    (step_eq_ok (after.mode.outside outside) (by simp)).2 ⟨k', closed', rfl⟩
  have commented : t.Reaches b ('#' :: (note ++ ['\n'])) .idle (k.tokens.map Token.content) := by
    rw [← found]
    exact .cons begun (reaches_comment rfl line)
  obtain ⟨r, ran'', reached⟩ := commented
  exact ⟨r, by rw [run_append, ran']; exact ran'', reached⟩

theorem reaches_lineEnd (idle : s.mode = .idle) :
    s.Reaches a ['\n'] .idle (.newline :: s.tokens.map Token.content) := by
  obtain ⟨t, started, reached⟩ := start_lineEnd (a := a) s
  have stepped : s.step a '\n' = .ok t := by
    unfold Scanner.step
    rw [idle]
    exact started
  exact ⟨t, run_cons stepped [], reached⟩

theorem Reaches.scan {cs ds : List Char} {old new : List Token.Content} {q r : Scanner}
    (begun : initial.Reaches b cs .idle new) (idle : s.mode = .idle)
    (found : s.tokens.map Token.content = old) (ran : s.run a ds = .ok q)
    (closed : q.close a = .ok r) (text : b.text.toList = cs ++ ds) :
    ∃ us read, ScriptLang.scan b = .ok us ∧ r.tokens.map Token.content = read ++ old ∧
      us.map Token.content = (read ++ new).reverse ++ [.eof] := by
  obtain ⟨t, begun, idle', found'⟩ := begun
  have after : After old new s t := ⟨by rw [idle, idle']; exact .idle, [], found, found'⟩
  obtain ⟨t₁, ran', after₁⟩ := after.run (b := b) ran
  obtain ⟨t₂, closed', after₂⟩ := after₁.close (b := b) closed
  obtain ⟨read, left, right⟩ := after₂.tokens
  have whole : initial.run b b.text.toList = .ok t₁ := by
    rw [text, run_append, begun]
    exact ran'
  obtain ⟨us, scanned, contents⟩ := scan_of_run whole closed'
  exact ⟨us, read, scanned, left, by rw [contents, right]⟩

end Scanner

/-- A reading of the text ends outside string literals and comments. -/
def Source.EndsOutside (a : Source) : Prop :=
  ∃ s, Scanner.initial.run a a.text.toList = .ok s ∧ s.mode.Outside

open Scanner in
/-- With a comment before it, a line end is no separator, but what follows is scanned as before; a
line end behind the comment makes up for it. -/
theorem scan_commented {a b : Source} (c d : Source) (after : List Char) {note : List Char}
    (outside : a.EndsOutside) (line : '\n' ∉ note)
    (plain : b.text.toList = a.text.toList ++ '\n' :: after)
    (commented : c.text.toList = a.text.toList ++ '#' :: (note ++ '\n' :: after))
    (ended : d.text.toList = a.text.toList ++ '#' :: (note ++ '\n' :: '\n' :: after))
    {ts : List Token} (scanned : scan b = .ok ts) :
    ∃ fs us vs front back, scan a = .ok fs ∧ fs.map Token.content = front ++ [.eof] ∧
      ts.map Token.content = front ++ .newline :: back ∧
      scan c = .ok us ∧ us.map Token.content = front ++ back ∧
      scan d = .ok vs ∧ vs.map Token.content = ts.map Token.content := by
  obtain ⟨s, ran, outside⟩ := outside
  obtain ⟨s₁, ran₁, after₁⟩ := run_alike ran b
  have outside₁ := after₁.mode.outside outside
  obtain ⟨q, q', whole, closed', contents⟩ := scan_eq_ok scanned
  rw [plain, run_append, ran₁] at whole
  obtain ⟨k, r, closed, rest, idle, found⟩ := run_lineEnd outside₁ whole
  -- before the line end, and before the comment, all the texts are read alike
  obtain ⟨sa, ranA, afterA⟩ := run_alike ran₁ a
  obtain ⟨ka, closedA, afterA'⟩ := afterA.close (b := a) closed
  obtain ⟨fs, scannedA, contentsA⟩ := scan_of_run ranA closedA
  have reached := reaches_commented ran₁ outside₁ closed line
  have reachedD := (reached d).append fun t idle found => found ▸ reaches_lineEnd idle
  obtain ⟨us, read, scannedC, left, right⟩ :=
    (reached c).scan idle found rest closed' (by simp [commented])
  obtain ⟨vs, read', scannedD, left', right'⟩ :=
    reachedD.scan idle found rest closed' (by simp [ended])
  obtain rfl := List.append_cancel_right (left.symm.trans left')
  refine ⟨fs, us, vs, (k.tokens.map Token.content).reverse, read.reverse ++ [.eof], scannedA, ?_,
    ?_, scannedC, ?_, scannedD, ?_⟩
  · rw [contentsA, show ka.tokens.map Token.content = _ by simpa using afterA'.onto]
  · rw [contents, left]
    simp
  · rw [right]
    simp
  · rw [right', contents, left]

theorem Session.run_matches {L : Labelling} (fuel : Nat) (s : Session σ)
    (older : s.machine.store.Older s.machine.frames) {text text' : String} {t u : Tree}
    (first : Source.tree ⟨s.config.sourceName, text⟩ = .ok t)
    (second : Source.tree ⟨s.config.sourceName, text'⟩ = .ok u)
    (same : t.Matches (Mark.Matches false L) u) :
    RunsMatch s.machine.frames (s.run fuel text) (s.run fuel text') := by
  have machines : s.machine.Matches (.loose s.config.maxDepth s.machine.depth)
      (.itself _ (Nat.le_refl _) (Nat.le_refl _)) s.machine :=
    ⟨.ofOlder _ _ older, rfl, rfl, rfl, rfl, rfl⟩
  have ends := Eval.Matches.runTree (Eval.Matches.evaluate (.loose _ _) fuel) same machines
  rw [Session.run_eq first, Session.run_eq second]
  exact .ofEnds s ends

/-- A comment before a line end takes the separator away that the line end was, and changes nothing
else. The program is the same and does the same without a separator that is redundant; and the
comment never matters if it has a line end of its own. -/
theorem separator_lost_to_comment (fuel : Nat) (s : Session σ)
    (older : s.machine.store.Older s.machine.frames) {before note after : String}
    (outside : Source.EndsOutside ⟨s.config.sourceName, before⟩) (line : '\n' ∉ note.toList)
    {t : Tree} (read : Source.tree ⟨s.config.sourceName, before ++ "\n" ++ after⟩ = .ok t) :
    ∃ fs ts us front back, scan ⟨s.config.sourceName, before⟩ = .ok fs ∧
      fs.map Token.content = front ++ [.eof] ∧
      scan ⟨s.config.sourceName, before ++ "\n" ++ after⟩ = .ok ts ∧
      ts.map Token.content = front ++ .newline :: back ∧
      scan ⟨s.config.sourceName, before ++ "#" ++ note ++ "\n" ++ after⟩ = .ok us ∧
      us.map Token.content = front ++ back ∧
      (Token.Redundant front back → ∃ u,
        Source.tree ⟨s.config.sourceName, before ++ "#" ++ note ++ "\n" ++ after⟩ = .ok u ∧
        u.erase = t.erase ∧
        RunsMatch s.machine.frames (s.run fuel (before ++ "\n" ++ after))
          (s.run fuel (before ++ "#" ++ note ++ "\n" ++ after))) ∧
      ∃ v, Source.tree ⟨s.config.sourceName, before ++ "#" ++ note ++ "\n\n" ++ after⟩ = .ok v ∧
        v.erase = t.erase := by
  obtain ⟨ts, scanned, parsed⟩ := Source.tree_eq_ok.1 read
  obtain ⟨fs, us, vs, front, back, scannedA, contentsA, contents, scannedC, contentsC, scannedD,
      contentsD⟩ :=
    scan_commented ⟨s.config.sourceName, before ++ "#" ++ note ++ "\n" ++ after⟩
      ⟨s.config.sourceName, before ++ "#" ++ note ++ "\n\n" ++ after⟩ after.toList outside line
      (by simp) (by simp) (by simp) scanned
  have ended := ended_of_scan scanned
  refine ⟨fs, ts, us, front, back, scannedA, contentsA, scanned, contents, scannedC, contentsC,
    fun redundant => ?_, ?_⟩
  · have inner := eof_not_mem (ended_of_scan scannedA) contentsA
    have closed : Token.Closed back := by
      have whole := Token.closed_of_ended ended
      rw [contents] at whole
      have rest : Token.Closed (.newline :: back) := by
        simpa using whole.drop (i := front.length) (by simp)
      exact rest.tail nofun
    obtain ⟨J, long, short⟩ := redundant.exists_spare inner closed
    obtain ⟨u, parsed', same⟩ := J.parse_eq (contents.trans long.symm) (contentsC.trans short.symm)
      (ended_of_scan scannedC).terminated parsed
    have tree := Source.tree_eq_ok.2 ⟨us, scannedC, parsed'⟩
    exact ⟨u, tree, same.erase_eq.symm, s.run_matches fuel older read tree same⟩
  · have twin : Token.Twin ts vs :=
      ⟨contentsD.symm, ended.ascending, (ended_of_scan scannedD).ascending⟩
    have readings := readings_same twin
    rw [parsed] at readings
    generalize eq : parse vs = x at readings
    cases readings with
    | ok trees => exact ⟨_, Source.tree_eq_ok.2 ⟨vs, scannedD, eq⟩, trees.symm⟩

/-- Behind the `END` of a block in a block there is room for a comment. -/
theorem separator_lost_to_comment_inBlock : ∃ t u,
    Source.tree ⟨"<stdin>", "IF 1 THEN\nWHILE 0 THEN\nEND" ++ "\n" ++ "END"⟩ = .ok t ∧
    Source.tree ⟨"<stdin>", "IF 1 THEN\nWHILE 0 THEN\nEND" ++ "#" ++ " c" ++ "\n" ++ "END"⟩ =
      .ok u ∧
    u.erase = t.erase ∧
    RunsMatch 0
      ((Session.start {} (.memory [] [])).run 20
        ("IF 1 THEN\nWHILE 0 THEN\nEND" ++ "\n" ++ "END"))
      ((Session.start {} (.memory [] [])).run 20
        ("IF 1 THEN\nWHILE 0 THEN\nEND" ++ "#" ++ " c" ++ "\n" ++ "END")) := by
  have checked : (Source.tree ⟨"<stdin>", "IF 1 THEN\nWHILE 0 THEN\nEND" ++ "\n" ++
      "END"⟩).toOption.isSome = true := by decide +kernel
  cases read : Source.tree ⟨"<stdin>", "IF 1 THEN\nWHILE 0 THEN\nEND" ++ "\n" ++ "END"⟩ with
  | error e => rw [read] at checked; cases checked
  | ok t =>
    have outside : Source.EndsOutside ⟨"<stdin>", "IF 1 THEN\nWHILE 0 THEN\nEND"⟩ :=
      ⟨_, rfl, trivial⟩
    obtain ⟨fs, ts, us, front, back, scannedA, contentsA, scanned, contents, -, -, spared, -⟩ :=
      separator_lost_to_comment 20 (.start {} (.memory [] [])) Session.Reached.start.older outside
        (show '\n' ∉ " c".toList by decide) read
    obtain ⟨fs', scannedA', contentsA'⟩ : ∃ fs',
        scan ⟨"<stdin>", "IF 1 THEN\nWHILE 0 THEN\nEND"⟩ = .ok fs' ∧
        fs'.map Token.content = [.keyword .IF, .int 1, .keyword .THEN, .newline, .keyword .WHILE,
          .int 0, .keyword .THEN, .newline, .keyword .END] ++ [.eof] := ⟨_, rfl, rfl⟩
    obtain ⟨ts', scanned', contents'⟩ : ∃ ts',
        scan ⟨"<stdin>", "IF 1 THEN\nWHILE 0 THEN\nEND" ++ "\n" ++ "END"⟩ = .ok ts' ∧
        ts'.map Token.content = [.keyword .IF, .int 1, .keyword .THEN, .newline, .keyword .WHILE,
          .int 0, .keyword .THEN, .newline, .keyword .END] ++ .newline :: [.keyword .END, .eof] :=
      ⟨_, rfl, rfl⟩
    cases scannedA.symm.trans scannedA'
    cases scanned.symm.trans scanned'
    obtain rfl := List.append_cancel_right (contentsA.symm.trans contentsA')
    obtain ⟨-, rfl⟩ := List.cons.inj (List.append_cancel_left (contents.symm.trans contents'))
    have free : ¬ Token.BodyOpen [.keyword .IF, .int 1, .keyword .THEN, .newline, .keyword .WHILE,
        .int 0, .keyword .THEN, .newline, .keyword .END] :=
      Token.not_bodyOpen (by simp [List.suffix_cons_iff]) (by simp)
    obtain ⟨u, commented, same, runs⟩ := spared (.closing rfl (by decide) free)
    exact ⟨t, u, rfl, commented, same, runs⟩

/-- Between two statements there is none, unless the comment has a line end of its own. -/
theorem separator_between_statements_lost : Source.EndsOutside ⟨"<stdin>", "1 "⟩ ∧
    '\n' ∉ " c".toList ∧ (∃ t, Source.tree ⟨"<stdin>", "1 " ++ "\n" ++ "2"⟩ = .ok t) ∧
    ∃ e, Source.tree ⟨"<stdin>", "1 " ++ "#" ++ " c" ++ "\n" ++ "2"⟩ = .error e := by
  refine ⟨⟨_, rfl, trivial⟩, by decide, ?_, ?_⟩
  · have checked : (Source.tree ⟨"<stdin>", "1 " ++ "\n" ++ "2"⟩).toOption.isSome = true := by
      decide +kernel
    cases read : Source.tree ⟨"<stdin>", "1 " ++ "\n" ++ "2"⟩ with
    | ok t => exact ⟨t, rfl⟩
    | error e => rw [read] at checked; cases checked
  · have checked : (Source.tree ⟨"<stdin>", "1 " ++ "#" ++ " c" ++ "\n" ++ "2"⟩).toOption.isNone =
        true := by decide +kernel
    cases read : Source.tree ⟨"<stdin>", "1 " ++ "#" ++ " c" ++ "\n" ++ "2"⟩ with
    | ok t => rw [read] at checked; cases checked
    | error e => exact ⟨e, rfl⟩

end ScriptLang
