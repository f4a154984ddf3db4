import ScriptLang.Proofs.Attribution.Evaluation
import ScriptLang.Proofs.Nesting
import ScriptLang.Proofs.Sequence

/-! Where values and errors come from. What a tree of a program gives points into that tree, and
what it fails with points into it or into a call that it made; so the traceback of a failed run
lists the calls that were active, each at its place. -/
namespace ScriptLang

variable {σ : Type}

/-- A place that is not empty, inside of another one. -/
structure Span.Within (s t : Span) : Prop where
  source : s.source = t.source
  start : t.start.offset ≤ s.start.offset
  nonempty : s.start.offset < s.stop.offset
  stop : s.stop.offset ≤ t.stop.offset

theorem Span.Within.trans {r s t : Span} (inner : r.Within s) (outer : s.Within t) :
    r.Within t :=
  ⟨inner.source.trans outer.source, Nat.le_trans outer.start inner.start, inner.nonempty,
    Nat.le_trans inner.stop outer.stop⟩

namespace Node

variable {source : Source} {ts : List Token} {n q : Tree} {span : Span}

theorem Every.inside {P : Tree → Prop} (h : n.Every P) (inside : n.Contains q) : q.Every P := by
  induction inside with
  | self => exact h
  | child mem _ ih => exact ih (h.child mem)

theorem Covers.within (apart : Token.Apart source ts) {a b : Nat} (h : n.Covers ts a b) :
    n.span.source = source ∧ n.span.Within n.span := by
  obtain ⟨t, u, ht, hu, span⟩ := h.span
  have nonempty : n.span.start.offset < n.span.stop.offset := by
    rw [span]
    exact Nat.lt_of_le_of_lt (apart.start_le ht hu h.le)
      (apart.nonempty u (List.mem_of_getElem? hu))
  refine ⟨?_, rfl, Nat.le_refl _, nonempty, Nat.le_refl _⟩
  rw [span]
  exact apart.source t (List.mem_of_getElem? ht)

theorem Every.within (apart : Token.Apart source ts) (h : n.Every (Nested ts))
    (inside : n.Contains q) : q.span.Within n.span := by
  induction inside with
  | self =>
    obtain ⟨a, b, covers, -⟩ := h.own
    exact (covers.within apart).2
  | child mem _ ih =>
    obtain ⟨a, b, covers, row⟩ := h.own
    obtain ⟨a', b', low, high, inner⟩ := row.covers mem
    obtain ⟨start, stop⟩ := covers.inside apart inner low (Nat.lt_succ_iff.1 high)
    have own := inner.within apart
    exact (ih (h.child mem)).trans
      ⟨own.1.trans (covers.within apart).1.symm, start, own.2.nonempty, stop⟩

theorem Spans.within (apart : Token.Apart source ts) (h : n.Every (Nested ts))
    (spans : n.Spans span) : span.Within n.span := by
  cases spans with
  | one inside => exact h.within apart inside
  | @operands op l r p q mark inside left right =>
    have every := h.inside inside
    obtain ⟨a, b, covers, row⟩ := every.own
    have between : l.span.stop.offset ≤ r.span.start.offset :=
      List.rel_of_pairwise_cons (row.apart apart) (by simp [Node.bodies])
    have first := (every.child (by simp [Node.children, Node.parts])).within apart left
    have second := (every.child (by simp [Node.children, Node.parts])).within apart right
    have outerLeft := every.within apart (.child (by simp [Node.children, Node.parts]) left)
    have outerRight := every.within apart (.child (by simp [Node.children, Node.parts]) right)
    refine .trans ?_ (h.within apart inside)
    refine ⟨outerLeft.source, outerLeft.start, ?_, outerRight.stop⟩
    calc p.span.start.offset
      _ < p.span.stop.offset := first.nonempty
      _ ≤ l.span.stop.offset := first.stop
      _ ≤ r.span.start.offset := between
      _ ≤ q.span.start.offset := second.start
      _ ≤ q.span.stop.offset := Nat.le_of_lt second.nonempty

end Node

/-- How a program of the session comes to end with an error: its tree fails, or a `BREAK` or
`CONTINUE` is left that no loop has caught. The calls are those that are then active. -/
inductive Session.RaisedBy (s : Session σ) (fuel : Nat) (ast : Tree) (e : Error) :
    List ActiveCall → Prop where
  | failed {calls : List ActiveCall} (h : Raised σ s.config.maxDepth fuel e s.machine.depth ast
      (.root s.machine.frames programName globalScope) calls) : RaisedBy s fuel ast e calls
  | stray {keyword : Keyword} {origin : Span} (left : e = .runtime (.outsideLoop keyword) origin
      (.root s.machine.frames programName globalScope)) : RaisedBy s fuel ast e []

theorem Session.RaisedBy.trace {s : Session σ} {fuel : Nat} {ast : Tree} {e : Error}
    {calls : List ActiveCall} (h : s.RaisedBy fuel ast e calls) : ∃ span g,
      e.site? = some (span, g) ∧
      (g.trace span).map Prod.fst = span :: calls.map (·.tree.span) ∧
      (g.trace span).map Prod.snd = calls.map ActiveCall.name ++ [programName] := by
  cases h with
  | failed raised =>
    obtain ⟨span, g, site, -, -⟩ := raised.site
    obtain ⟨sites, names⟩ := raised.trace site
    exact ⟨span, g, site, by simpa [Frame.outer] using sites,
      by simpa [Frame.outer, Frame.name] using names⟩
  | stray left => exact ⟨_, _, by rw [left]; rfl, rfl, rfl⟩

theorem Session.raisedBy_of_runSource {s s' : Session σ} {fuel : Nat} {source : Source} {ast : Tree}
    {e : Error} (read : source.tree = .ok ast)
    (run : s.runSource fuel source = some (.error e, s')) :
    ∃ calls, s.RaisedBy fuel ast e calls := by
  obtain ⟨⟨result, m⟩, ran, eq⟩ := Option.map_eq_some_iff.1 run
  cases eq
  rw [runSource_eq, read] at ran
  dsimp only at ran
  have told := Eval.Tells.evaluate s.config.maxDepth fuel s.machine.depth ast
    (.root s.machine.frames programName globalScope)
    { s.machine with frames := s.machine.frames + 1 } rfl
  unfold Step.programEnd at ran
  split at ran
  · cases ran
  · next reason _ left =>
    rw [left] at told
    obtain ⟨failed, -⟩ := Prod.mk.inj (Option.some.inj ran)
    rcases Signal.error_of_programResult failed with known | stray
    · obtain ⟨calls, raised⟩ := told.1 e known
      exact ⟨calls, .failed raised⟩
    · exact ⟨[], .stray stray⟩
  · cases ran

/-- In the tree of a program, whatever a tree in it is evaluated with: its value names no other
frame and no place outside of it; its error is of this frame and of a place in it, or of a frame
that was called from here. And the traceback of a run of the program has one entry for each call
that was active and one for the program, and in each but the first the place of the next call. -/
theorem values_and_errors_attributed {source : Source} {ast n : Tree}
    (read : source.tree = .ok ast) (inside : ast.Contains n) :
    (∀ limit fuel frame (m : Machine σ) v m', eval limit fuel n frame m = .done v m' →
      (v.stamp.frame = none ∨ v.stamp.frame = some frame) ∧
      ∀ span, v.stamp.span = some span → span.Within n.span) ∧
    (∀ limit fuel frame (m : Machine σ) e m', eval limit fuel n frame m = .exit (.failed e) m' →
      ∃ span g, e.site? = some (span, g) ∧ g.Reaches frame ∧
        (g = frame → span.Within n.span)) ∧
    ∀ fuel (s : Session σ) e s', s.runSource fuel source = some (.error e, s') →
      ∃ calls span g, s.RaisedBy fuel ast e calls ∧ e.site? = some (span, g) ∧
        (g.trace span).map Prod.fst = span :: calls.map (·.tree.span) ∧
        (g.trace span).map Prod.snd = calls.map ActiveCall.name ++ [programName] := by
  obtain ⟨ts, scanned, parsed⟩ := Source.tree_eq_ok.1 read
  have apart := apart_of_scan scanned
  have every := (nested_of_parse scanned parsed).inside inside
  refine ⟨?_, ?_, ?_⟩
  · intro limit fuel frame m v m' done
    have told := Eval.Tells.evaluate limit fuel m.depth n frame m rfl
    rw [show unwind _ m = _ from done] at told
    refine ⟨told.1.frame, fun span known => ?_⟩
    obtain ⟨q, contained, rfl⟩ := told.1.span span known
    exact every.within apart contained
  · intro limit fuel frame m e m' failed
    have told := Eval.Tells.evaluate limit fuel m.depth n frame m rfl
    rw [show unwind _ m = _ from failed] at told
    obtain ⟨calls, raised⟩ := told.1 e rfl
    obtain ⟨span, g, site, reaches, spans⟩ := raised.site
    exact ⟨span, g, site, reaches, fun own => (spans own).within apart every⟩
  · intro fuel s e s' run
    obtain ⟨calls, raised⟩ := Session.raisedBy_of_runSource read run
    obtain ⟨span, g, trace⟩ := raised.trace
    exact ⟨calls, span, g, raised, trace⟩

/-- The names in the traceback of a run; there is none if it did not fail by running. -/
def Traceback.names : Except Error Value → List String
  | .ok _ => []
  | .error e => e.site?.elim [] fun site => (site.2.trace site.1).map Prod.snd

/-- A function calls another one, which adds a text to its argument. -/
theorem values_and_errors_attributed_inner : ∃ ast e s' calls span g,
    Source.tree ⟨"<stdin>", "FUN f(x) -> x + \"a\"\nFUN h(y) -> [f(y)]\nh(1)"⟩ = .ok ast ∧
    (Session.start {} (.memory [] [])).runSource 20
      ⟨"<stdin>", "FUN f(x) -> x + \"a\"\nFUN h(y) -> [f(y)]\nh(1)"⟩ = some (.error e, s') ∧
    (Session.start {} (.memory [] [])).RaisedBy 20 ast e calls ∧ e.site? = some (span, g) ∧
    (g.trace span).map Prod.fst = span :: calls.map (·.tree.span) ∧
    (g.trace span).map Prod.snd = calls.map ActiveCall.name ++ [programName] ∧
    calls.map ActiveCall.name = ["f", "h"] := by
  have ended : ((Session.start {} (.memory [] [])).runSource 20
      ⟨"<stdin>", "FUN f(x) -> x + \"a\"\nFUN h(y) -> [f(y)]\nh(1)"⟩).any
        (fun ended => Traceback.names ended.1 = ["f", "h", programName]) = true := by
    decide +kernel
  have ⟨_, ast, _, scanned, parsed, _⟩ := exists_in_tree
    ⟨"<stdin>", "FUN f(x) -> x + \"a\"\nFUN h(y) -> [f(y)]\nh(1)"⟩ 1 (fun _ _ => true)
    (by decide +kernel)
  have read := Source.tree_eq_ok.2 ⟨_, scanned, parsed⟩
  obtain ⟨⟨result, s'⟩, run, names⟩ := (Option.any_eq_true _ _).1 ended
  replace names := of_decide_eq_true names
  cases result with
  | ok v => cases names
  | error e =>
    have ⟨calls, span, g, raised, site, sites, called⟩ :=
      (values_and_errors_attributed read (.self ast)).2.2 20 _ e s' run
    have listed : calls.map ActiveCall.name ++ [programName] = ["f", "h"] ++ [programName] := by
      rw [← called]
      simpa [Traceback.names, site] using names
    exact ⟨ast, e, s', calls, span, g, read, run, raised, site, sites, called,
      List.append_cancel_right listed⟩

end ScriptLang
