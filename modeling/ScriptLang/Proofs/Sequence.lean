import ScriptLang.Proofs.CallDepth
import ScriptLang.Proofs.LexicalScope
import ScriptLang.Proofs.Sequence.Scan

/-! Programs in sequence. Two texts with an empty line between them are one program, whose
statements are those of the first and then those of the second. Running it does what running the
two one after the other does, except that the statements of the second run in the frame of the
first, which makes no difference but to which function is which. -/
namespace ScriptLang

variable {σ : Type}

theorem Source.tree_eq_ok {a : Source} {t : Tree} :
    a.tree = .ok t ↔ ∃ ts, scan a = .ok ts ∧ parse ts = .ok t := by
  unfold Source.tree
  cases scan a with
  | error e => simp
  | ok ts => cases read : parse ts <;> simp [read]

theorem Source.tree_joined {a b c : Source} (text : c.text = a.text ++ "\n\n" ++ b.text)
    {t u : Tree} (first : a.tree = .ok t) (second : b.tree = .ok u) :
    ∃ (P : Join) (xs ys xs' ys' : List Tree) (m m' n : Mark),
      t = .block xs m ∧ u = .block ys m' ∧ c.tree = .ok (.block (xs' ++ ys') n) ∧
      List.Forall₂ P.left.Trees xs xs' ∧ List.Forall₂ P.right.Trees ys ys' := by
  obtain ⟨ts, scanned, read⟩ := Source.tree_eq_ok.1 first
  obtain ⟨us, scanned', read'⟩ := Source.tree_eq_ok.1 second
  obtain ⟨P, rfl, rfl, whole⟩ := scan_joined text scanned scanned'
  obtain ⟨xs, ys, xs', ys', m, m', n, left, right, parsed, sames, same⟩ := P.parse_eq read read'
  exact ⟨P, xs, ys, xs', ys', m, m', n, left, right, Source.tree_eq_ok.2 ⟨_, whole, parsed⟩,
    sames, same⟩

instance : LawfulMonad (Eval σ) := LawfulMonad.mk' (Eval σ)
  (fun p => by
    funext m
    change Eval.bind p _ m = p m
    unfold Eval.bind
    cases p m <;> rfl)
  (fun _ _ => rfl)
  (fun p f g => by
    funext m
    change Eval.bind (Eval.bind p f) g m = Eval.bind p (fun a => Eval.bind (f a) g) m
    unfold Eval.bind
    cases p m <;> rfl)

theorem evalAll_append (self : Evaluator σ) (f : Frame) (ts us : List Tree) :
    evalAll self f (ts ++ us) = do
      let vs ← evalAll self f ts
      return vs ++ (← evalAll self f us) := by
  induction ts with
  | nil => simp [evalAll]
  | cons t ts ih => simp [evalAll, ih]

def Setting.loose (limit depth : Nat) : Setting :=
  { Setting.precise limit depth with
    exact := false
    alike := nofun }

/-- The second run goes on in the frame `r`, which it has been in before, while the first makes a
new one. -/
def Pairing.resume (w : Pairing) (L : Labelling) (r : Nat) (made : r < w.right)
    (apart : ∀ {x : Nat × Nat} {a b : Nat}, w.pairs x (r, b) → ¬ L.rel a b) : Pairing where
  pairs x y := w.pairs x y ∨ (x.1 = w.left ∧ y.1 = r ∧ L.rel x.2 y.2)
  left := w.left + 1
  right := w.right
  older := by
    rintro x y (old | ⟨left, right, -⟩)
    · have := w.older old
      omega
    · omega
  unique := by
    rintro ⟨i, a⟩ ⟨j, b⟩ ⟨i', a'⟩ ⟨j', b'⟩ (old | ⟨rfl, rfl, labels⟩) (old' | ⟨rfl, rfl, labels'⟩)
    · exact w.unique old old'
    · have := (w.older old).1
      refine ⟨fun same => ?_, fun same => ?_⟩
      · cases same; omega
      · cases same; exact absurd labels' (apart old)
    · have := (w.older old').1
      refine ⟨fun same => ?_, fun same => ?_⟩
      · cases same; omega
      · cases same; exact absurd labels (apart old')
    · simp only [Prod.mk.injEq, true_and]
      exact L.unique labels labels'

/-- Sessions that hold the same up to places and which frame is which, with the same host. -/
structure Session.Matches (w : Pairing) (s s' : Session σ) : Prop where
  config : s.config = s'.config
  store : s.machine.store.Matches false w s'.machine.store
  host : s.machine.host = s'.machine.host
  depth : s.machine.depth = s'.machine.depth

/-- Runs that end in the same way up to places and which new frame is which; frames before `k`
are old. -/
inductive RunsMatch (k : Nat) : Option (Except Error Value × Session σ) →
    Option (Except Error Value × Session σ) → Prop where
  | ok {v u : Value} {s s' : Session σ} {w : Pairing} (kept : w.Keeps k)
    (values : v.Matches false w u) (sessions : s.Matches w s') :
    RunsMatch k (some (.ok v, s)) (some (.ok u, s'))
  | failed {e e' : Error} {s s' : Session σ} {w : Pairing} (kept : w.Keeps k)
    (errors : e.bare false = e'.bare false) (sessions : s.Matches w s') :
    RunsMatch k (some (.error e, s)) (some (.error e', s'))
  | spent : RunsMatch k none none

def Session.resumed (s : Session σ) (m : Machine σ) : Session σ := { s with machine := m }

theorem Session.matches_of_machines (s : Session σ) {limit depth : Nat} {w : Pairing}
    {m n : Machine σ} (h : m.Matches (.loose limit depth) w n) :
    (s.resumed m).Matches w (s.resumed n) :=
  ⟨rfl, h.store, h.host, h.depth.trans h.depth'.symm⟩

theorem RunsMatch.ofEnds {k limit depth i j : Nat} {f g : Frame} {left : k ≤ i} {right : k ≤ j}
    (s : Session σ) {x y : Option (Except Error Value × Machine σ)}
    (ends : Eval.Matches.EndMatches (.loose limit depth) f g (.itself k left right) x y) :
    RunsMatch k (x.map fun (r, m) => (r, s.resumed m)) (y.map fun (r, m) => (r, s.resumed m)) := by
  cases ends with
  | ok later values machine => exact .ok later.keeps values (s.matches_of_machines machine)
  | error later errors machine =>
    exact .failed later.keeps (errors.bare_eq rfl) (s.matches_of_machines machine)
  | spent => exact .spent
  | failed lax => cases lax

theorem RunsMatch.ofExit {k limit depth : Nat} {f g : Frame} {w : Pairing} (s : Session σ)
    {x y : Exit} {m n : Machine σ} (p q : Span) (kept : w.Keeps k)
    (reason : x.Matches (.loose limit depth) f g w y)
    (machine : m.Matches (.loose limit depth) w n) :
    RunsMatch k (((Step.exit x m).programEnd p f).map fun (r, m) => (r, s.resumed m))
      (((Step.exit y n).programEnd q g).map fun (r, m) => (r, s.resumed m)) := by
  have sessions := s.matches_of_machines machine
  cases reason with
  | failed errors => exact .failed kept (errors.bare_eq rfl) sessions
  | returned values => exact .ok kept values sessions
  | broke => exact .failed kept rfl sessions
  | continued => exact .failed kept rfl sessions

abbrev Join.opening (P : Join) (k : Nat) : Pairing :=
  (Pairing.itself k (Nat.le_refl k) (Nat.le_refl k)).grow P.left.labels

theorem Join.labels_apart (P : Join) {k : Nat} {w : Pairing} (later : (P.opening k).Le w)
    {x : Nat × Nat} {a b : Nat} (pair : w.pairs x (k, b)) : ¬ P.right.labels.rel a b := by
  rintro ⟨eq, -⟩
  have eq : b = a + P.shift := eq
  rcases later.fresh pair with (⟨rfl, old⟩ | ⟨-, -, rel⟩) | ⟨-, new⟩
  · exact absurd old (Nat.lt_irrefl k)
  · have rel : b = x.2 + 0 ∧ x.2 < P.first.length := rel
    rw [P.first_length] at rel
    rw [Join.shift] at eq
    omega
  · have new : k + 1 ≤ k := new
    omega

abbrev Join.reopening (P : Join) {k : Nat} {w : Pairing} (later : (P.opening k).Le w) : Pairing :=
  w.resume P.right.labels k (Nat.lt_of_lt_of_le (Nat.lt_succ_self k) later.right)
    (P.labels_apart later)

theorem Join.reopening_kept (P : Join) {k : Nat} {w : Pairing} (later : (P.opening k).Le w)
    {x y : Nat × Nat} (pair : w.pairs x y) : (P.reopening later).pairs x y := .inl pair

theorem Join.reopening_keeps (P : Join) {k : Nat} {w w' : Pairing} (later : (P.opening k).Le w)
    (last : (P.reopening later).Le w') : w'.Keeps k := by
  have first : (Pairing.itself k (Nat.le_refl k) (Nat.le_refl k)).Le w :=
    (Pairing.le_grow _ _).trans later
  have made : k + 1 ≤ w.left ∧ k + 1 ≤ w.right := ⟨later.left, later.right⟩
  intro x y old
  constructor
  · intro pair
    rcases last.fresh pair with (kept | ⟨left, right, -⟩) | ⟨new, new'⟩
    · exact (first.keeps old).1 kept
    · omega
    · have new : w.left + 1 ≤ x.1 := new
      have new' : w.right ≤ y.1 := new'
      omega
  · rintro rfl
    exact last.kept (P.reopening_kept later ((first.keeps old).2 rfl))

section Steps

variable {P : Join} (limit fuel : Nat) {m : Machine σ}

theorem Join.first_steps {xs xs' : List Tree} (sames : List.Forall₂ P.left.Trees xs xs')
    (older : m.store.Older m.frames) :
    (evalAll (evaluate limit fuel) (.root m.frames programName globalScope) xs
        { m with frames := m.frames + 1 }).Matches (.loose limit m.depth)
      (.root m.frames programName globalScope) (.root m.frames programName globalScope)
      (P.opening m.frames) (fun w => List.Forall₂ (Value.Matches false w))
      (evalAll (evaluate limit fuel) (.root m.frames programName globalScope) xs'
        { m with frames := m.frames + 1 }) := by
  have frames : Frame.Matches (P.opening m.frames) P.left.labels
      (.root m.frames programName globalScope) (.root m.frames programName globalScope) :=
    ⟨rfl, fun labels => .inr ⟨rfl, rfl, labels⟩⟩
  have machines : Machine.Matches (.loose limit m.depth) (P.opening m.frames)
      { m with frames := m.frames + 1 } { m with frames := m.frames + 1 } :=
    ⟨(Store.Matches.ofOlder _ _ older).mono (Pairing.le_grow _ _), rfl, rfl, rfl, rfl, rfl⟩
  exact Eval.Matches.evalAll (Eval.Matches.evaluate (.loose limit m.depth) fuel) frames sames _ _ _
    (.refl _) machines

theorem Join.second_steps {ys ys' : List Tree} (same : List.Forall₂ P.right.Trees ys ys')
    {w : Pairing} (later : (P.opening m.frames).Le w) {n n' : Machine σ}
    (machines : n.Matches (.loose limit m.depth) w n') :
    (evalAll (evaluate limit fuel) (.root n.frames programName globalScope) ys
        { n with frames := n.frames + 1 }).Matches (.loose limit m.depth)
      (.root n.frames programName globalScope) (.root m.frames programName globalScope)
      (P.reopening later) (fun w => List.Forall₂ (Value.Matches false w))
      (evalAll (evaluate limit fuel) (.root m.frames programName globalScope) ys' n') := by
  have frames : Frame.Matches (P.reopening later) P.right.labels
      (.root n.frames programName globalScope) (.root m.frames programName globalScope) :=
    ⟨rfl, fun labels => .inr ⟨machines.left, rfl, labels⟩⟩
  have machines : Machine.Matches (.loose limit m.depth) (P.reopening later)
      { n with frames := n.frames + 1 } n' :=
    ⟨machines.store.carry (P.reopening_kept later), machines.host, machines.depth, machines.depth',
      congrArg (· + 1) machines.left, machines.right⟩
  exact Eval.Matches.evalAll (Eval.Matches.evaluate (.loose limit m.depth) fuel) frames same _ _ _
    (.refl _) machines

end Steps

abbrev Session.frame (s : Session σ) : Frame := .root s.machine.frames programName globalScope

def Session.step (fuel : Nat) (s : Session σ) (t : Tree) : Step σ Value :=
  eval s.config.maxDepth fuel t s.frame { s.machine with frames := s.machine.frames + 1 }

/-- The values of the statements of a program that is evaluated to its end, and the session
then. -/
def Session.completed? (fuel : Nat) (s : Session σ) (t : Tree) : Option (List Value × Session σ) :=
  match s.step fuel t with
  | .done (.list vs _) m => some (vs, s.resumed m)
  | _ => none

def Session.finish (s : Session σ) (t : Tree) (x : Step σ Value) :
    Option (Except Error Value × Session σ) :=
  (x.programEnd t.span s.frame).map fun (r, m) => (r, s.resumed m)

theorem Session.run_eq {fuel : Nat} {s : Session σ} {text : String} {t : Tree}
    (tree : Source.tree ⟨s.config.sourceName, text⟩ = .ok t) :
    s.run fuel text = s.finish t (s.step fuel t) := by
  unfold Session.run Session.runSource
  rw [runSource_eq, tree]
  rfl

def Session.statements (fuel : Nat) (s : Session σ) (ts : List Tree) : Step σ (List Value) :=
  evalAll (ScriptLang.evaluate s.config.maxDepth fuel) s.frame ts
    { s.machine with frames := s.machine.frames + 1 }

def Step.map {α β : Type} (φ : α → β) : Step σ α → Step σ β
  | .done a m => .done (φ a) m
  | .exit x m => .exit x m
  | .spent => .spent

theorem Session.step_block (fuel : Nat) (s : Session σ) (ts : List Tree) (mark : Mark) :
    s.step (fuel + 1) (.block ts mark) = (s.statements fuel ts).map fun vs =>
      (Value.list vs .none).place mark.span s.frame := by
  unfold Session.step
  rw [eval_succ]
  change Eval.bind (evalAll _ s.frame ts) _ _ = (evalAll _ s.frame ts _).map _
  unfold Eval.bind
  cases evalAll (ScriptLang.evaluate s.config.maxDepth fuel) s.frame ts _ <;> rfl

theorem Session.statements_append {fuel : Nat} {s : Session σ} {ts us : List Tree} :
    s.statements fuel (ts ++ us) = match s.statements fuel ts with
      | .done vs m =>
        (evalAll (ScriptLang.evaluate s.config.maxDepth fuel) s.frame us m).map (vs ++ ·)
      | .exit x m => .exit x m
      | .spent => .spent := by
  unfold Session.statements
  rw [evalAll_append]
  change Eval.bind (evalAll _ s.frame ts) (fun vs => Eval.bind (evalAll _ s.frame us) _) _ = _
  unfold Eval.bind
  cases evalAll (ScriptLang.evaluate s.config.maxDepth fuel) s.frame ts _ with
  | done vs m =>
    dsimp only
    cases evalAll (ScriptLang.evaluate s.config.maxDepth fuel) s.frame us m <;> rfl
  | _ => rfl

theorem Session.completed?_block (fuel : Nat) (s : Session σ) (ts : List Tree) (mark : Mark) :
    s.completed? (fuel + 1) (.block ts mark) = match s.statements fuel ts with
      | .done vs m => some (vs, s.resumed m)
      | _ => none := by
  unfold Session.completed?
  rw [Session.step_block]
  cases s.statements fuel ts <;> rfl

theorem Session.completed?_block_eq_some {fuel : Nat} {s s' : Session σ} {ts : List Tree}
    {mark : Mark} {vs : List Value} :
    s.completed? (fuel + 1) (.block ts mark) = some (vs, s') ↔
      ∃ m, s.statements fuel ts = .done vs m ∧ s' = s.resumed m := by
  rw [Session.completed?_block]
  cases s.statements fuel ts <;> simp [eq_comm]

theorem Session.finish_completed {fuel : Nat} {s s' : Session σ} {t : Tree} {vs : List Value}
    (h : s.completed? fuel t = some (vs, s')) :
    ∃ stamp, s.finish t (s.step fuel t) = some (.ok (.list vs stamp), s') := by
  unfold Session.completed? at h
  split at h
  · next done =>
    cases h
    rw [done]
    exact ⟨_, rfl⟩
  · cases h

section Runs

variable {P : Join} {fuel : Nat} {s : Session σ} {xs xs' ys ys' : List Tree} {a b c : Mark}

theorem Join.run_first (sames : List.Forall₂ P.left.Trees xs xs')
    (older : s.machine.store.Older s.machine.frames)
    (short : s.completed? (fuel + 1) (.block xs a) = none) :
    RunsMatch s.machine.frames (s.finish (.block xs a) (s.step (fuel + 1) (.block xs a)))
      (s.finish (.block (xs' ++ ys') c) (s.step (fuel + 1) (.block (xs' ++ ys') c))) := by
  have steps := P.first_steps s.config.maxDepth fuel sames older
  rw [Session.completed?_block] at short
  rw [Session.step_block, Session.step_block, Session.statements_append]
  change (s.statements fuel xs).Matches _ _ _ _ _ (s.statements fuel xs') at steps
  generalize s.statements fuel xs = x at steps short ⊢
  generalize s.statements fuel xs' = y at steps ⊢
  cases steps with
  | done => cases short
  | spent => exact .spent
  | failed lax => cases lax
  | exit later reason machine =>
    exact .ofExit s _ _ ((Pairing.le_grow _ _).trans later).keeps reason machine

theorem Join.run_second (sames : List.Forall₂ P.left.Trees xs xs')
    (same : List.Forall₂ P.right.Trees ys ys') (older : s.machine.store.Older s.machine.frames)
    {vs₁ : List Value} {s₁ : Session σ}
    (completed : s.completed? (fuel + 1) (.block xs a) = some (vs₁, s₁)) :
    (s₁.completed? (fuel + 1) (.block ys b) = none → RunsMatch s.machine.frames
      (s₁.finish (.block ys b) (s₁.step (fuel + 1) (.block ys b)))
      (s.finish (.block (xs' ++ ys') c) (s.step (fuel + 1) (.block (xs' ++ ys') c)))) ∧
    ∀ vs₂ s₂, s₁.completed? (fuel + 1) (.block ys b) = some (vs₂, s₂) →
      RunsMatch s.machine.frames (some (.ok (.list (vs₁ ++ vs₂) .none), s₂))
        (s.finish (.block (xs' ++ ys') c) (s.step (fuel + 1) (.block (xs' ++ ys') c))) := by
  obtain ⟨m₁, ended, rfl⟩ := Session.completed?_block_eq_some.1 completed
  have steps := P.first_steps s.config.maxDepth fuel sames older
  rw [Session.completed?_block, Session.step_block, Session.step_block,
    Session.statements_append]
  change (s.statements fuel xs).Matches _ _ _ _ _ (s.statements fuel xs') at steps
  rw [ended] at steps
  generalize s.statements fuel xs' = y at steps ⊢
  cases steps with
  | done later values machine =>
    have steps := Join.second_steps s.config.maxDepth fuel same later machine
    change ((s.resumed m₁).statements fuel ys).Matches _ _ _ _ _ _ at steps
    dsimp only
    generalize (s.resumed m₁).statements fuel ys = x at steps ⊢
    generalize evalAll _ s.frame ys' _ = z at steps ⊢
    cases steps with
    | spent => exact ⟨fun _ => .spent, nofun⟩
    | failed lax => cases lax
    | exit last reason machine =>
      exact ⟨fun _ => .ofExit s _ _ (P.reopening_keeps later last) reason machine, nofun⟩
    | done last values' machine =>
      refine ⟨nofun, ?_⟩
      rintro _ _ ⟨⟩
      have front := Value.Matches.carry_list (P.reopening_kept later) values
      have both := List.rel_append (Value.Matches.mono_list last front) values'
      exact .ok (P.reopening_keeps later last) (.list both _ _) (s.matches_of_machines machine)

end Runs

theorem Store.older_pushGlobals : Store.empty.pushGlobals.Older 0 := by
  intro scope mem b held
  obtain rfl : scope = ⟨globals, none⟩ := by simpa [Store.pushGlobals, Store.empty] using mem
  rcases List.mem_append.1 held with constant | builtin
  · simp only [List.mem_cons, List.not_mem_nil, or_false] at constant
    rcases constant with rfl | rfl | rfl | rfl <;> exact .number _ _
  · obtain ⟨c, -, rfl⟩ := List.mem_map.1 builtin
    exact .builtin _ _

/-- The functions that a session holds were made in frames that it has made. -/
theorem Session.Reached.older {config : Config} {host : Host σ} {s : Session σ}
    (h : s.Reached config host) : s.machine.store.Older s.machine.frames := by
  induction h with
  | start => exact Store.older_pushGlobals
  | @ran s _ _ fuel source result run ih =>
    obtain ⟨⟨_, m⟩, ran, eq⟩ := Option.map_eq_some_iff.1 run
    cases eq
    -- a run that begins with what is its own goes on with what is its own
    have machines : s.machine.Matches (.loose s.config.maxDepth s.machine.depth)
        (.itself _ (Nat.le_refl _) (Nat.le_refl _)) s.machine :=
      ⟨.ofOlder _ _ ih, rfl, rfl, rfl, rfl, rfl⟩
    have ends := Eval.Matches.runSource (Eval.Matches.evaluate (.loose _ _) fuel) source machines
    change Eval.Matches.EndMatches _ _ _ _
      (ScriptLang.runSource (ScriptLang.evaluate s.config.maxDepth fuel) source s.machine)
      (ScriptLang.runSource (ScriptLang.evaluate s.config.maxDepth fuel) source s.machine) at ends
    rw [ran] at ends
    cases ends with
    | ok _ _ machine => exact machine.left ▸ machine.store.older
    | error _ _ machine => exact machine.left ▸ machine.store.older
    | failed lax => cases lax

/-- Two programs with an empty line between them are one program, with the statements of both. It
does what the first does alone where that does not come to its end, but fails or returns; else it
does what the second does after the first, and gives the values of both. That the functions which
a session holds are of frames that it has made is so after any runs (`Session.Reached.older`). -/
theorem runs_in_sequence (fuel : Nat) (s : Session σ)
    (older : s.machine.store.Older s.machine.frames)
    {text text' : String} {t u : Tree}
    (first : Source.tree ⟨s.config.sourceName, text⟩ = .ok t)
    (second : Source.tree ⟨s.config.sourceName, text'⟩ = .ok u) :
    ∃ ts us vs m m' n, t = .block ts m ∧ u = .block us m' ∧
      Source.tree ⟨s.config.sourceName, text ++ "\n\n" ++ text'⟩ = .ok (.block vs n) ∧
      vs.map Node.erase = ts.map Node.erase ++ us.map Node.erase ∧
      (s.completed? fuel t = none →
        RunsMatch s.machine.frames (s.run fuel text) (s.run fuel (text ++ "\n\n" ++ text'))) ∧
      ∀ vs₁ s₁, s.completed? fuel t = some (vs₁, s₁) →
        (∃ stamp, s.run fuel text = some (.ok (.list vs₁ stamp), s₁)) ∧
        (s₁.completed? fuel u = none →
          RunsMatch s.machine.frames (s₁.run fuel text')
            (s.run fuel (text ++ "\n\n" ++ text'))) ∧
        ∀ vs₂ s₂, s₁.completed? fuel u = some (vs₂, s₂) →
          (∃ stamp, s₁.run fuel text' = some (.ok (.list vs₂ stamp), s₂)) ∧
          RunsMatch s.machine.frames (some (.ok (.list (vs₁ ++ vs₂) .none), s₂))
            (s.run fuel (text ++ "\n\n" ++ text')) := by
  obtain ⟨P, xs, ys, xs', ys', m, m', n, rfl, rfl, whole, sames, same⟩ :=
    Source.tree_joined (c := ⟨s.config.sourceName, text ++ "\n\n" ++ text'⟩) rfl first second
  refine ⟨xs, ys, xs' ++ ys', m, m', n, rfl, rfl, whole, ?_, ?_⟩
  · rw [List.map_append, Node.Matches.erase_eq_list sames, Node.Matches.erase_eq_list same]
  rw [Session.run_eq first, Session.run_eq whole]
  cases fuel with
  | zero => exact ⟨fun _ => .spent, nofun⟩
  | succ fuel =>
    refine ⟨P.run_first sames older, fun vs₁ s₁ completed => ?_⟩
    have config : s₁.config = s.config := by
      obtain ⟨m₁, -, rfl⟩ := Session.completed?_block_eq_some.1 completed
      rfl
    rw [← config] at second
    rw [Session.run_eq second]
    obtain ⟨short, whole⟩ := P.run_second sames same older completed
    exact ⟨Session.finish_completed completed, short, fun vs₂ s₂ completed' =>
      ⟨Session.finish_completed completed', whole vs₂ s₂ completed'⟩⟩

/-- The first text ends in a comment; the second calls the function that the first defines. -/
theorem runs_in_sequence_defined : ∃ s t u vs₁ s₁ vs₂ s₂,
    s = Session.start {} (.memory [] []) ∧
    Source.tree ⟨"<stdin>", "FUN f(x) -> x + 1 # one more"⟩ = .ok t ∧
    Source.tree ⟨"<stdin>", "PRINT(f(2))\nf(3)"⟩ = .ok u ∧
    s.completed? 20 t = some (vs₁, s₁) ∧ s₁.completed? 20 u = some (vs₂, s₂) ∧
    RunsMatch 0 (some (.ok (.list (vs₁ ++ vs₂) .none), s₂))
      (s.run 20 ("FUN f(x) -> x + 1 # one more" ++ "\n\n" ++ "PRINT(f(2))\nf(3)")) := by
  have checked : (Source.tree ⟨"<stdin>", "FUN f(x) -> x + 1 # one more"⟩).toOption.any (fun t =>
      (Source.tree ⟨"<stdin>", "PRINT(f(2))\nf(3)"⟩).toOption.any fun u =>
        ((Session.start {} (.memory [] [])).completed? 20 t).any fun c =>
          (c.2.completed? 20 u).isSome) = true := by decide +kernel
  cases first : Source.tree ⟨"<stdin>", "FUN f(x) -> x + 1 # one more"⟩ with
  | error e => rw [first] at checked; cases checked
  | ok t =>
  cases second : Source.tree ⟨"<stdin>", "PRINT(f(2))\nf(3)"⟩ with
  | error e => rw [first, second] at checked; cases checked
  | ok u =>
    rw [first, second] at checked
    change ((Session.start {} (.memory [] [])).completed? 20 t).any
      (fun c => (c.2.completed? 20 u).isSome) = true at checked
    obtain ⟨⟨vs₁, s₁⟩, completed, checked⟩ := (Option.any_eq_true _ _).1 checked
    obtain ⟨⟨vs₂, s₂⟩, completed'⟩ := Option.isSome_iff_exists.1 checked
    obtain ⟨ts, us, vs, m, m', n, -, -, -, -, -, runs⟩ :=
      runs_in_sequence 20 (.start {} (.memory [] [])) Session.Reached.start.older first second
    obtain ⟨-, -, runs⟩ := runs vs₁ s₁ completed
    exact ⟨_, t, u, vs₁, s₁, vs₂, s₂, rfl, rfl, rfl, completed, completed',
      (runs vs₂ s₂ completed').2⟩

end ScriptLang
