import ScriptLang.Proofs.Progress.Grammar
import ScriptLang.Proofs.Walk.Tracking

/-! The walk of every construct keeps track of its rule: one lemma for each rule, then all levels
together by induction on their number. -/
namespace ScriptLang.Grammar

open Rule Walk

abbrev SelfTracks (ts : List Token) (k : Nat) (walks : Level → Walk Unit)
    (self : Level → Rule Tree) : Prop :=
  ∀ l, (walks l).Follows ts 1 k (self l)

section Statements

variable {ts : List Token} {k s fuel : Nat} {walks : Level → Walk Unit} {self : Level → Rule Tree}

theorem newlines_tracks (closed : Token.Closed (ts.map Token.content)) {n : Nat} (enough : s ≤ n) :
    (Walk.newlines n).Tracks ts 0 s id (newlines n) := by
  induction n generalizing s with
  | zero =>
    intro c
    obtain rfl : s = 0 := by omega
    exact .spent
  | succ n ih =>
    intro c
    apply TracksAt.ifAccept closed (by simp)
    · intro d
      apply (ih (by omega) d).bind
      exact fun _ _ => .pure
    · exact .pure

theorem statement_tracks (closed : Token.Closed (ts.map Token.content))
    (hself : SelfTracks ts k walks self) :
    (Walk.statement walks).Follows ts 1 k (statement self) := by
  intro c
  apply TracksAt.part _ (by decide)
  apply TracksAt.fromHere
  split
  · next is =>
    apply TracksAt.byKind (by rw [is]; rfl)
    apply (TracksAt.advance closed (by rw [is]; nofun)).bind
    intro _ d
    exact ((hself .expression d).mono (Nat.le_refl 1) (Nat.sub_le k 1)).attempt
      (fun _ _ => .pure) fun _ => .pure
  · next is =>
    apply TracksAt.byKind (by rw [is]; rfl)
    exact (TracksAt.advance closed (by rw [is]; nofun)).ending fun _ _ => ⟨_, rfl⟩
  · next is =>
    apply TracksAt.byKind (by rw [is]; rfl)
    exact (TracksAt.advance closed (by rw [is]; nofun)).ending fun _ _ => ⟨_, rfl⟩
  · next returns continues breaks =>
    apply TracksAt.skip returns
    apply TracksAt.skip continues
    apply TracksAt.skip breaks
    exact .byDefault ((hself .expression c).describing _)

theorem statementsFrom_tracks (closed : Token.Closed (ts.map Token.content))
    (hself : SelfTracks ts k walks self) (more : k ≤ fuel) {n : Nat} (le : s ≤ k)
    (enough : s ≤ n) :
    (Walk.statementsFrom fuel walks n).Follows ts 0 s (statementsFrom fuel self n) := by
  induction n generalizing s with
  | zero =>
    intro c
    obtain rfl : s = 0 := by omega
    exact .spent
  | succ n ih =>
    intro c
    apply ((statement_tracks closed hself c).mono (Nat.le_refl 1) le).attempt
    · intro t d
      apply (newlines_tracks closed (by omega) d).bind
      intro separated e
      cases separated with
      | true => exact (ih (by omega) (by omega) e).ending fun _ _ => ⟨_, rfl⟩
      | false => exact .pure
    · exact fun _ => .pure

theorem statements_tracks (closed : Token.Closed (ts.map Token.content))
    (hself : SelfTracks ts k walks self) (more : k ≤ fuel) :
    (Walk.statements fuel walks).Follows ts 0 k (statements fuel self) := by
  intro c
  apply TracksAt.part _ (Nat.le_refl 0)
  apply TracksAt.fromHere
  apply (newlines_tracks closed more c).bind
  intro _ d
  exact (statementsFrom_tracks closed hself more (Nat.le_refl k) more d).ending fun _ _ => ⟨_, rfl⟩

theorem unexpectedInSequence_tracks {α : Type} {n : Nat} (expecting : Bool)
    (terminators : List Token.Kind) :
    Walk.fail.Follows ts n s (unexpectedInSequence expecting terminators : Rule α) := by
  intro c stands
  rw [unexpectedInSequence_eq]
  obtain ⟨place, onward⟩ := stands.deeper (e := c.failure _) stands.current rfl
  exact .failed nofun place (Nat.le_refl _) onward

theorem closedBlock_tracks (closed : Token.Closed (ts.map Token.content))
    (hself : SelfTracks ts k walks self) (more : k ≤ fuel) :
    (Walk.closedBlock fuel walks).Follows ts 1 k (closedBlock fuel self) := by
  intro c
  apply TracksAt.part _ (by decide)
  apply (statements_tracks closed hself more c).bind
  intro read d
  apply TracksAt.ifTaken
  · intro is
    exact .byKind (by rw [is]; rfl) (.token closed (by rw [is]; nofun) _)
  · intro differs
    exact .skip differs (.byDefault (unexpectedInSequence_tracks _ _ d))

theorem end_tracks (closed : Token.Closed (ts.map Token.content)) {α : Type} (read : α) {c : Cursor}
    (is : c.kind = .keyword .END) :
    Walk.advance.TracksAt ts 0 s (fun _ => ()) (do let _ ← Rule.advance; return read) c :=
  (TracksAt.token closed (by rw [is]; nofun) read).mono (Nat.le_succ 0) (Nat.le_refl s)

theorem body_tracks (closed : Token.Closed (ts.map Token.content))
    (hself : SelfTracks ts k walks self) (more : k ≤ fuel) :
    (Walk.body fuel walks).Follows ts 1 k (body fuel self) := by
  intro c
  apply TracksAt.part _ (by decide)
  apply TracksAt.ifAccept closed (by simp)
  · intro d
    exact (closedBlock_tracks closed hself more d).last (Nat.sub_le k 1) fun _ _ => ⟨_, rfl⟩
  · apply (statement_tracks closed hself c).bind
    intro t d
    apply TracksAt.ifTaken
    · exact fun is => .byKind (by rw [is]; rfl) (end_tracks closed _ is)
    · exact fun differs => .skip differs (.byDefault .pure)

theorem otherwise_tracks (closed : Token.Closed (ts.map Token.content))
    (hself : SelfTracks ts k walks self) (more : k ≤ fuel) (le : s ≤ k) {c : Cursor}
    (is : c.kind = .keyword .ELSE) {α : Type} {g : Otherwise Tree × Form → Rule α}
    (quiet : ∀ b d, ∃ x, g b d = .done x d) :
    (Walk.otherwise fuel walks).TracksAt ts 0 s (fun _ => ())
      (do let _ ← Rule.advance; let read ← otherwise fuel self; g read) c := by
  have named : (Walk.otherwise fuel walks).TracksAt ts 1 s (fun _ => ())
      (do let _ ← Rule.advance; let read ← otherwise fuel self; g read) c := by
    apply TracksAt.part _ (by decide)
    apply TracksAt.opened closed is (by simp)
    intro d
    have rest : (Walk.body fuel walks).TracksAt ts 1 k (fun _ => ()) (otherwise fuel self) d :=
      (body_tracks closed hself more d).ending fun _ _ => ⟨_, rfl⟩
    exact rest.last (by omega) quiet
  exact named.mono (Nat.le_succ 0) (Nat.le_refl s)

theorem nextArms_tracks (closed : Token.Closed (ts.map Token.content)) {n : Nat}
    (h : (Walk.arms fuel walks n).Follows ts 0 s (arms fuel self n)) (arm : Arm Tree) {c : Cursor}
    (is : c.kind = .keyword .ELIF) :
    (do Walk.advance; Walk.arms fuel walks n : Walk Unit).TracksAt ts 0 s (fun _ => ())
      (do let _ ← Rule.advance; nextArms fuel n self arm) c := by
  apply (TracksAt.advance closed (by rw [is]; nofun)).bind
  intro _ d
  exact (h d).last (Nat.sub_le s 1) fun _ _ => ⟨_, rfl⟩

theorem arms_tracks (closed : Token.Closed (ts.map Token.content))
    (hself : SelfTracks ts k walks self) (more : k ≤ fuel) {n : Nat} (le : s ≤ k)
    (enough : s ≤ n) : (Walk.arms fuel walks n).Follows ts 1 s (arms fuel self n) := by
  induction n generalizing s with
  | zero =>
    intro c
    obtain rfl : s = 0 := by omega
    exact .spent
  | succ n ih =>
    intro c
    apply ((hself .expression c).mono (Nat.le_refl 1) le).bind
    intro condition d
    apply (TracksAt.expect closed (by simp)).bind
    intro _ d
    -- what has been passed of this arm leaves one step more than needed
    have rest {s' : Nat} (le : s' ≤ s - 1) :
        (Walk.arms fuel walks n).Follows ts 0 s' (arms fuel self n) := fun e =>
      (ih (s := s') (by omega) (by omega) e).mono (Nat.le_succ 0) (Nat.le_refl _)
    apply TracksAt.ifAccept closed (by simp)
    · intro e
      apply ((statements_tracks closed hself more e).mono (Nat.le_refl 0) (by omega)).bind
      intro read e
      apply TracksAt.ifTaken
      · exact fun is => .byKind (by rw [is]; rfl) (end_tracks closed _ is)
      · intro notEnd
        apply TracksAt.skip notEnd
        apply TracksAt.ifTaken
        · intro is
          exact .byKind (by rw [is]; rfl) (nextArms_tracks closed (rest (by omega)) _ is)
        · intro notElif
          apply TracksAt.skip notElif
          apply TracksAt.ifTaken
          · intro is
            apply TracksAt.byKind (by rw [is]; rfl)
            exact otherwise_tracks closed hself more (by omega) is fun _ _ => ⟨_, rfl⟩
          · exact fun notElse => .skip notElse (.byDefault (unexpectedInSequence_tracks _ _ e))
    · apply ((statement_tracks closed hself d).mono (Nat.le_refl 1) (by omega)).bind
      intro node e
      apply TracksAt.ifTaken
      · intro is
        exact .byKind (by rw [is]; rfl) (nextArms_tracks closed (rest (by omega)) _ is)
      · intro notElif
        apply TracksAt.skip notElif
        apply TracksAt.ifTaken
        · intro is
          apply TracksAt.byKind (by rw [is]; rfl)
          exact otherwise_tracks closed hself more (by omega) is fun _ _ => ⟨_, rfl⟩
        · intro notElse
          apply TracksAt.skip notElse
          apply TracksAt.ifTaken
          · exact fun is => .byKind (by rw [is]; rfl) (end_tracks closed _ is)
          · exact fun notEnd => .skip notEnd (.byDefault .pure)

end Statements

section Constructs

variable {ts : List Token} {k s fuel : Nat} {walks : Level → Walk Unit} {self : Level → Rule Tree}

theorem commas_tracks {α : Type} {item : Rule α} {walk : Walk Unit}
    (closed : Token.Closed (ts.map Token.content)) (hitem : walk.Follows ts 1 s item) {m n : Nat}
    (le : m ≤ s + 1) (enough : m ≤ n) : (Walk.commas walk n).Follows ts 0 m (commas item n) := by
  induction n generalizing m with
  | zero =>
    intro c
    obtain rfl : m = 0 := by omega
    exact .spent
  | succ n ih =>
    intro c
    apply TracksAt.ifAccept closed (by simp)
    · intro d
      apply ((hitem d).mono (Nat.le_succ 0) (by omega)).bind
      intro first e
      exact (ih (by omega) (by omega) e).ending fun _ _ => ⟨_, rfl⟩
    · exact .pure

theorem conditional_tracks (closed : Token.Closed (ts.map Token.content))
    (hself : SelfTracks ts k walks self) (more : k ≤ fuel) (start : Mark) {c : Cursor}
    (is : c.kind = .keyword .IF) :
    (Walk.conditional fuel walks).TracksAt ts 1 (k + 1) (fun _ => ())
      (do let _ ← Rule.advance; conditional fuel self start) c := by
  apply TracksAt.part _ (by decide)
  apply TracksAt.opened closed is (by simp)
  intro d
  exact (arms_tracks closed hself more (Nat.le_refl k) more d).last (Nat.le_refl k)
    fun _ _ => ⟨_, rfl⟩

theorem forLoop_tracks (closed : Token.Closed (ts.map Token.content))
    (hself : SelfTracks ts k walks self) (more : k ≤ fuel) (start : Mark) {c : Cursor}
    (is : c.kind = .keyword .FOR) :
    (Walk.forLoop fuel walks).TracksAt ts 1 (k + 1) (fun _ => ())
      (do let _ ← Rule.advance; forLoop fuel self start) c := by
  have expression {s : Nat} (le : s ≤ k) (d : Cursor) :
      (walks .expression).TracksAt ts 0 s (fun _ => ()) (self .expression) d :=
    (hself .expression d).mono (Nat.le_succ 0) le
  apply TracksAt.part _ (by decide)
  apply TracksAt.opened closed is (by simp)
  intro d
  apply (TracksAt.name closed).bind
  intro counter d
  apply (TracksAt.expect closed (by simp)).bind
  intro _ d
  apply (expression (by omega) d).bind
  intro first d
  apply (TracksAt.expect closed (by simp)).bind
  intro _ d
  apply (expression (by omega) d).bind
  intro last d
  -- what follows the step is the same whether there is one or not
  have rest (step : Option Tree) {s : Nat} (le : s ≤ k) : (do
      Walk.expect (.keyword .THEN)
      Walk.body fuel walks : Walk Unit).Follows ts 0 s (do
      let _ ← keyword .THEN
      let read ← body fuel self
      return .forLoop counter first last step read.1 read.2.suppresses (← markFrom start) :
        Rule Tree) := by
    intro e
    apply (TracksAt.expect closed (by simp)).bind
    intro _ e
    exact (body_tracks closed hself more e).last (by omega) fun _ _ => ⟨_, rfl⟩
  apply TracksAt.ifAccept closed (by simp)
  · intro e
    have value : (walks .expression).TracksAt ts 0 k (fun _ => ())
        (some <$> self .expression : Rule (Option Tree)) e :=
      (expression (Nat.le_refl k) e).ending fun _ _ => ⟨_, rfl⟩
    apply (value.mono (Nat.le_refl 0) (by omega)).bind
    exact fun step e => (rest step (Nat.le_refl k) e).mono (Nat.le_refl 0) (by omega)
  · exact rest none (by omega) d

theorem whileLoop_tracks (closed : Token.Closed (ts.map Token.content))
    (hself : SelfTracks ts k walks self) (more : k ≤ fuel) (start : Mark) {c : Cursor}
    (is : c.kind = .keyword .WHILE) :
    (Walk.whileLoop fuel walks).TracksAt ts 1 (k + 1) (fun _ => ())
      (do let _ ← Rule.advance; whileLoop fuel self start) c := by
  apply TracksAt.part _ (by decide)
  apply TracksAt.opened closed is (by simp)
  intro d
  apply ((hself .expression d).mono (Nat.le_succ 0) (Nat.le_refl k)).bind
  intro condition d
  apply (TracksAt.expect closed (by simp)).bind
  intro _ d
  exact (body_tracks closed hself more d).last (by omega) fun _ _ => ⟨_, rfl⟩

theorem parameters_tracks (closed : Token.Closed (ts.map Token.content)) (enough : s ≤ fuel) :
    (Walk.parameters fuel).Follows ts 0 s (parameters fuel) := by
  intro c
  apply TracksAt.fromHere
  split
  · next is =>
    apply TracksAt.byKind (by rw [is]; rfl)
    apply (TracksAt.name closed).bind
    intro first d
    rw [moreNames_eq]
    apply (commas_tracks (s := s) closed (fun _ => .name closed) (by omega) (by omega) d).bind
    intro rest e
    exact (TracksAt.expect closed (by simp)).last (Nat.le_refl _) fun _ _ => ⟨_, rfl⟩
  · next other =>
    apply TracksAt.skip other
    apply TracksAt.byDefault
    exact (TracksAt.expect closed (by simp)).last (Nat.le_refl _) fun _ _ => ⟨_, rfl⟩

theorem functionHead_tracks (closed : Token.Closed (ts.map Token.content)) :
    Walk.functionHead.Follows ts 0 s functionHead := by
  intro c
  apply TracksAt.fromHere
  split
  · next is =>
    apply TracksAt.byKind (by rw [is]; rfl)
    apply (TracksAt.name closed).bind
    intro given d
    exact (TracksAt.expect closed (by simp)).last (Nat.le_refl _) fun _ _ => ⟨_, rfl⟩
  · next other =>
    apply TracksAt.skip other
    apply TracksAt.byDefault
    exact (TracksAt.expect closed (by simp)).last (Nat.le_refl _) fun _ _ => ⟨_, rfl⟩

theorem function_tracks (closed : Token.Closed (ts.map Token.content))
    (hself : SelfTracks ts k walks self) (more : k ≤ fuel) (start : Mark) {c : Cursor}
    (is : c.kind = .keyword .FUN) :
    (Walk.function fuel walks).TracksAt ts 1 (k + 1) (fun _ => ())
      (do let _ ← Rule.advance; function fuel self start) c := by
  apply TracksAt.part _ (by decide)
  apply TracksAt.opened closed is (by simp)
  intro d
  apply (functionHead_tracks closed d).bind
  intro given d
  apply (parameters_tracks closed (by omega) d).bind
  intro params d
  apply TracksAt.ifTaken
  · intro arrow
    apply TracksAt.byKind (by rw [arrow]; rfl)
    apply (TracksAt.advance closed (by rw [arrow]; nofun)).bind
    intro _ e
    exact (hself .expression e).last (by omega) fun _ _ => ⟨_, rfl⟩
  · intro notArrow
    apply TracksAt.skip notArrow
    apply TracksAt.ifTaken
    · intro newline
      apply TracksAt.byKind (by rw [newline]; rfl)
      apply (TracksAt.advance closed (by rw [newline]; nofun)).bind
      intro _ e
      exact (closedBlock_tracks closed hself more e).last (by omega) fun _ _ => ⟨_, rfl⟩
    · exact fun notNewline => .skip notNewline (.byDefault .unexpected)

theorem items_tracks (closed : Token.Closed (ts.map Token.content))
    (hself : SelfTracks ts k walks self) (more : k ≤ fuel) (close : Symbol) :
    (Walk.items fuel walks close).Follows ts 1 k (items fuel self close) := by
  intro c
  apply TracksAt.ifAccept closed (by simp)
  · exact fun _ => .pure
  · apply ((hself .expression c).describing _).bind
    intro first d
    rw [moreExpressions_eq]
    apply (commas_tracks closed (hself .expression) (by omega) (by omega) d).bind
    intro rest e
    exact (TracksAt.expect closed (by simp)).last (Nat.le_refl _) fun _ _ => ⟨_, rfl⟩

theorem list_tracks (closed : Token.Closed (ts.map Token.content))
    (hself : SelfTracks ts k walks self) (more : k ≤ fuel) (start : Mark) {c : Cursor}
    (is : c.kind = .symbol .leftBracket) :
    (Walk.list fuel walks).TracksAt ts 1 (k + 1) (fun _ => ()) (do
      let _ ← Rule.advance
      let elements ← items fuel self .rightBracket
      return .list elements (← markFrom start) : Rule Tree) c := by
  apply TracksAt.part _ (by decide)
  apply TracksAt.opened closed is (by simp)
  intro d
  exact (items_tracks closed hself more .rightBracket d).last (Nat.le_refl k)
    fun _ _ => ⟨_, rfl⟩

theorem callsFrom_tracks (closed : Token.Closed (ts.map Token.content))
    (hself : SelfTracks ts k walks self) (more : k ≤ fuel) {n : Nat} (le : s ≤ k + 1)
    (enough : s ≤ n) (t : Tree) :
    (Walk.callsFrom fuel walks n).Follows ts 0 s (callsFrom fuel self n t) := by
  induction n generalizing s t with
  | zero =>
    intro c
    obtain rfl : s = 0 := by omega
    exact .spent
  | succ n ih =>
    intro c
    apply TracksAt.ifAccept closed (by simp)
    · intro d
      apply ((items_tracks closed hself more _ d).mono (Nat.le_succ 0) (by omega)).bind
      intro args e
      exact .markFrom (ih (by omega) (by omega) _ e)
    · exact .pure

theorem lookup_operators {α : Type} (ops : List BinaryOp) (a : α) (x : Token.Kind) :
    (ops.map fun op => (op.kind, a)).lookup x = (ops.find? (·.kind = x)).map fun _ => a := by
  induction ops with
  | nil => rfl
  | cons op ops ih =>
    rw [List.map_cons, List.lookup_cons, List.find?_cons, ih]
    by_cases is : op.kind = x
    · simp [is]
    · simp [is, beq_false_of_ne (Ne.symm is)]

theorem operandsFrom_tracks (closed : Token.Closed (ts.map Token.content)) {ops : List BinaryOp}
    {walk : Walk Unit} {right : Rule Tree} (hright : walk.Follows ts 1 s right) {m n : Nat}
    (le : m ≤ s + 1) (enough : m ≤ n) (t : Tree) :
    (Walk.operandsFrom ops walk n).Follows ts 0 m (operandsFrom ops right n t) := by
  induction n generalizing m t with
  | zero =>
    intro c
    obtain rfl : m = 0 := by omega
    exact .spent
  | succ n ih =>
    intro c
    apply TracksAt.fromHere
    dsimp only
    split
    · next none =>
      apply TracksAt.byNone
      · rw [lookup_operators, none]
        rfl
      · exact .pure
    · next op found =>
      have is : op.kind = c.kind := by simpa using List.find?_some found
      apply TracksAt.byKind
      · rw [lookup_operators, found]
        rfl
      · apply (TracksAt.advance closed (by rw [← is]; cases op <;> nofun)).bind
        intro _ d
        apply ((hright d).mono (Nat.le_succ 0) (by omega)).bind
        intro u
        exact ih (by omega) (by omega) _

end Constructs

section Levels

variable {ts : List Token} {k fuel : Nat} {walks : Level → Walk Unit} {self : Level → Rule Tree}

theorem atom_tracks (closed : Token.Closed (ts.map Token.content))
    (hself : SelfTracks ts k walks self) (more : k ≤ fuel) :
    (Walk.atom fuel walks).Follows ts 1 (k + 1) (atom fuel self) := by
  intro c
  apply TracksAt.part _ (by decide)
  apply TracksAt.fromHere
  have literal {x : Token.Content} (is : c.current.content = x) (other : x.kind ≠ .eof) (t : Tree) :
      Walk.advance.TracksAt ts 1 (k + 1) (fun _ => ()) (do let _ ← Rule.advance; return t) c :=
    .token closed (by rw [Cursor.kind_of_content is]; exact other) t
  split
  · next is => exact .byKind (by rw [Cursor.kind_of_content is]; rfl) (literal is nofun _)
  · next is => exact .byKind (by rw [Cursor.kind_of_content is]; rfl) (literal is nofun _)
  · next is => exact .byKind (by rw [Cursor.kind_of_content is]; rfl) (literal is nofun _)
  · next is => exact .byKind (by rw [Cursor.kind_of_content is]; rfl) (literal is nofun _)
  · next is =>
    have kind := Cursor.kind_of_content is
    apply TracksAt.byKind (by rw [kind]; rfl)
    apply (TracksAt.advance closed (by rw [kind]; nofun)).bind
    intro _ d
    apply ((hself .expression d).mono (Nat.le_succ 0) (Nat.le_refl k)).bind
    intro inner e
    exact (TracksAt.expect closed (by simp)).last (Nat.le_refl _) fun _ _ => ⟨_, rfl⟩
  · next is =>
    have kind := Cursor.kind_of_content is
    exact .byKind (by rw [kind]; rfl) (list_tracks closed hself more _ kind)
  · next is =>
    have kind := Cursor.kind_of_content is
    exact .byKind (by rw [kind]; rfl) (conditional_tracks closed hself more _ kind)
  · next is =>
    have kind := Cursor.kind_of_content is
    exact .byKind (by rw [kind]; rfl) (forLoop_tracks closed hself more _ kind)
  · next is =>
    have kind := Cursor.kind_of_content is
    exact .byKind (by rw [kind]; rfl) (whileLoop_tracks closed hself more _ kind)
  · next is =>
    have kind := Cursor.kind_of_content is
    exact .byKind (by rw [kind]; rfl) (function_tracks closed hself more _ kind)
  · apply TracksAt.byNone _ .unexpected
    change List.lookup c.current.content.kind _ = none
    generalize c.current.content = x at *
    cases x <;> simp_all [List.lookup_eq_none_iff, Token.Content.kind]

theorem call_tracks (closed : Token.Closed (ts.map Token.content))
    (hself : SelfTracks ts k walks self) (more : k < fuel) :
    (Walk.call fuel walks).Follows ts 1 (k + 1) (call fuel self) := by
  intro c
  apply TracksAt.part _ (by decide)
  apply (atom_tracks closed hself (by omega) c).bind
  intro t
  exact callsFrom_tracks closed hself (by omega) (by omega) (by omega) t

theorem operands_tracks (closed : Token.Closed (ts.map Token.content)) {v w : Walk Unit}
    {left right : Rule Tree} {ops : List BinaryOp} (hleft : v.Follows ts 1 (k + 1) left)
    (hright : w.Follows ts 1 k right) (more : k ≤ fuel) :
    (Walk.operands fuel v ops w).Follows ts 1 (k + 1) (operands fuel left ops right) := by
  intro c
  apply (hleft c).bind
  intro t
  exact operandsFrom_tracks closed hright (by omega) (by omega) t

theorem operands_tracks_same (closed : Token.Closed (ts.map Token.content)) {w : Walk Unit}
    {p : Rule Tree} {ops : List BinaryOp} (hp : w.Follows ts 1 (k + 1) p) (more : k ≤ fuel) :
    (Walk.operands fuel w ops w).Follows ts 1 (k + 1) (operands fuel p ops p) :=
  operands_tracks closed hp (fun c => (hp c).mono (Nat.le_refl 1) (by omega)) more

theorem factor_tracks (closed : Token.Closed (ts.map Token.content))
    (hself : SelfTracks ts k walks self) (more : k < fuel) :
    (Walk.factor fuel walks).Follows ts 1 (k + 1) (factor fuel self) := by
  intro c
  apply TracksAt.part _ (by decide)
  apply TracksAt.fromHere
  have signed (op : UnaryOp) (other : c.kind ≠ .eof) : (do
      Walk.advance
      walks .factor : Walk Unit).TracksAt ts 1 (k + 1) (fun _ => ()) (do
      let _ ← Rule.advance
      let operand ← self .factor
      return .unary op operand (c.mark.through operand.note) : Rule Tree) c := by
    apply (TracksAt.advance closed other).bind
    intro _ d
    exact (hself .factor d).last (Nat.le_refl k) fun _ _ => ⟨_, rfl⟩
  split
  · next is => exact .byKind (by rw [is]; rfl) (signed .plus (by rw [is]; nofun))
  · next is => exact .byKind (by rw [is]; rfl) (signed .minus (by rw [is]; nofun))
  · next plus minus =>
    apply TracksAt.skip plus
    apply TracksAt.skip minus
    apply TracksAt.byDefault
    apply TracksAt.part _ (by decide)
    exact operands_tracks closed (call_tracks closed hself more) (hself .factor) (by omega) c

theorem arithmetic_tracks (closed : Token.Closed (ts.map Token.content))
    (hself : SelfTracks ts k walks self) (more : k < fuel) :
    (Walk.arithmetic fuel walks).Follows ts 1 (k + 1) (arithmetic fuel self) := by
  have term : (Walk.term fuel walks).Follows ts 1 (k + 1) (term fuel self) := by
    intro c
    apply TracksAt.part _ (by decide)
    exact operands_tracks_same closed (factor_tracks closed hself more) (Nat.le_of_lt more) c
  intro c
  apply TracksAt.part _ (by decide)
  exact operands_tracks_same closed term (Nat.le_of_lt more) c

theorem comparison_tracks (closed : Token.Closed (ts.map Token.content))
    (hself : SelfTracks ts k walks self) (more : k < fuel) :
    (Walk.comparison fuel walks).Follows ts 1 (k + 1) (comparison fuel self) := by
  intro c
  apply TracksAt.part _ (by decide)
  apply TracksAt.fromHere
  split
  · next is =>
    apply TracksAt.byKind (by rw [is]; rfl)
    apply (TracksAt.advance closed (by rw [is]; nofun)).bind
    intro _ d
    exact (hself .comparison d).last (Nat.le_refl k) fun _ _ => ⟨_, rfl⟩
  · next negates =>
    apply TracksAt.skip negates
    apply TracksAt.byDefault
    exact operands_tracks_same closed (arithmetic_tracks closed hself more) (Nat.le_of_lt more) c

theorem expression_tracks (closed : Token.Closed (ts.map Token.content))
    (hself : SelfTracks ts k walks self) (more : k < fuel) :
    (Walk.expression fuel walks).Follows ts 1 (k + 1) (expression fuel self) := by
  intro c
  apply TracksAt.part _ (by decide)
  apply TracksAt.fromHere
  split
  · next is =>
    apply TracksAt.byKind (by rw [is]; rfl)
    apply (TracksAt.advance closed (by rw [is]; nofun)).bind
    intro _ d
    apply (TracksAt.name closed).bind
    intro target d
    apply (TracksAt.expect closed (by simp)).bind
    intro _ d
    exact (hself .expression d).last (by omega) fun _ _ => ⟨_, rfl⟩
  · next assigns =>
    apply TracksAt.skip assigns
    apply TracksAt.byDefault
    apply TracksAt.describing
    exact operands_tracks_same closed (comparison_tracks closed hself more) (Nat.le_of_lt more) c

end Levels

theorem level_tracks {ts : List Token} (closed : Token.Closed (ts.map Token.content)) (k : Nat) :
    SelfTracks ts k (Walk.level k) (level k) := by
  induction k with
  | zero => exact fun _ _ => .spent
  | succ k ih =>
    intro l
    cases l with
    | expression => exact expression_tracks closed ih (Nat.lt_succ_self k)
    | comparison => exact comparison_tracks closed ih (Nat.lt_succ_self k)
    | factor => exact factor_tracks closed ih (Nat.lt_succ_self k)

theorem program_tracks {ts : List Token} (closed : Token.Closed (ts.map Token.content))
    (fuel : Nat) : (Walk.program fuel).Follows ts 0 fuel (program fuel) := by
  intro c
  apply (statements_tracks closed (level_tracks closed fuel) (Nat.le_refl fuel) c).bind
  intro read d
  apply TracksAt.fromHere
  split
  · next eof => exact .byKind (by rw [eof]; rfl) .pure
  · next more =>
    apply TracksAt.skip more
    apply TracksAt.byDefault
    split
    · exact (unexpectedInSequence_tracks _ _ d).mono (Nat.le_refl 0) (Nat.le_refl fuel)
    · intro stands
      obtain ⟨place, onward⟩ := stands.deeper (e := { d.failure [.newline, .eof] with
        trailing := true }) stands.current rfl
      exact .failed nofun place (Nat.le_refl _) onward

end ScriptLang.Grammar
