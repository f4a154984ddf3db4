import ScriptLang.Proofs.Layout.Evaluation
import ScriptLang.Proofs.Matching.Running

/-! Every rule of evaluation keeps two runs matching: trees that match, evaluated in frames that
do, end in the same way. -/
namespace ScriptLang

variable {σ : Type}

namespace Eval.Matches

section Rules

variable {T : Setting} {w : Pairing} {L : Labelling} {f g : Frame}
variable {self self' : Evaluator σ}

abbrev SelfMatches (T : Setting) (self self' : Evaluator σ) : Prop :=
  ∀ (w : Pairing) (L : Labelling) (t u : Tree) (f g : Frame),
    t.Matches (Mark.Matches T.exact L) u → f.Matches w L g →
      Eval.Matches T f g w (fun w' => Value.Made T.exact w' f g)
        (unwind (self t f)) (unwind (self' u g))

theorem evalAll (hself : SelfMatches T self self') (frames : f.Matches w L g)
    {ts us : List Tree} (trees : List.Forall₂ (Node.Matches (Mark.Matches T.exact L)) ts us) :
    Eval.Matches T f g w (fun w' => List.Forall₂ (Value.Matches T.exact w'))
      (evalAll self f ts) (evalAll self' g us) := by
  induction trees generalizing w with
  | nil => exact pure fun _ _ => .nil
  | cons head _ ih =>
    refine (hself w L _ _ f g head frames).bind fun w₁ v u le made => ?_
    refine (ih (frames.mono le)).bind fun w₂ vs us le tail => pure fun w₃ le' => ?_
    exact .cons ((made.value.mono le).mono le') (Value.Matches.mono_list le' tail)

theorem bodyValue {v u : Value} (values : v.Matches T.exact w u) (suppress : Bool)
    {span span' : Span} (spans : T.exact = true → span = span') :
    (bodyValue v suppress span f).Made T.exact w f g (bodyValue u suppress span' g) := by
  unfold ScriptLang.bodyValue
  split
  · exact .null
  · exact .place values spans

theorem evalArms (hself : SelfMatches T self self') (frames : f.Matches w L g)
    {last last' : Option (Otherwise Tree)}
    (lasts : Option.Rel (Otherwise.Matches (Node.Matches (Mark.Matches T.exact L))) last last')
    {span span' : Span} (spans : T.exact = true → span = span') {arms arms' : List (Arm Tree)}
    (chain : List.Forall₂ (Arm.Matches (Node.Matches (Mark.Matches T.exact L))) arms arms') :
    Eval.Matches T f g w (fun w' => Value.Made T.exact w' f g)
      (evalArms self last span f arms) (evalArms self' last' span' g arms') := by
  induction chain generalizing w with
  | nil =>
    cases lasts with
    | none => exact pure fun _ _ => .null
    | some last =>
      obtain ⟨body, suppress⟩ := last
      refine (hself w L _ _ f g body frames).bind fun w₁ v u le made => pure fun w₂ le' => ?_
      exact bodyValue (made.value.mono le') suppress spans
  | cons head _ ih =>
    obtain ⟨condition, body, suppress⟩ := head
    refine (hself w L _ _ f g condition frames).bind fun w₁ v u le made => ?_
    rw [made.value.isTrue_eq]
    split
    · refine (hself w₁ L _ _ f g body (frames.mono le)).bind fun w₂ v u _ made => ?_
      exact pure fun w₃ le' => bodyValue (made.value.mono le') suppress spans
    · exact ih (frames.mono le)

theorem evalBound (hself : SelfMatches T self self') (frames : f.Matches w L g) {t u : Tree}
    (trees : t.Matches (Mark.Matches T.exact L) u) :
    Eval.Matches T f g w (fun _ => Eq) (evalBound self t f) (evalBound self' u g) := by
  refine (hself w L t u f g trees frames).bind fun w₁ v v' le made => ?_
  rw [made.value.number?_eq, made.value.typeName_eq]
  split
  · exact pure fun _ _ => rfl
  · exact fail _ trees.note.span

theorem evalStep (hself : SelfMatches T self self') (frames : f.Matches w L g)
    {step step' : Option Tree}
    (steps : Option.Rel (Node.Matches (Mark.Matches T.exact L)) step step') :
    Eval.Matches T f g w (fun _ => Eq) (evalStep self f step) (evalStep self' g step') := by
  cases steps with
  | none => exact pure fun _ _ => rfl
  | some trees =>
    refine (evalBound hself frames trees).bind ?_
    rintro w₁ n _ le rfl
    split
    · exact fail _ trees.note.span
    · exact pure fun _ _ => rfl

theorem forTurns (hself : SelfMatches T self self') (frames : f.Matches w L g) (name : String)
    (last step : Number) {body body' : Tree} (bodies : body.Matches (Mark.Matches T.exact L) body')
    (n : Nat) (current : Number) {vs us : List Value}
    (values : List.Forall₂ (Value.Matches T.exact w) vs us) :
    Eval.Matches T f g w (fun w' => List.Forall₂ (Value.Matches T.exact w'))
      (forTurns self name last step body f n current vs)
      (forTurns self' name last step body' g n current us) := by
  induction n generalizing w current vs us with
  | zero => exact spent
  | succ n ih =>
    unfold ScriptLang.forTurns
    split
    · refine (assign frames.scope name (.number _ _ _)).bind fun w₁ _ _ le _ => ?_
      refine (hself w₁ L _ _ f g bodies (frames.mono le)).turn.bind fun w₂ t u le' turns => ?_
      have later := le.trans le'
      have values := Value.Matches.mono_list later values
      cases turns with
      | value head => exact ih (frames.mono later) _ (.cons head values)
      | skip => exact ih (frames.mono later) _ values
      | stop => exact pure fun w₃ le'' => Value.Matches.mono_list le'' values
    · exact pure fun w₁ le => Value.Matches.mono_list le values

theorem whileTurns (hself : SelfMatches T self self') (frames : f.Matches w L g)
    {condition condition' body body' : Tree}
    (conditions : condition.Matches (Mark.Matches T.exact L) condition')
    (bodies : body.Matches (Mark.Matches T.exact L) body') (n : Nat) {vs us : List Value}
    (values : List.Forall₂ (Value.Matches T.exact w) vs us) :
    Eval.Matches T f g w (fun w' => List.Forall₂ (Value.Matches T.exact w'))
      (whileTurns self condition body f n vs) (whileTurns self' condition' body' g n us) := by
  induction n generalizing w vs us with
  | zero => exact spent
  | succ n ih =>
    refine (hself w L _ _ f g conditions frames).bind fun w₁ c c' le made => ?_
    rw [made.value.isTrue_eq]
    split
    · refine (hself w₁ L _ _ f g bodies (frames.mono le)).turn.bind fun w₂ t u le' turns => ?_
      have later := le.trans le'
      have values := Value.Matches.mono_list later values
      cases turns with
      | value head => exact ih (frames.mono later) (.cons head values)
      | skip => exact ih (frames.mono later) values
      | stop => exact pure fun w₃ le'' => Value.Matches.mono_list le'' values
    · exact pure fun w₂ le' => Value.Matches.mono_list (le.trans le') values

theorem loopValue {vs us : List Value} (values : List.Forall₂ (Value.Matches T.exact w) vs us)
    (suppress : Bool) {span span' : Span} (spans : T.exact = true → span = span') :
    (loopValue vs suppress span f).Made T.exact w f g (loopValue us suppress span' g) := by
  unfold ScriptLang.loopValue
  split
  · exact .null
  · exact .place (.list (List.rel_reverse values) _ _) spans

theorem evalFor (hself : SelfMatches T self self') (frames : f.Matches w L g) (fuel : Nat)
    (name : String) {first first' last last' : Tree} {step step' : Option Tree}
    {body body' : Tree} (firsts : first.Matches (Mark.Matches T.exact L) first')
    (lasts : last.Matches (Mark.Matches T.exact L) last')
    (steps : Option.Rel (Node.Matches (Mark.Matches T.exact L)) step step')
    (bodies : body.Matches (Mark.Matches T.exact L) body') (suppress : Bool) {span span' : Span}
    (spans : T.exact = true → span = span') :
    Eval.Matches T f g w (fun w' => Value.Made T.exact w' f g)
      (evalFor fuel self name first last step body suppress span f)
      (evalFor fuel self' name first' last' step' body' suppress span' g) := by
  refine (evalBound hself frames firsts).bind ?_
  rintro w₁ start _ le₁ rfl
  refine (evalBound hself (frames.mono le₁) lasts).bind ?_
  rintro w₂ stop _ le₂ rfl
  refine (evalStep hself (frames.mono (le₁.trans le₂)) steps).bind ?_
  rintro w₃ increment _ le₃ rfl
  refine (forTurns hself (frames.mono ((le₁.trans le₂).trans le₃)) name stop increment bodies fuel
    start .nil).bind fun w₄ vs us _ values => pure fun w₅ le => ?_
  exact loopValue (Value.Matches.mono_list le values) suppress spans

theorem evalFunction (frames : f.Matches w L g) (name : Option String) (params : List String)
    {body body' : Tree} (bodies : body.Matches (Mark.Matches T.exact L) body') (autoReturn : Bool)
    {mark mark' : Mark} (marks : mark.Matches T.exact L mark') :
    Eval.Matches T f g w (fun w' => Value.Made T.exact w' f g)
      (evalFunction name params body autoReturn mark f : Eval σ Value)
      (evalFunction name params body' autoReturn mark' g) := by
  have functions : Function.Matches T.exact w ⟨mark.index, name, params, body, autoReturn, f⟩
      ⟨mark'.index, name, params, body', autoReturn, g⟩ :=
    ⟨rfl, rfl, rfl, frames.scope, frames.pairs marks.index, L, bodies⟩
  have made : ((Value.function _ .none).place mark.span f).Made T.exact w f g
      ((Value.function _ .none).place mark'.span g) :=
    .place (.function functions _ _) marks.span
  cases name with
  | none => exact fun w' _ _ le machines => .done (.refl w') (made.mono le) machines
  | some name =>
    refine (assign frames.scope name made.value).bind fun w₁ _ _ le _ => ?_
    exact pure fun w₂ le' => made.mono (le.trans le')

theorem callBody (hself : SelfMatches T.deeper self self') {h k : Function}
    (functions : h.Matches T.exact w k) (bodies : h.body.Matches (Mark.Matches T.exact L) k.body)
    (frames : f.Matches w L g) {args args' : List Value}
    (values : List.Forall₂ (Value.Matches T.exact w) args args') (site site' : Span) :
    Eval.Matches T f g w (Value.Matches T.exact)
      (do
        ScriptLang.bindParams f h.params args
        ScriptLang.callResult h.autoReturn site f (self h.body f).nested)
      (do
        ScriptLang.bindParams g k.params args'
        ScriptLang.callResult k.autoReturn site' g (self' k.body g).nested) := by
  rw [functions.params, functions.autoReturn]
  refine (bindParams frames.scope _ values).bind fun w₁ _ _ le _ => ?_
  refine callResult _ ?_
  rw [unwind_nested, unwind_nested]
  exact (hself w₁ L _ _ f g bodies (frames.mono le)).nested

/-- A body runs in frames that are new in both runs, so all that was paired stays so. -/
theorem callFunction (hself : SelfMatches T.deeper self self') {h k : Function}
    (functions : h.Matches T.exact w k) {callee callee' : Value}
    (callees : callee.Matches T.exact w callee') {args args' : List Value}
    (values : List.Forall₂ (Value.Matches T.exact w) args args') {site site' : Span}
    (sites : T.exact = true → site = site') : Eval.Matches T f g w (Value.Matches T.exact)
      (callFunction T.limit self h callee args site f)
      (callFunction T.limit' self' k callee' args' site' g) := by
  obtain ⟨L, bodies⟩ := functions.body
  unfold ScriptLang.callFunction
  rw [functions.displayName, functions.scope, values.length_eq,
    show h.params.length = k.params.length by rw [functions.params]]
  refine (checkCall callees _ _ sites).bind fun w₁ _ _ le₁ _ => ?_
  refine (callFrame L _ _ sites).bind fun w₂ c d le₂ ⟨frames, above⟩ => ?_
  have later := le₁.trans le₂
  exact (callBody hself (functions.mono later) bodies frames
    (Value.Matches.mono_list later values) site site').above above

inductive EndMatches (T : Setting) (f g : Frame) (w : Pairing) :
    Option (Except Error Value × Machine σ) → Option (Except Error Value × Machine σ) → Prop where
  | ok {v u : Value} {m n : Machine σ} {w' : Pairing} (later : w.Le w')
    (values : v.Matches T.exact w' u) (machine : m.Matches T w' n) :
    EndMatches T f g w (some (.ok v, m)) (some (.ok u, n))
  | error {e e' : Error} {m n : Machine σ} {w' : Pairing} (later : w.Le w')
    (errors : e.Matches T f g e') (machine : m.Matches T w' n) :
    EndMatches T f g w (some (.error e, m)) (some (.error e', n))
  | spent : EndMatches T f g w none none
  | failed (lax : T.lax = true) (e : Error) (m : Machine σ)
    (y : Option (Except Error Value × Machine σ)) : EndMatches T f g w (some (.error e, m)) y

theorem programEnd {V : Pairing → Value → Value → Prop} {x y : Step σ Value}
    (h : x.Matches T f g w V y) (values : ∀ w' v u, V w' v u → v.Matches T.exact w' u)
    (span span' : Span) : EndMatches T f g w (x.programEnd span f) (y.programEnd span' g) := by
  cases h with
  | done later value machine => exact .ok later (values _ _ _ value) machine
  | spent => exact .spent
  | failed lax e m => exact .failed lax e m _
  | exit later reason machine =>
    cases reason with
    | failed errors => exact .error later errors machine
    | returned values => exact .ok later values machine
    | broke places =>
      exact .error later (.runtime rfl fun precise => ⟨places precise, .here⟩) machine
    | continued places =>
      exact .error later (.runtime rfl fun precise => ⟨places precise, .here⟩) machine

theorem runTree (hself : SelfMatches T self self') {t u : Tree}
    (trees : t.Matches (Mark.Matches T.exact L) u) {m n : Machine σ} (machines : m.Matches T w n) :
    EndMatches T (.root m.frames programName globalScope) (.root n.frames programName globalScope)
      w
      ((unwind (self t (.root m.frames programName globalScope))
        { m with frames := m.frames + 1 }).programEnd t.span
          (.root m.frames programName globalScope))
      ((unwind (self' u (.root n.frames programName globalScope))
        { n with frames := n.frames + 1 }).programEnd u.span
          (.root n.frames programName globalScope)) := by
  have begun : Machine.Matches T (w.grow L) { m with frames := m.frames + 1 }
      { n with frames := n.frames + 1 } :=
    ⟨machines.store.mono (w.le_grow L), machines.host, machines.depth, machines.depth',
      congrArg (· + 1) machines.left, congrArg (· + 1) machines.right⟩
  have frames : Frame.Matches (w.grow L) L (.root m.frames programName globalScope)
      (.root n.frames programName globalScope) :=
    ⟨rfl, fun labels => .inr ⟨machines.left, machines.right, labels⟩⟩
  have ends := hself (w.grow L) L t u _ _ trees frames _ _ _ (.refl _) begun
  exact programEnd (ends.earlier (w.le_grow L)) (fun _ _ _ made => made.value) _ _

theorem runSource (hself : SelfMatches T self self') (source : Source) {m n : Machine σ}
    (machines : m.Matches T w n) :
    EndMatches T (.root m.frames programName globalScope) (.root n.frames programName globalScope)
      w (runSource self source m) (runSource self' source n) := by
  rw [runSource_eq, runSource_eq]
  unfold Source.tree
  cases scan source with
  | error e => exact .error (.refl w) (.lexical e) machines
  | ok tokens =>
    dsimp only
    cases parse tokens with
    | error e => exact .error (.refl w) (.grammatical e) machines
    | ok tree => exact runTree hself (.refl (Mark.Matches.own T.exact) tree) machines

theorem runScript (hself : SelfMatches T self self') (path : String) {site site' : Span}
    (sites : T.exact = true → site = site') : Eval.Matches T f g w (Value.Matches T.exact)
      (runScript self path site f) (runScript self' path site' g) := by
  refine (onHost (Host.fetch path) sites).bind ?_
  rintro w₁ text _ le rfl w₂ m n le' machines
  have ends := runSource hself ⟨path, text⟩ machines
  dsimp only
  generalize ScriptLang.runSource self ⟨path, text⟩ m = left at ends ⊢
  generalize ScriptLang.runSource self' ⟨path, text⟩ n = right at ends ⊢
  cases ends with
  | ok later values machine => exact .done later .null machine
  | spent => exact .spent
  | failed lax e m => exact .failed lax _ m _
  | error later errors machine =>
    refine .exit later (.failed (.runtime ?_ fun precise => ⟨sites precise, .here⟩)) machine
    -- the traceback of a script starts with its own frame, so exact reports are equal
    cases precise : T.exact with
    | false => rfl
    | true => rw [errors.render_eq precise fun _ => rfl]

abbrev ResultMatches (exact : Bool) (w : Pairing) (a b : Value × Option Value) : Prop :=
  a.1.Matches exact w b.1 ∧ Option.Rel (Value.Matches exact w) a.2 b.2

theorem nothing : Eval.Matches T f g w (ResultMatches T.exact)
    (Pure.pure (.null, none) : Eval σ _) (Pure.pure (.null, none)) :=
  pure fun _ _ => ⟨.null, .none⟩

theorem execute_asking (b : Builtin) (asks : b = .input ∨ b = .inputInt ∨ b = .clear)
    (args args' : List Value) {site site' : Span} (sites : T.exact = true → site = site') :
    Eval.Matches T f g w (ResultMatches T.exact) (ScriptLang.execute fuel self b args site f)
      (ScriptLang.execute fuel self' b args' site' g) := by
  obtain rfl | rfl | rfl := asks
  · refine (onHost Host.ask sites).bind ?_
    rintro w₁ line _ le rfl
    exact pure fun _ _ => ⟨.string _ _ _, .none⟩
  · refine (onHost (Host.askInteger fuel) sites).bind ?_
    rintro w₁ n _ le rfl
    exact pure fun _ _ => ⟨.number _ _ _, .none⟩
  · exact (onHost Host.wipe sites).bind fun _ _ _ _ _ => nothing

theorem execute_one (hself : SelfMatches T self self') (b : Builtin) {v u : Value}
    (values : v.Matches T.exact w u) {site site' : Span} (sites : T.exact = true → site = site') :
    Eval.Matches T f g w (ResultMatches T.exact) (ScriptLang.execute fuel self b [v] site f)
      (ScriptLang.execute fuel self' b [u] site' g) := by
  cases b with
  | print =>
    change Eval.Matches T f g w _ (ScriptLang.onHost (Host.print v.display) site f >>= _)
      (ScriptLang.onHost (Host.print u.display) site' g >>= _)
    rw [values.display_eq]
    exact (onHost (Host.print _) sites).bind fun _ _ _ _ _ => nothing
  | printRet =>
    refine pure fun _ _ => ⟨?_, .none⟩
    rw [values.display_eq]
    exact .string _ _ _
  | input | inputInt | clear => exact execute_asking _ (by simp) _ _ sites
  | isNumber | isString | isList | isFunction =>
    cases values <;> exact pure fun _ _ => ⟨.number _ _ _, .none⟩
  | append | pop | extend => exact nothing
  | len =>
    cases values with
    | list elements =>
      refine pure fun _ _ => ⟨?_, .none⟩
      rw [elements.length_eq]
      exact .number _ _ _
    | _ => exact fail _ sites
  | run =>
    cases values with
    | string path =>
      exact (runScript hself path sites).bind fun w₁ _ _ _ result =>
        pure fun w₂ le => ⟨result.mono le, .none⟩
    | _ => exact fail _ sites

theorem execute_two (b : Builtin) {v u x y : Value} (first : v.Matches T.exact w u)
    (second : x.Matches T.exact w y) {site site' : Span} (sites : T.exact = true → site = site') :
    Eval.Matches T f g w (ResultMatches T.exact) (ScriptLang.execute fuel self b [v, x] site f)
      (ScriptLang.execute fuel self' b [u, y] site' g) := by
  cases b with
  | input | inputInt | clear => exact execute_asking _ (by simp) _ _ sites
  | append =>
    refine (orFail (.append first second) sites).bind fun w₁ a b le changes => ?_
    exact pure fun w₂ le' => ⟨.null, .some (changes.mono (le.trans le'))⟩
  | extend =>
    refine (orFail (.extend first second) sites).bind fun w₁ a b le changes => ?_
    exact pure fun w₂ le' => ⟨.null, .some (changes.mono (le.trans le'))⟩
  | pop =>
    refine (orFail (.pop first second) sites).bind ?_
    rintro w₁ ⟨taken, rest⟩ ⟨taken', rest'⟩ le ⟨takes, rests⟩
    have later {w₂ : Pairing} (le' : w₁.Le w₂) := le.trans le'
    exact pure fun w₂ le' => ⟨takes.mono (later le'), .some (rests.mono (later le'))⟩
  | len | run =>
    rw [Eval.Alike.execute_surplus _ (by simp), Eval.Alike.execute_surplus _ (by simp)]
    exact nothing
  | _ => exact nothing

theorem execute (hself : SelfMatches T self self') (b : Builtin) {args args' : List Value}
    (values : List.Forall₂ (Value.Matches T.exact w) args args') {site site' : Span}
    (sites : T.exact = true → site = site') : Eval.Matches T f g w (ResultMatches T.exact)
      (execute fuel self b args site f) (execute fuel self' b args' site' g) := by
  match values with
  | .nil =>
    cases b with
    | input | inputInt | clear => exact execute_asking _ (by simp) _ _ sites
    | _ => exact nothing
  | .cons first .nil => exact execute_one hself b first sites
  | .cons first (.cons second .nil) => exact execute_two b first second sites
  | .cons _ (.cons _ (.cons _ _)) =>
    cases b with
    | input | inputInt | clear => exact execute_asking _ (by simp) _ _ sites
    | len | run =>
      rw [Eval.Alike.execute_surplus _ (by simp), Eval.Alike.execute_surplus _ (by simp)]
      exact nothing
    | _ => exact nothing

theorem target?_eq {R : Mark → Mark → Prop} {ts us : List Tree}
    (trees : List.Forall₂ (Node.Matches R) ts us) : target? ts = target? us := by
  cases trees with
  | nil => rfl
  | cons head _ => cases head <;> rfl

theorem callBuiltin (hself : SelfMatches T.deeper self self') (scopes : f.scope = g.scope)
    (fuel : Nat) (b : Builtin) {callee callee' : Value} (callees : callee.Matches T.exact w callee')
    {args args' : List Value} (values : List.Forall₂ (Value.Matches T.exact w) args args')
    {nodes nodes' : List Tree}
    (trees : List.Forall₂ (Node.Matches (Mark.Matches T.exact L)) nodes nodes') {site site' : Span}
    (sites : T.exact = true → site = site') : Eval.Matches T f g w (Value.Matches T.exact)
      (callBuiltin T.limit fuel self b callee args nodes site f)
      (callBuiltin T.limit' fuel self' b callee' args' nodes' site' g) := by
  unfold ScriptLang.callBuiltin
  rw [values.length_eq, target?_eq trees]
  refine (checkCall callees _ _ sites).bind fun w₁ _ _ le₁ _ => ?_
  refine (plainFrame b.name sites).bind fun w₂ c d le₂ above => ?_
  have values := Value.Matches.mono_list (le₁.trans le₂) values
  refine ((execute hself b values sites).nested.above above).bind ?_
  rintro w₃ ⟨result, changed⟩ ⟨result', changed'⟩ _ ⟨results, changes⟩
  cases changes with
  | none =>
    cases target? nodes' <;> exact pure fun w₄ le => results.mono le
  | some written =>
    cases target? nodes' with
    | none => exact pure fun w₄ le => results.mono le
    | some name =>
      refine (reassign (T := T) scopes name written).bind fun w₄ _ _ le _ => ?_
      exact pure fun w₅ le' => results.mono (le.trans le')

theorem evalCall (hself : SelfMatches T self self') (hbody : SelfMatches T.deeper self self')
    (frames : f.Matches w L g) (fuel : Nat) {callee callee' : Tree}
    (callees : callee.Matches (Mark.Matches T.exact L) callee') {args args' : List Tree}
    (trees : List.Forall₂ (Node.Matches (Mark.Matches T.exact L)) args args') {span span' : Span}
    (spans : T.exact = true → span = span') :
    Eval.Matches T f g w (fun w' => Value.Made T.exact w' f g)
      (evalCall T.limit fuel self callee args span f)
      (evalCall T.limit' fuel self' callee' args' span' g) := by
  refine (hself w L _ _ f g callees frames).bind fun w₁ h k le₁ made => ?_
  refine (evalAll hself (frames.mono le₁) trees).bind fun w₂ vs us le₂ values => ?_
  have called := (made.value.mono le₂).place span span' f g
  generalize h.place span f = h at called ⊢
  generalize k.place span' g = k at called ⊢
  have placed (w₃ : Pairing) (v u : Value) (_ : w₂.Le w₃) (result : v.Matches T.exact w₃ u) :
      Eval.Matches T f g w₃ (fun w' => Value.Made T.exact w' f g)
        (Pure.pure (v.place span f) : Eval σ Value) (Pure.pure (u.place span' g)) :=
    pure fun w₄ le => .place (result.mono le) spans
  cases called with
  | function functions t u =>
    exact (callFunction hbody functions (.function functions t u) values spans).bind placed
  | builtin b t u =>
    exact (callBuiltin hbody frames.scope fuel b (.builtin b t u) values trees spans).bind placed
  | _ => exact fail _ spans

theorem evalNode (hself : SelfMatches T self self') (hbody : SelfMatches T.deeper self self')
    (frames : f.Matches w L g) (fuel : Nat) {t u : Tree}
    (trees : t.Matches (Mark.Matches T.exact L) u) :
    Eval.Matches T f g w (fun w' => Value.Made T.exact w' f g)
      (evalNode T.limit fuel self t f) (evalNode T.limit' fuel self' u g) := by
  have part {t u : Tree} (trees : t.Matches (Mark.Matches T.exact L) u) {w' : Pairing}
      (le : w.Le w') : Eval.Matches T f g w' (fun w' => Value.Made T.exact w' f g)
        (unwind (self t f)) (unwind (self' u g)) :=
    hself w' L t u f g trees (frames.mono le)
  cases trees with
  | number n note => exact pure fun _ _ => .place (.number _ _ _) note.span
  | string s note => exact pure fun _ _ => .place (.string _ _ _) note.span
  | list elements note | block elements note =>
    refine (evalAll hself frames elements).bind fun w₁ vs us _ values => pure fun w₂ le => ?_
    exact .place (.list (Value.Matches.mono_list le values) _ _) note.span
  | access name note =>
    refine (lookup frames.scope name).bind fun w₁ found found' _ same => ?_
    cases same with
    | none => exact fail _ note.span
    | some values => exact pure fun w₂ le => .place (values.mono le) note.span
  | assign name value note =>
    refine (part value (.refl w)).bind fun w₁ v v' le made => ?_
    refine (assign frames.scope name made.value).bind fun w₂ _ _ le _ => ?_
    exact pure fun w₃ le' => made.mono (le.trans le')
  | unary op operand note =>
    exact (part operand (.refl w)).bind fun w₁ v v' le made => lift (.unary op made) note.span
  | binary op left right note =>
    refine (part left (.refl w)).bind fun w₁ a a' le₁ lefts => ?_
    refine (part right le₁).bind fun w₂ b b' le₂ rights => ?_
    exact lift (.binary op (lefts.mono le₂) rights) note.span
  | cond chain otherwise note => exact evalArms hself frames otherwise note.span chain
  | forLoop name firsts lasts steps bodies suppress note =>
    exact evalFor hself frames fuel name firsts lasts steps bodies suppress note.span
  | whileLoop condition bodies suppress note =>
    refine (whileTurns hself frames condition bodies fuel .nil).bind fun w₁ vs us _ values => ?_
    exact pure fun w₂ le => loopValue (Value.Matches.mono_list le values) suppress note.span
  | breaks note => exact leave fun _ _ => .broke note.span
  | continues note => exact leave fun _ _ => .continued note.span
  | returns value note =>
    cases value with
    | none => exact leave fun _ _ => .returned .null
    | some value =>
      refine (part value (.refl w)).bind fun w₁ v v' _ made => ?_
      exact leave fun w₂ le => .returned (made.value.mono le)
  | function name params bodies autoReturn note =>
    exact evalFunction frames name params bodies autoReturn note
  | call callee arguments note => exact evalCall hself hbody frames fuel callee arguments note.span

end Rules

theorem evaluate (T : Setting) (fuel : Nat) :
    SelfMatches T (evaluate T.limit fuel : Evaluator σ) (evaluate T.limit' fuel) := by
  induction fuel generalizing T with
  | zero => exact fun _ _ _ _ _ _ _ _ => spent
  | succ fuel ih =>
    intro w L t u f g trees frames
    unfold ScriptLang.evaluate
    rw [unwind_signal, unwind_signal]
    exact evalNode (ih T) (ih T.deeper) frames fuel trees

end Eval.Matches

end ScriptLang
