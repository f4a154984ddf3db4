import ScriptLang.Proofs.Layout.Running
import ScriptLang.Proofs.Matching.Operation
import ScriptLang.Proofs.Matching.Store

/-! Two runs step by step. They may differ in which frame is which and, unless they are compared
exactly, in places; otherwise they end in the same way, with values that match. What the frames of
each run are is told by a pairing, which grows as they run. -/
namespace ScriptLang

variable {σ : Type}

/-- How two runs are compared, and how deep in calls each of them is. -/
structure Setting where
  /-- Whether places are compared too, and with them the reports of scripts that fail. -/
  exact : Bool
  /-- Whether the second run may do anything once the first has failed. -/
  lax : Bool
  limit : Nat
  limit' : Nat
  depth : Nat
  depth' : Nat
  room : limit + depth' ≤ limit' + depth
  even : lax = false → limit + depth' = limit' + depth
  alike : exact = true → limit = limit'

def Setting.deeper (T : Setting) : Setting :=
  { T with
    depth := T.depth + 1
    depth' := T.depth' + 1
    room := by have := T.room; omega
    even := fun strict => by have := T.even strict; omega }

structure Machine.Matches (T : Setting) (w : Pairing) (m n : Machine σ) : Prop where
  store : m.store.Matches T.exact w n.store
  host : m.host = n.host
  depth : m.depth = T.depth
  depth' : n.depth = T.depth'
  left : m.frames = w.left
  right : n.frames = w.right

/-- Frames of calls made from `f` and `g`, by functions of the same names from the same places. -/
inductive Frame.Above (f g : Frame) : Frame → Frame → Prop where
  | here : Above f g f g
  | call {i j s t : Nat} {c d : Frame} (name : String) (site : Span) (caller : Above f g c d) :
    Above f g (.call i name s site c) (.call j name t site d)

namespace Frame.Above

theorem trans {f g f₁ g₁ f₂ g₂ : Frame} (first : Above f g f₁ g₁) (second : Above f₁ g₁ f₂ g₂) :
    Above f g f₂ g₂ := by
  induction second with
  | here => exact first
  | call name site _ ih => exact .call name site ih

theorem trace_eq {f g f' g' : Frame} (h : Above f g f' g')
    (base : ∀ place, f.trace place = g.trace place) (place : Span) :
    f'.trace place = g'.trace place := by
  induction h generalizing place with
  | here => exact base place
  | call name site _ ih => simp only [Frame.trace, ih]

end Frame.Above

/-- The same error, raised in or above the frames `f` and `g`. -/
inductive Error.Matches (T : Setting) (f g : Frame) : Error → Error → Prop where
  | lexical (e : LexError) : Matches T f g (.lexical e) (.lexical e)
  | grammatical (e : SyntaxError) : Matches T f g (.grammatical e) (.grammatical e)
  | runtime {fault fault' : Fault} {span span' : Span} {c d : Frame}
    (faults : fault.bare T.exact = fault'.bare T.exact)
    (places : T.exact = true → span = span' ∧ Frame.Above f g c d) :
    Matches T f g (.runtime fault span c) (.runtime fault' span' d)
  | recursion {span span' : Span} {c d : Frame}
    (places : T.exact = true → span = span' ∧ Frame.Above f g c d) :
    Matches T f g (.recursion T.limit span c) (.recursion T.limit' span' d)

inductive Exit.Matches (T : Setting) (f g : Frame) (w : Pairing) : Exit → Exit → Prop where
  | failed {e e' : Error} (errors : e.Matches T f g e') :
    Matches T f g w (.failed e) (.failed e')
  | returned {v u : Value} (values : v.Matches T.exact w u) :
    Matches T f g w (.returned v) (.returned u)
  | broke {span span' : Span} (places : T.exact = true → span = span') :
    Matches T f g w (.broke span) (.broke span')
  | continued {span span' : Span} (places : T.exact = true → span = span') :
    Matches T f g w (.continued span) (.continued span')

/-- Steps from the pairing `w` that end in the same way, with values related by `V`. -/
inductive Step.Matches {α : Type} (T : Setting) (f g : Frame) (w : Pairing)
    (V : Pairing → α → α → Prop) : Step σ α → Step σ α → Prop where
  | done {a b : α} {m n : Machine σ} {w' : Pairing} (later : w.Le w') (value : V w' a b)
    (machine : m.Matches T w' n) : Matches T f g w V (.done a m) (.done b n)
  | exit {x y : Exit} {m n : Machine σ} {w' : Pairing} (later : w.Le w')
    (reason : x.Matches T f g w' y) (machine : m.Matches T w' n) :
    Matches T f g w V (.exit x m) (.exit y n)
  | spent : Matches T f g w V .spent .spent
  | failed (lax : T.lax = true) (e : Error) (m : Machine σ) (y : Step σ α) :
    Matches T f g w V (.exit (.failed e) m) y

theorem Step.Matches.earlier {α : Type} {T : Setting} {f g : Frame} {w w' : Pairing}
    {V : Pairing → α → α → Prop} {x y : Step σ α} (h : x.Matches T f g w' V y) (le : w.Le w') :
    x.Matches T f g w V y := by
  cases h with
  | done later value machine => exact .done (le.trans later) value machine
  | exit later reason machine => exact .exit (le.trans later) reason machine
  | spent => exact .spent
  | failed lax e m => exact .failed lax e m _

/-- Evaluations that end in the same way from machines that match, now and later. -/
def Eval.Matches {α : Type} (T : Setting) (f g : Frame) (w : Pairing)
    (V : Pairing → α → α → Prop) (p q : Eval σ α) : Prop :=
  ∀ (w' : Pairing) (m n : Machine σ), w.Le w' → m.Matches T w' n →
    (p m).Matches T f g w' V (q n)

inductive Turn.Matches (exact : Bool) (w : Pairing) : Turn → Turn → Prop where
  | value {v u : Value} (values : v.Matches exact w u) : Matches exact w (.value v) (.value u)
  | skip : Matches exact w .skip .skip
  | stop : Matches exact w .stop .stop

namespace Error.Matches

variable {T : Setting} {f g f' g' : Frame} {e e' : Error}

theorem above (h : e.Matches T f' g' e') (frames : T.exact = true → Frame.Above f g f' g') :
    e.Matches T f g e' := by
  cases h with
  | lexical e => exact .lexical e
  | grammatical e => exact .grammatical e
  | runtime faults places =>
    exact .runtime faults fun precise =>
      ⟨(places precise).1, (frames precise).trans (places precise).2⟩
  | recursion places =>
    exact .recursion fun precise =>
      ⟨(places precise).1, (frames precise).trans (places precise).2⟩

theorem bare_eq (h : e.Matches T f g e') (limits : T.limit = T.limit') :
    e.bare T.exact = e'.bare T.exact := by
  cases h with
  | lexical e => rfl
  | grammatical e => rfl
  | runtime faults => exact congrArg (Error.runtime · _ _) faults
  | recursion => exact congrArg (Error.recursion · _ _) limits

theorem render_runtime (fault : Fault) (span : Span) (frame : Frame) :
    (Error.runtime fault span frame).render = Traceback.text span frame ++
      s!"Runtime Error: {fault.message}" ++ "\n\n" ++ span.excerpt := rfl

theorem render_recursion (limit : Nat) (span : Span) (frame : Frame) :
    (Error.recursion limit span frame).render = Traceback.text span frame ++
      s!"Recursion Error: maximum call depth of {limit} exceeded" ++ "\n\n" ++ span.excerpt := rfl

theorem render_eq (h : e.Matches T f g e') (precise : T.exact = true)
    (base : ∀ place, f.trace place = g.trace place) : e.render = e'.render := by
  have kept (x : Fault) : x.bare true = x := by cases x <;> rfl
  have shown {c d : Frame} (above : Frame.Above f g c d) (place : Span) :
      Traceback.text place c = Traceback.text place d := by
    unfold Traceback.text Traceback.body Traceback.lines
    rw [above.trace_eq base place]
  cases h with
  | lexical e => rfl
  | grammatical e => rfl
  | @runtime fault fault' span _ c d faults places =>
    obtain ⟨rfl, above⟩ := places precise
    obtain rfl : fault = fault' := by simpa only [precise, kept] using faults
    rw [render_runtime, render_runtime, shown above]
  | @recursion span _ c d places =>
    obtain ⟨rfl, above⟩ := places precise
    rw [render_recursion, render_recursion, shown above, T.alike precise]

end Error.Matches

namespace Eval.Matches

variable {T : Setting} {f g f' g' : Frame} {w w' : Pairing} {α β : Type}
variable {V : Pairing → α → α → Prop} {W : Pairing → β → β → Prop}

/-- An evaluation of a call, seen from the frames it was made from. -/
theorem above {p q : Eval σ α} (h : Eval.Matches T f' g' w V p q)
    (frames : T.exact = true → Frame.Above f g f' g') : Eval.Matches T f g w V p q := by
  intro w' m n le machines
  have ends := h w' m n le machines
  generalize p m = left at ends ⊢
  generalize q n = right at ends ⊢
  cases ends with
  | done later value machine => exact .done later value machine
  | spent => exact .spent
  | failed lax e m => exact .failed lax e m _
  | exit later reason machine =>
    refine .exit later ?_ machine
    cases reason with
    | failed errors => exact .failed (errors.above frames)
    | returned values => exact .returned values
    | broke places => exact .broke places
    | continued places => exact .continued places

theorem pure {a b : α} (h : ∀ w', w.Le w' → V w' a b) :
    Eval.Matches T f g w V (Pure.pure a : Eval σ α) (Pure.pure b) :=
  fun w' _ _ le machines => .done (.refl w') (h w' le) machines

theorem spent : Eval.Matches T f g w V (Eval.spent : Eval σ α) Eval.spent :=
  fun _ _ _ _ _ => .spent

theorem leave {x y : Exit} (h : ∀ w', w.Le w' → x.Matches T f g w' y) :
    Eval.Matches T f g w V (Eval.leave x : Eval σ α) (Eval.leave y) :=
  fun w' _ _ le machines => .exit (.refl w') (h w' le) machines

theorem fail (fault : Fault) {span span' : Span} (spans : T.exact = true → span = span') :
    Eval.Matches T f g w V (Eval.fail fault span f : Eval σ α) (Eval.fail fault span' g) :=
  leave fun _ _ => .failed (.runtime rfl fun precise => ⟨spans precise, .here⟩)

theorem bind {p q : Eval σ α} {k l : α → Eval σ β} (hp : Eval.Matches T f g w V p q)
    (hk : ∀ w' a b, w.Le w' → V w' a b → Eval.Matches T f g w' W (k a) (l b)) :
    Eval.Matches T f g w W (p >>= k) (q >>= l) := by
  intro w' m n le machines
  change Step.Matches T f g w' W (Eval.bind p k m) (Eval.bind q l n)
  unfold Eval.bind
  have ends := hp w' m n le machines
  generalize p m = left at ends ⊢
  generalize q n = right at ends ⊢
  cases ends with
  | done later value machine =>
    exact (hk _ _ _ (le.trans later) value _ _ _ (.refl _) machine).earlier later
  | exit later reason machine => exact .exit later reason machine
  | spent => exact .spent
  | failed lax e m => exact .failed lax e m _

theorem store {a b : α} {m n : Machine σ} (machines : m.Matches T w n) {s t : Store}
    (stores : s.Matches T.exact w t) (value : V w a b) : Step.Matches T f g w V
      (.done a { m with store := s }) (.done b { n with store := t }) :=
  .done (.refl w) value { machines with store := stores }

theorem assign (scopes : f'.scope = g'.scope) (name : String) {v u : Value}
    (values : v.Matches T.exact w u) : Eval.Matches T f g w (fun _ _ _ => True)
      (Eval.assign f' name v : Eval σ Unit) (Eval.assign g' name u) := by
  intro w' m n le machines
  have stores := machines.store.set f'.scope name (values.mono le)
  unfold Eval.assign
  rw [← scopes]
  exact store machines stores trivial

theorem reassign (scopes : f'.scope = g'.scope) (name : String) {v u : Value}
    (values : v.Matches T.exact w u) : Eval.Matches T f g w (fun _ _ _ => True)
      (Eval.reassign f' name v : Eval σ Unit) (Eval.reassign g' name u) := by
  intro w' m n le machines
  have stores := machines.store.replace f'.scope name (values.mono le)
  unfold Eval.reassign
  rw [← scopes]
  exact store machines stores trivial

theorem lookup (scopes : f'.scope = g'.scope) (name : String) : Eval.Matches T f g w
      (fun w' => Option.Rel (Value.Matches T.exact w')) (Eval.lookup f' name : Eval σ _)
      (Eval.lookup g' name) := by
  intro w' m n _ machines
  unfold Eval.lookup
  rw [← scopes]
  exact .done (.refl w') (machines.store.get? _ name) machines

theorem lift {r s : Except OperationError Value} (results : OperationMatches T.exact w f g r s)
    {span span' : Span} (spans : T.exact = true → span = span') :
    Eval.Matches T f g w (fun w' => Value.Made T.exact w' f g)
      (Eval.lift r span f : Eval σ Value) (Eval.lift s span' g) := by
  cases results with
  | ok values => exact pure fun w' le => .place (values.mono le) spans
  | error fault stamps =>
    refine leave fun _ _ => .failed (.runtime rfl fun precise => ?_)
    obtain ⟨places, frames⟩ := stamps precise
    dsimp only
    rw [places, spans precise]
    refine ⟨rfl, ?_⟩
    rcases frames with ⟨left, right⟩ | ⟨left, right⟩ <;> rw [left, right] <;> exact .here

theorem turn {p q : Evaluation σ}
    (h : Eval.Matches T f g w (fun w' => Value.Made T.exact w' f g) (unwind p) (unwind q)) :
    Eval.Matches T f g w (Turn.Matches T.exact) (ScriptLang.turn p) (ScriptLang.turn q) := by
  intro w' m n le machines
  rw [turn_eq, turn_eq]
  have ends := h w' m n le machines
  generalize unwind p m = left at ends ⊢
  generalize unwind q n = right at ends ⊢
  cases ends with
  | done later value machine => exact .done later (.value value.value) machine
  | spent => exact .spent
  | failed lax e m => exact .failed lax e m _
  | exit later reason machine =>
    cases reason with
    | failed errors => exact .exit later (.failed errors) machine
    | returned values => exact .exit later (.returned values) machine
    | broke => exact .done later .stop machine
    | continued => exact .done later .skip machine

theorem callResult (autoReturn : Bool) {site site' : Span} {p q : Evaluation σ}
    (h : Eval.Matches T f g w (fun w' => Value.Made T.exact w' f g) (unwind p) (unwind q)) :
    Eval.Matches T f g w (Value.Matches T.exact) (ScriptLang.callResult autoReturn site f p)
      (ScriptLang.callResult autoReturn site' g q) := by
  intro w' m n le machines
  rw [callResult_eq, callResult_eq]
  have ends := h w' m n le machines
  generalize unwind p m = left at ends ⊢
  generalize unwind q n = right at ends ⊢
  cases ends with
  | done later value machine =>
    refine .done later ?_ machine
    cases autoReturn with
    | true => exact value.value
    | false => exact .null
  | spent => exact .spent
  | failed lax e m => exact .failed lax e m _
  | exit later reason machine =>
    cases reason with
    | failed errors => exact .exit later (.failed errors) machine
    | returned values => cases autoReturn <;> exact .done later values machine
    | broke places =>
      exact .exit later (.failed (.runtime rfl fun precise => ⟨places precise, .here⟩)) machine
    | continued places =>
      exact .exit later (.failed (.runtime rfl fun precise => ⟨places precise, .here⟩)) machine

theorem nested {p q : Eval σ α} (h : Eval.Matches T.deeper f g w V p q) :
    Eval.Matches T f g w V (Eval.nested p) (Eval.nested q) := by
  have back {w' : Pairing} {m n : Machine σ} (machine : m.Matches T.deeper w' n) :
      Machine.Matches T w' { m with depth := m.depth - 1 } { n with depth := n.depth - 1 } :=
    ⟨machine.store, machine.host, by simp only [machine.depth, Setting.deeper, Nat.add_sub_cancel],
      by simp only [machine.depth', Setting.deeper, Nat.add_sub_cancel], machine.left,
      machine.right⟩
  have exits {w' : Pairing} {x y : Exit} (reason : x.Matches T.deeper f g w' y) :
      x.Matches T f g w' y := by
    cases reason with
    | failed errors =>
      refine .failed ?_
      cases errors with
      | lexical e => exact .lexical e
      | grammatical e => exact .grammatical e
      | runtime faults places => exact .runtime faults places
      | recursion places => exact .recursion places
    | returned values => exact .returned values
    | broke places => exact .broke places
    | continued places => exact .continued places
  intro w' m n le machines
  have deeper : Machine.Matches T.deeper w' { m with depth := m.depth + 1 }
      { n with depth := n.depth + 1 } :=
    ⟨machines.store, machines.host, congrArg (· + 1) machines.depth,
      congrArg (· + 1) machines.depth', machines.left, machines.right⟩
  unfold Eval.nested
  have ends := h w' _ _ le deeper
  generalize p { m with depth := m.depth + 1 } = left at ends ⊢
  generalize q { n with depth := n.depth + 1 } = right at ends ⊢
  cases ends with
  | done later value machine => exact .done later value (back machine)
  | exit later reason machine => exact .exit later (exits reason) (back machine)
  | spent => exact .spent
  | failed lax e m => exact .failed (T := T) lax e _ _

theorem onHost (ask : Host.Ask σ α) {site site' : Span}
    (sites : T.exact = true → site = site') : Eval.Matches T f g w (fun _ => Eq)
      (ScriptLang.onHost ask site f) (ScriptLang.onHost ask site' g) := by
  intro w' m n le machines
  unfold ScriptLang.onHost
  rw [← machines.host]
  cases ask m.host with
  | none => exact .spent
  | some answered =>
    obtain ⟨result, h⟩ := answered
    have machine : Machine.Matches T w' { m with host := h } { n with host := h } :=
      { machines with host := rfl }
    cases result with
    | ok a => exact .done (.refl w') rfl machine
    | error fault => exact fail fault sites w' _ _ le machine

theorem orFail {V : α → α → Prop} {r s : Except Fault α} (results : ChangeMatches V r s)
    {site site' : Span} (sites : T.exact = true → site = site') :
    Eval.Matches T f g w (fun _ => V) (ScriptLang.orFail r site f : Eval σ α)
      (ScriptLang.orFail s site' g) := by
  cases results with
  | ok values => exact pure fun _ _ => values
  | error fault => exact fail fault sites

/-- The new frames pair what is made in them as the labelling says. -/
theorem callFrame (L : Labelling) (name : String) (outer : Nat) {site site' : Span}
    (sites : T.exact = true → site = site') : Eval.Matches T f g w
      (fun w' c d => c.Matches w' L d ∧ (T.exact = true → Frame.Above f g c d))
      (Eval.callFrame name outer site f : Eval σ Frame) (Eval.callFrame name outer site' g) := by
  intro w' m n le machines
  unfold Eval.callFrame
  refine .done (w'.le_grow L) ⟨⟨machines.store.size, fun labels => ?_⟩, fun precise => ?_⟩
    ⟨?_, machines.host, machines.depth, machines.depth', ?_, ?_⟩
  · exact .inr ⟨machines.left, machines.right, labels⟩
  · rw [sites precise]
    exact .call name _ .here
  · exact (machines.store.push _).mono (w'.le_grow L)
  · exact congrArg (· + 1) machines.left
  · exact congrArg (· + 1) machines.right

theorem plainFrame (name : String) {site site' : Span} (sites : T.exact = true → site = site') :
    Eval.Matches T f g w (fun _ c d => T.exact = true → Frame.Above f g c d)
      (Eval.plainFrame name site f : Eval σ Frame) (Eval.plainFrame name site' g) := by
  intro w' m n le machines
  unfold Eval.plainFrame
  refine .done (w'.le_grow .same) (fun precise => ?_)
    ⟨?_, machines.host, machines.depth, machines.depth', ?_, ?_⟩
  · rw [sites precise]
    exact .call name _ .here
  · exact machines.store.mono (w'.le_grow .same)
  · exact congrArg (· + 1) machines.left
  · exact congrArg (· + 1) machines.right

theorem bindParams (scopes : f'.scope = g'.scope) (names : List String) {vs us : List Value}
    (values : List.Forall₂ (Value.Matches T.exact w) vs us) :
    Eval.Matches T f g w (fun _ _ _ => True) (ScriptLang.bindParams f' names vs : Eval σ Unit)
      (ScriptLang.bindParams g' names us) := by
  induction names generalizing w vs us with
  | nil => exact pure fun _ _ => trivial
  | cons name names ih =>
    cases values with
    | nil => exact pure fun _ _ => trivial
    | cons head tail =>
      exact (assign scopes name (head.restamp _ _)).bind fun w' _ _ le _ =>
        ih (Value.Matches.mono_list le tail)

/-- There is room for a call in both runs or in neither, unless the first may just fail. -/
theorem checkCall {callee callee' : Value} (callees : callee.Matches T.exact w callee')
    (params args : Nat) {site site' : Span} (sites : T.exact = true → site = site') :
    Eval.Matches T f g w (fun _ _ _ => True)
      (ScriptLang.checkCall T.limit callee params args site f : Eval σ Unit)
      (ScriptLang.checkCall T.limit' callee' params args site' g) := by
  intro w' m n le machines
  unfold ScriptLang.checkCall
  rw [machines.depth, machines.depth', callees.display_eq]
  by_cases full : T.limit ≤ T.depth
  · rw [if_pos full]
    cases strict : T.lax with
    | true => exact .failed strict _ _ _
    | false =>
      have even := T.even strict
      rw [if_pos (show T.limit' ≤ T.depth' by omega)]
      exact .exit (.refl w') (.failed (.recursion fun precise => ⟨sites precise, .here⟩)) machines
  · have room := T.room
    rw [if_neg full, if_neg (show ¬ T.limit' ≤ T.depth' by omega)]
    split
    · exact fail _ sites w' m n le machines
    · split
      · exact fail _ sites w' m n le machines
      · exact .done (.refl w') trivial machines

end Eval.Matches

end ScriptLang
