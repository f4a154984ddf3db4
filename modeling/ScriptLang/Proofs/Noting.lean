import ScriptLang.Proofs.Lockstep

/-! Evaluation that notes what built-in functions write back. The notes stand beside the state of
the host, which knows nothing of them; but for the notes it is evaluation as it is. -/
namespace ScriptLang

variable {σ ν : Type}

section Beside

/-- A host that has something beside its state which it never looks at. -/
def Host.Operations.beside (ops : Host.Operations σ) : Host.Operations (σ × ν) where
  writeLine text s := ((ops.writeLine text s.1).1, (ops.writeLine text s.1).2, s.2)
  readLine s := ((ops.readLine s.1).1, (ops.readLine s.1).2, s.2)
  clear s := ((ops.clear s.1).1, (ops.clear s.1).2, s.2)
  readSource path s := ((ops.readSource path s.1).1, (ops.readSource path s.1).2, s.2)

def Host.beside (h : Host σ) (n : ν) : Host (σ × ν) :=
  ⟨h.operations.beside, (h.state, n), h.events⟩

def Machine.beside (m : Machine σ) (n : ν) : Machine (σ × ν) :=
  { m with host := m.host.beside n }

def Step.beside {α : Type} (n : ν) : Step σ α → Step (σ × ν) α
  | .done a m => .done a (m.beside n)
  | .exit e m => .exit e (m.beside n)
  | .spent => .spent

end Beside

/-- A value that a built-in function has written to a variable, in the scope that binds it. -/
structure Written where
  builtin : Builtin
  scope : Nat
  name : String
  value : Value

/-- Notes what `reassign` does: the scope it writes to, if there is one. -/
def Eval.note (b : Builtin) (frame : Frame) (name : String) (v : Value) :
    Eval (σ × List Written) Unit := fun m =>
  match m.store.resolve? frame.scope name with
  | some id => .done () { m with host.state.2 := ⟨b, id, name, v⟩ :: m.host.state.2 }
  | none => .done () m

def PutBack.noting : PutBack (σ × List Written) := fun b frame name v => do
  Eval.note b frame name v
  Eval.reassign frame name v

/-- `p` does what `q` does, whatever the notes, and adds to them. -/
def Eval.Notes {α : Type} (p : Eval (σ × List Written) α) (q : Eval σ α) : Prop :=
  ∀ m notes, ∃ notes', p (m.beside notes) = (q m).beside notes'

namespace Eval.Notes

variable {α β : Type}

theorem same {p : Eval (σ × List Written) α} {q : Eval σ α}
    (h : ∀ m notes, p (m.beside notes) = (q m).beside notes) : p.Notes q :=
  fun m notes => ⟨notes, h m notes⟩

theorem pure (a : α) : Eval.Notes (Pure.pure a : Eval (σ × List Written) α) (Pure.pure a) :=
  same fun _ _ => rfl

theorem fail (fault : Fault) (span : Span) (frame : Frame) :
    Eval.Notes (Eval.fail fault span frame : Eval (σ × List Written) α)
      (Eval.fail fault span frame) :=
  same fun _ _ => rfl

theorem bind {p : Eval (σ × List Written) α} {q : Eval σ α} {f : α → Eval (σ × List Written) β}
    {g : α → Eval σ β} (hp : p.Notes q) (hf : ∀ a, (f a).Notes (g a)) :
    (p >>= f).Notes (q >>= g) := by
  intro m notes
  obtain ⟨notes', eq⟩ := hp m notes
  change ∃ notes', Eval.bind p f _ = (Eval.bind q g m).beside notes'
  unfold Eval.bind
  rw [eq]
  cases q m with
  | done a m' => exact hf a m' notes'
  | exit e m' => exact ⟨notes', rfl⟩
  | spent => exact ⟨notes', rfl⟩

theorem turn {p : Evaluation (σ × List Written)} {q : Evaluation σ}
    (h : (unwind p).Notes (unwind q)) : (ScriptLang.turn p).Notes (ScriptLang.turn q) := by
  intro m notes
  obtain ⟨notes', eq⟩ := h m notes
  refine ⟨notes', ?_⟩
  rw [turn_eq, turn_eq, eq]
  cases unwind q m with
  | done v m' => rfl
  | exit e m' =>
    dsimp only [Step.beside, Step.turn]
    split
    · rfl
    · split <;> rfl
  | spent => rfl

theorem callResult {p : Evaluation (σ × List Written)} {q : Evaluation σ}
    (h : (unwind p).Notes (unwind q)) (autoReturn : Bool) (site : Span) (frame : Frame) :
    (ScriptLang.callResult autoReturn site frame p).Notes
      (ScriptLang.callResult autoReturn site frame q) := by
  intro m notes
  obtain ⟨notes', eq⟩ := h m notes
  refine ⟨notes', ?_⟩
  rw [callResult_eq, callResult_eq, eq]
  cases unwind q m with
  | done v m' => rfl
  | exit e m' =>
    dsimp only [Step.beside, Step.callResult]
    split <;> rfl
  | spent => rfl

theorem nested {p : Eval (σ × List Written) α} {q : Eval σ α} (h : p.Notes q) :
    (Eval.nested p).Notes (Eval.nested q) := by
  intro m notes
  obtain ⟨notes', eq⟩ := h { m with depth := m.depth + 1 } notes
  refine ⟨notes', ?_⟩
  change p { m.beside notes with depth := (m.beside notes).depth + 1 } = _ at eq
  unfold Eval.nested
  rw [eq]
  cases q { m with depth := m.depth + 1 } <;> rfl

theorem lawful :
    Lockstep.Lawful (fun _ => Eval.Notes : Lockstep (σ × List Written) σ)
      (fun _ => Eval.Notes) where
  spent := same fun _ _ => rfl
  pure := pure
  leave _ := same fun _ _ => rfl
  bind := bind
  turn := turn
  callResult := callResult
  nested := nested
  lookup _ _ := same fun _ _ => rfl
  assign _ _ _ := same fun _ _ => rfl
  callFrame _ _ _ _ := same fun _ _ => rfl
  plainFrame _ _ _ := same fun _ _ => rfl

section Scripts

variable {self : Evaluator (σ × List Written)} {self' : Evaluator σ}

abbrev SelfNotes (self : Evaluator (σ × List Written)) (self' : Evaluator σ) : Prop :=
  ∀ node frame, (unwind (self node frame)).Notes (unwind (self' node frame))

theorem carries (notes : List Written) :
    Host.Carries fun h : Host σ => (h.beside notes : Host (σ × List Written)) :=
  ⟨fun _ _ => rfl, fun _ => rfl, fun _ => rfl, fun _ _ => rfl⟩

theorem onHost {ask : Host.Ask (σ × List Written) α} {ask' : Host.Ask σ α}
    (h : ∀ notes, Host.Ask.Same (Host.beside · notes) ask' ask) (site : Span) (frame : Frame) :
    (onHost ask site frame).Notes (onHost ask' site frame) := by
  apply same
  intro m notes
  have asked : ask (m.beside notes).host = _ := h notes m.host
  unfold ScriptLang.onHost
  rw [asked]
  rcases ask' m.host with _ | ⟨_ | _, _⟩ <;> rfl

theorem runScript (hself : SelfNotes self self') (path : String) (site : Span) (frame : Frame) :
    (runScript self path site frame).Notes (runScript self' path site frame) := by
  refine (onHost (fun notes => (carries notes).fetch path) site frame).bind fun text m notes => ?_
  rw [runSource_eq, runSource_eq]
  cases Source.tree ⟨path, text⟩ with
  | error e => exact ⟨notes, rfl⟩
  | ok tree =>
    obtain ⟨notes', eq⟩ := hself tree (.root m.frames programName globalScope)
      { m with frames := m.frames + 1 } notes
    refine ⟨notes', ?_⟩
    change unwind (self tree (.root m.frames programName globalScope))
      { m.beside notes with frames := m.frames + 1 } = _ at eq
    dsimp only [Machine.beside] at eq ⊢
    rw [eq]
    cases unwind (self' tree (.root m.frames programName globalScope)) _ with
    | done v m' => rfl
    | spent => rfl
    | exit e m' =>
      dsimp only [Step.beside, Step.programEnd]
      cases e.signal.programResult _ _ <;> rfl

theorem execute (hself : SelfNotes self self') (fuel : Nat) (b : Builtin) (args : List Value)
    (site : Span) (frame : Frame) :
    (execute fuel self b args site frame).Notes (execute fuel self' b args site frame) :=
  lawful.execute carries (onHost · site frame) (runScript hself · site frame) fuel b args

end Scripts

theorem back (b : Builtin) (frame : Frame) (name : String) (v : Value) :
    (PutBack.noting b frame name v : Eval (σ × List Written) Unit).Notes
      (Eval.reassign frame name v) := by
  intro m notes
  change ∃ notes', Eval.bind (Eval.note b frame name v) _ (m.beside notes) = _
  unfold Eval.bind Eval.note
  split
  · next found => split at found <;> cases found <;> exact ⟨_, rfl⟩
  · next found => split at found <;> cases found
  · next found => split at found <;> cases found

/-- But for the notes, evaluation is as it is. -/
theorem evaluate (limit fuel : Nat) : SelfNotes
    (evaluateWith .noting limit fuel : Evaluator (σ × List Written))
    (ScriptLang.evaluate limit fuel) := by
  have checkCall (callee : Value) (params args : Nat) (site : Span) (frame : Frame) :
      (checkCall limit callee params args site frame : Eval (σ × List Written) Unit).Notes
        (checkCall limit callee params args site frame) := by
    apply same
    intro m notes
    unfold ScriptLang.checkCall
    change (if limit ≤ m.depth then _ else _) = _
    split
    · rfl
    · split
      · rfl
      · split <;> rfl
  have calls : Lockstep.Calls (fun _ => Eval.Notes : Lockstep (σ × List Written) σ) limit limit
      .noting .usual := by
    refine ⟨checkCall, fun hself _ _ turns b args site frame m notes => ?_, back⟩
    rcases turns with rfl | ⟨-, below⟩
    · exact execute hself _ b args site frame m notes
    · obtain ⟨_, eq⟩ := below Unit (Pure.pure ()) m notes
      cases eq
  rw [← evaluateWith_usual]
  exact calls.evaluateWith lawful (.refl fuel)

end Eval.Notes

end ScriptLang
