import ScriptLang.Proofs.Matching.Tree
import ScriptLang.Value

/-! Values of two runs that are the same up to which frame is which. A function is told apart by
the frame it was made in and the label of its literal; a pairing says which of these go together,
one with one. -/
namespace ScriptLang

/-- Which literals of one text are which of another, one with one. -/
structure Labelling where
  rel : Nat → Nat → Prop
  unique : ∀ {a b c d : Nat}, rel a b → rel c d → (a = c ↔ b = d)

def Labelling.same : Labelling := ⟨Eq, by rintro a _ c _ rfl rfl; rfl⟩

/-- Marks of the same construct; if `exact`, in the same place. -/
structure Mark.Matches (exact : Bool) (L : Labelling) (m n : Mark) : Prop where
  index : L.rel m.index n.index
  span : exact = true → m.span = n.span

theorem Mark.Matches.own (exact : Bool) (m : Mark) : m.Matches exact .same m :=
  ⟨rfl, fun _ => rfl⟩

/-- Which functions of two runs go together. The runs have made the frames before `left` and
`right`. -/
structure Pairing where
  pairs : Nat × Nat → Nat × Nat → Prop
  left : Nat
  right : Nat
  older : ∀ {x y : Nat × Nat}, pairs x y → x.1 < left ∧ y.1 < right
  unique : ∀ {x y x' y' : Nat × Nat}, pairs x y → pairs x' y' → (x = x' ↔ y = y')

namespace Pairing

/-- A later pairing: old frames are paired as they were. -/
structure Le (w w' : Pairing) : Prop where
  left : w.left ≤ w'.left
  right : w.right ≤ w'.right
  kept : ∀ {x y : Nat × Nat}, w.pairs x y → w'.pairs x y
  fresh : ∀ {x y : Nat × Nat}, w'.pairs x y → w.pairs x y ∨ (w.left ≤ x.1 ∧ w.right ≤ y.1)

theorem Le.refl (w : Pairing) : w.Le w := ⟨Nat.le_refl _, Nat.le_refl _, id, .inl⟩

theorem Le.trans {u v w : Pairing} (first : u.Le v) (second : v.Le w) : u.Le w where
  left := Nat.le_trans first.left second.left
  right := Nat.le_trans first.right second.right
  kept pair := second.kept (first.kept pair)
  fresh pair := by
    rcases second.fresh pair with old | ⟨left, right⟩
    · exact first.fresh old
    · exact .inr ⟨Nat.le_trans first.left left, Nat.le_trans first.right right⟩

/-- Functions made in frames before `k` go with themselves. -/
def itself (k : Nat) {left right : Nat} (hl : k ≤ left) (hr : k ≤ right) : Pairing where
  pairs x y := x = y ∧ x.1 < k
  left := left
  right := right
  older := by rintro x _ ⟨rfl, old⟩; omega
  unique := by rintro x _ y _ ⟨rfl, -⟩ ⟨rfl, -⟩; rfl

/-- Both runs make a frame, and what is made in the one goes with what is made in the other. -/
def grow (w : Pairing) (L : Labelling) : Pairing where
  pairs x y := w.pairs x y ∨ (x.1 = w.left ∧ y.1 = w.right ∧ L.rel x.2 y.2)
  left := w.left + 1
  right := w.right + 1
  older := by
    rintro x y (old | ⟨left, right, -⟩)
    · have := w.older old
      omega
    · omega
  unique := by
    rintro ⟨i, a⟩ ⟨j, b⟩ ⟨i', a'⟩ ⟨j', b'⟩ (old | ⟨rfl, rfl, labels⟩) (old' | ⟨rfl, rfl, labels'⟩)
    · exact w.unique old old'
    · have := w.older old
      simp only [Prod.mk.injEq]
      dsimp only at this
      omega
    · have := w.older old'
      simp only [Prod.mk.injEq]
      dsimp only at this
      omega
    · simp only [Prod.mk.injEq, true_and]
      exact L.unique labels labels'

theorem le_grow (w : Pairing) (L : Labelling) : w.Le (w.grow L) where
  left := Nat.le_succ _
  right := Nat.le_succ _
  kept := .inl
  fresh := by
    rintro x y (old | ⟨left, right, -⟩)
    · exact .inl old
    · exact .inr (by omega)

end Pairing

/-- Frames in the same scope, in which literals that go together make functions that do. -/
structure Frame.Matches (w : Pairing) (L : Labelling) (f g : Frame) : Prop where
  scope : f.scope = g.scope
  pairs : ∀ {a b : Nat}, L.rel a b → w.pairs (f.id, a) (g.id, b)

theorem Frame.Matches.mono {w w' : Pairing} {L : Labelling} {f g : Frame}
    (h : f.Matches w L g) (le : w.Le w') : f.Matches w' L g :=
  ⟨h.scope, fun labels => le.kept (h.pairs labels)⟩

structure Function.Matches (exact : Bool) (w : Pairing) (f g : Function) : Prop where
  name : f.name = g.name
  params : f.params = g.params
  autoReturn : f.autoReturn = g.autoReturn
  scope : f.closure.scope = g.closure.scope
  pair : w.pairs (f.closure.id, f.label) (g.closure.id, g.label)
  body : ∃ L : Labelling, f.body.Matches (Mark.Matches exact L) g.body

namespace Function.Matches

variable {exact : Bool} {w w' : Pairing} {f g f' g' : Function}

theorem displayName (h : f.Matches exact w g) : f.displayName = g.displayName := by
  unfold Function.displayName
  rw [h.name]

theorem carry (h : f.Matches exact w g)
    (kept : ∀ {x y : Nat × Nat}, w.pairs x y → w'.pairs x y) : f.Matches exact w' g :=
  { h with pair := kept h.pair }

theorem mono (h : f.Matches exact w g) (le : w.Le w') : f.Matches exact w' g := h.carry le.kept

theorem own (pair : w.pairs (f.closure.id, f.label) (f.closure.id, f.label)) :
    f.Matches exact w f :=
  ⟨rfl, rfl, rfl, rfl, pair, .same, .refl (Mark.Matches.own exact) _⟩

theorem same (h : f.Matches exact w g) (h' : f'.Matches exact w g') : f.same f' = g.same g' := by
  have iff := w.unique h.pair h'.pair
  simp only [Prod.mk.injEq] at iff
  rw [Bool.eq_iff_iff]
  simpa only [Function.same, Bool.and_eq_true, beq_iff_eq] using iff

end Function.Matches

inductive Value.Matches (exact : Bool) (w : Pairing) : Value → Value → Prop where
  | number (n : Number) (t u : Stamp) : Matches exact w (.number n t) (.number n u)
  | string (s : String) (t u : Stamp) : Matches exact w (.string s t) (.string s u)
  | list {vs ws : List Value} (elements : List.Forall₂ (Matches exact w) vs ws) (t u : Stamp) :
    Matches exact w (.list vs t) (.list ws u)
  | function {f g : Function} (functions : f.Matches exact w g) (t u : Stamp) :
    Matches exact w (.function f t) (.function g u)
  | builtin (b : Builtin) (t u : Stamp) : Matches exact w (.builtin b t) (.builtin b u)

inductive Value.Older (k : Nat) : Value → Prop where
  | number (n : Number) (t : Stamp) : Older k (.number n t)
  | string (s : String) (t : Stamp) : Older k (.string s t)
  | list {vs : List Value} (elements : ∀ v ∈ vs, Older k v) (t : Stamp) : Older k (.list vs t)
  | function {f : Function} (made : f.closure.id < k) (t : Stamp) : Older k (.function f t)
  | builtin (b : Builtin) (t : Stamp) : Older k (.builtin b t)

namespace Value.Matches

variable {exact : Bool} {w w' : Pairing} {a b a' b' : Value}

theorem null : Value.null.Matches exact w .null := .number _ _ _

theorem restamp (h : a.Matches exact w b) (t u : Stamp) :
    (a.restamp t).Matches exact w (b.restamp u) := by
  cases h with
  | number n => exact .number n t u
  | string s => exact .string s t u
  | list elements => exact .list elements t u
  | function functions => exact .function functions t u
  | builtin b => exact .builtin b t u

theorem place (h : a.Matches exact w b) (span span' : Span) (frame frame' : Frame) :
    (a.place span frame).Matches exact w (b.place span' frame') :=
  h.restamp _ _

theorem number?_eq (h : a.Matches exact w b) : a.number? = b.number? := by cases h <;> rfl

theorem isTrue_eq (h : a.Matches exact w b) : a.isTrue = b.isTrue := by cases h <;> rfl

theorem typeName_eq (h : a.Matches exact w b) : a.typeName = b.typeName := by cases h <;> rfl

mutual

theorem carry (kept : ∀ {x y : Nat × Nat}, w.pairs x y → w'.pairs x y) :
    ∀ {a b : Value}, a.Matches exact w b → a.Matches exact w' b
  | .number .., _, .number n t u => .number n t u
  | .string .., _, .string s t u => .string s t u
  | .list .., _, .list elements t u => .list (carry_list kept elements) t u
  | .function .., _, .function functions t u => .function (functions.carry kept) t u
  | .builtin .., _, .builtin b t u => .builtin b t u

theorem carry_list (kept : ∀ {x y : Nat × Nat}, w.pairs x y → w'.pairs x y) :
    ∀ {vs ws : List Value},
    List.Forall₂ (Value.Matches exact w) vs ws → List.Forall₂ (Value.Matches exact w') vs ws
  | [], _, .nil => .nil
  | _ :: _, _, .cons head tail => .cons (carry kept head) (carry_list kept tail)

end

theorem mono (le : w.Le w') {a b : Value} (h : a.Matches exact w b) : a.Matches exact w' b :=
  h.carry le.kept

theorem mono_list (le : w.Le w') {vs ws : List Value}
    (h : List.Forall₂ (Value.Matches exact w) vs ws) :
    List.Forall₂ (Value.Matches exact w') vs ws :=
  carry_list le.kept h

mutual

theorem display_eq : ∀ {a b : Value}, a.Matches exact w b → a.display = b.display
  | .number .., _, .number n t u => by simp only [display_number]
  | .string .., _, .string s t u => by simp only [display_string]
  | .list .., _, .list elements t u => by simp only [display_list, displayList_eq elements]
  | .function .., _, .function functions t u => by
    simp only [display_function, functions.displayName]
  | .builtin .., _, .builtin b t u => by simp only [display_builtin]

theorem displayList_eq : ∀ {vs ws : List Value}, List.Forall₂ (Value.Matches exact w) vs ws →
    displayList vs = displayList ws
  | [], _, .nil => rfl
  | _ :: _, _, .cons head tail => by
    simp only [displayList, display_eq head, displayList_eq tail]

end

mutual

theorem same_eq : ∀ {a b a' b' : Value}, a.Matches exact w a' → b.Matches exact w b' →
    same a b = same a' b'
  | .list .., _, _, _, .list elements _ _, h => by
    cases h with
    | list elements' => simp only [same, sameList_eq elements elements']
    | _ => simp only [same]
  | .number .., _, _, _, .number .., h => by cases h <;> simp only [same]
  | .string .., _, _, _, .string .., h => by cases h <;> simp only [same]
  | .builtin .., _, _, _, .builtin .., h => by cases h <;> simp only [same]
  | .function .., _, _, _, .function functions _ _, h => by
    cases h with
    | function functions' => simp only [same, functions.same functions']
    | _ => simp only [same]

theorem sameList_eq : ∀ {vs ws vs' ws' : List Value}, List.Forall₂ (Value.Matches exact w) vs vs' →
    List.Forall₂ (Value.Matches exact w) ws ws' → sameList vs ws = sameList vs' ws'
  | [], _, _, _, .nil, h => by cases h <;> simp only [sameList]
  | _ :: _, _, _, _, .cons head tail, h => by
    cases h with
    | nil => simp only [sameList]
    | cons head' tail' => simp only [sameList, same_eq head head', sameList_eq tail tail']

end

mutual

theorem ofOlder {k left right : Nat} (hl : k ≤ left) (hr : k ≤ right) :
    ∀ {a : Value}, a.Older k → a.Matches exact (.itself k hl hr) a
  | .number .., _ => .number _ _ _
  | .string .., _ => .string _ _ _
  | .list vs _, .list elements _ => .list (ofOlder_list hl hr vs elements) _ _
  | .function .., .function made _ =>
    .function (.own (w := .itself _ hl hr) ⟨rfl, made⟩) _ _
  | .builtin .., _ => .builtin _ _ _

theorem ofOlder_list {k left right : Nat} (hl : k ≤ left) (hr : k ≤ right) :
    ∀ vs : List Value, (∀ v ∈ vs, v.Older k) →
      List.Forall₂ (Value.Matches exact (.itself k hl hr)) vs vs
  | [], _ => .nil
  | v :: vs, older => .cons (ofOlder hl hr (older v (.head _)))
    (ofOlder_list hl hr vs fun u mem => older u (.tail _ mem))

end

mutual

theorem older : ∀ {a b : Value}, a.Matches exact w b → a.Older w.left
  | .number .., _, .number .. => .number _ _
  | .string .., _, .string .. => .string _ _
  | .list .., _, .list elements _ _ => .list (older_list elements) _
  | .function .., _, .function functions _ _ => .function (w.older functions.pair).1 _
  | .builtin .., _, .builtin .. => .builtin _ _

theorem older_list : ∀ {vs ws : List Value}, List.Forall₂ (Value.Matches exact w) vs ws →
    ∀ v ∈ vs, v.Older w.left
  | _ :: _, _, .cons head tail, v, mem => by
    rcases List.mem_cons.1 mem with rfl | mem
    · exact older head
    · exact older_list tail v mem

end

theorem element {vs ws : List Value} (h : List.Forall₂ (Value.Matches exact w) vs ws) (i : Nat) :
    Option.Rel (Value.Matches exact w) vs[i]? ws[i]? := by
  induction h generalizing i with
  | nil => exact .none
  | cons head tail ih =>
    cases i with
    | zero => exact .some head
    | succ i => exact ih i

theorem without {vs ws : List Value} (h : List.Forall₂ (Value.Matches exact w) vs ws) (i : Nat) :
    List.Forall₂ (Value.Matches exact w) (vs.eraseIdx i) (ws.eraseIdx i) := by
  induction h generalizing i with
  | nil => exact .nil
  | cons head tail ih =>
    cases i with
    | zero => exact tail
    | succ i => exact .cons head (ih i)

end Value.Matches

structure Stamp.Matches (f g : Frame) (t u : Stamp) : Prop where
  span : t.span = u.span
  frame : (t.frame = Option.none ∧ u.frame = Option.none) ∨ (t.frame = some f ∧ u.frame = some g)

/-- Values that evaluation in the frames `f` and `g` gives. -/
structure Value.Made (exact : Bool) (w : Pairing) (f g : Frame) (v u : Value) : Prop where
  value : v.Matches exact w u
  stamp : exact = true → v.stamp.Matches f g u.stamp

namespace Value.Made

variable {exact : Bool} {w w' : Pairing} {f g : Frame} {a b a' b' : Value}

theorem null : Value.null.Made exact w f g .null := ⟨.null, fun _ => ⟨rfl, .inl ⟨rfl, rfl⟩⟩⟩

theorem place (h : a.Matches exact w b) {span span' : Span} (spans : exact = true → span = span') :
    (a.place span f).Made exact w f g (b.place span' g) := by
  refine ⟨h.place _ _ _ _, fun precise => ?_⟩
  simp only [Value.place, Value.stamp_restamp, spans precise]
  exact ⟨rfl, .inr ⟨rfl, rfl⟩⟩

theorem mono (h : a.Made exact w f g b) (le : w.Le w') : a.Made exact w' f g b :=
  ⟨h.value.mono le, h.stamp⟩

end Value.Made

end ScriptLang
