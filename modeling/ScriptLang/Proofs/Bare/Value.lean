import Mathlib.Data.List.InsertIdx
import ScriptLang.Proofs.Bare.Tree
import ScriptLang.Value.Change
import ScriptLang.Value.Operation

/-! Values without places and frames. Taking them out commutes with every operation on values:
places and frames go into error reports and into nothing else. -/
namespace ScriptLang

def Frame.bare (f : Frame) : Frame := .root f.id "" f.scope

theorem Frame.bare_eq {f g : Frame} : f.bare = g.bare ↔ f.id = g.id ∧ f.scope = g.scope := by
  simp [bare]

def Function.bare (f : Function) : Function :=
  { f with body := f.body.bare, closure := f.closure.bare }

theorem Function.bare_eq {f g : Function} : f.bare = g.bare ↔ f.label = g.label ∧
    f.name = g.name ∧ f.params = g.params ∧ f.body.bare = g.body.bare ∧
    f.autoReturn = g.autoReturn ∧ f.closure.bare = g.closure.bare := by
  simp [bare]

@[simp] theorem Function.bare_bare (f : Function) : f.bare.bare = f.bare := by
  simp [bare, Frame.bare, Frame.id, Frame.scope]

theorem Function.same_bare (f g : Function) : f.bare.same g.bare = f.same g := rfl

theorem Function.displayName_bare (f : Function) : f.bare.displayName = f.displayName := rfl

namespace Value

mutual

/-- The value without where and in which frame it, and what it consists of, was made. -/
def bare : Value → Value
  | number n _ => number n .none
  | string s _ => string s .none
  | list vs _ => list (bareList vs) .none
  | function f _ => function f.bare .none
  | builtin b _ => builtin b .none

def bareList : List Value → List Value
  | [] => []
  | v :: vs => bare v :: bareList vs

end

theorem bareList_eq_map (vs : List Value) : bareList vs = vs.map bare := by
  induction vs with
  | nil => simp only [bareList, List.map_nil]
  | cons v vs ih => simp only [bareList, List.map_cons, ih]

@[simp] theorem bare_number (n : Number) (t : Stamp) : (number n t).bare = number n .none := by
  simp only [bare]

@[simp] theorem bare_string (s : String) (t : Stamp) : (string s t).bare = string s .none := by
  simp only [bare]

@[simp] theorem bare_list (vs : List Value) (t : Stamp) :
    (list vs t).bare = list (vs.map bare) .none := by
  simp only [bare, bareList_eq_map]

@[simp] theorem bare_function (f : Function) (t : Stamp) :
    (function f t).bare = function f.bare .none := by
  simp only [bare]

@[simp] theorem bare_builtin (b : Builtin) (t : Stamp) : (builtin b t).bare = builtin b .none := by
  simp only [bare]

mutual

@[simp] theorem bare_bare : ∀ v : Value, v.bare.bare = v.bare
  | number n _ => by simp only [bare]
  | string s _ => by simp only [bare]
  | list vs _ => by simp only [bare, bareList_bareList vs]
  | function f _ => by simp only [bare, Function.bare_bare]
  | builtin b _ => by simp only [bare]

theorem bareList_bareList : ∀ vs : List Value, bareList (bareList vs) = bareList vs
  | [] => by simp only [bareList]
  | v :: vs => by simp only [bareList, bare_bare v, bareList_bareList vs]

end

@[simp] theorem bare_comp_bare : bare ∘ bare = bare := funext bare_bare

@[simp] theorem bare_restamp (v : Value) (t : Stamp) : (v.restamp t).bare = v.bare := by
  cases v <;> simp [restamp]

@[simp] theorem bare_place (v : Value) (span : Span) (frame : Frame) :
    (v.place span frame).bare = v.bare :=
  bare_restamp v _

@[simp] theorem bare_own (v : Value) (frame : Frame) : (v.own frame).bare = v.bare :=
  bare_restamp v _

theorem number?_bare (v : Value) : v.bare.number? = v.number? := by
  cases v <;> simp [number?]

theorem isTrue_bare (v : Value) : v.bare.isTrue = v.isTrue := by
  cases v <;> simp [isTrue]

theorem typeName_bare (v : Value) : v.bare.typeName = v.typeName := by
  cases v <;> simp [typeName]

mutual

theorem display_bare : ∀ v : Value, v.bare.display = v.display
  | number n _ => by simp only [bare_number, display_number]
  | string s _ => by simp only [bare_string, display_string]
  | list vs _ => by simp only [bare, display_list, displayList_bareList vs]
  | function f _ => by simp only [bare_function, display_function, Function.displayName_bare]
  | builtin b _ => by simp only [bare_builtin, display_builtin]

theorem displayList_bareList : ∀ vs : List Value, displayList (bareList vs) = displayList vs
  | [] => by simp only [bareList, displayList]
  | v :: vs => by simp only [bareList, displayList, display_bare v, displayList_bareList vs]

end

mutual

theorem same_bare : ∀ v w : Value, same v.bare w.bare = same v w
  | list vs _, w => by
    cases w with
    | list ws _ => simp only [bare, same, sameList_bareList vs ws]
    | _ => simp only [bare, same]
  | number .., w => by cases w <;> simp only [bare, same]
  | string .., w => by cases w <;> simp only [bare, same]
  | function .., w => by cases w <;> simp only [bare, same, Function.same_bare]
  | builtin .., w => by cases w <;> simp only [bare, same]

theorem sameList_bareList : ∀ vs ws : List Value,
    sameList (bareList vs) (bareList ws) = sameList vs ws
  | [], ws => by cases ws <;> simp only [bareList, sameList]
  | v :: vs, ws => by
    cases ws with
    | nil => simp only [bareList, sameList]
    | cons w ws => simp only [bareList, sameList, same_bare v w, sameList_bareList vs ws]

end

def resultBare : Except OperationError Value → Except Fault Value
  | .ok v => .ok v.bare
  | .error e => .error e.fault

theorem onNumbers_bare (f : Number → Number → Number) (a b : Value) :
    resultBare (onNumbers f a.bare b.bare) = resultBare (onNumbers f a b) := by
  cases a <;> cases b <;> simp [onNumbers, resultBare, illegal]

theorem add_bare (a b : Value) : resultBare (add a.bare b.bare) = resultBare (add a b) := by
  cases a <;> cases b <;> simp [add, resultBare, illegal]

theorem sub_bare (a b : Value) : resultBare (sub a.bare b.bare) = resultBare (sub a b) := by
  cases a <;> cases b
  case list.number vs t n t' =>
    simp only [sub, bare_list, bare_number, List.length_map]
    cases n.toIndex vs.length with
    | none => simp [resultBare, blame]
    | some i => simp [resultBare, List.eraseIdx_map]
  all_goals simp [sub, resultBare, illegal]

theorem mul_bare (a b : Value) : resultBare (mul a.bare b.bare) = resultBare (mul a b) := by
  cases a <;> cases b
  case string.number s t n t' =>
    cases n with
    | int count =>
      simp only [mul, bare_string, bare_number]
      cases repeated s count.toInt <;> simp [resultBare, blame]
    | float x => simp [mul, resultBare, illegal]
  all_goals simp [mul, resultBare, illegal]

theorem div_bare (a b : Value) : resultBare (div a.bare b.bare) = resultBare (div a b) := by
  cases a <;> cases b
  case list.number vs t n t' =>
    simp only [div, bare_list, bare_number, List.length_map, List.getElem?_map]
    cases n.toIndex vs.length with
    | none => simp [resultBare, blame]
    | some i =>
      simp only [Option.bind_some]
      cases vs[i]? <;> simp [resultBare, blame]
  case number.number m t n t' =>
    simp only [div, bare_number]
    split <;> simp [resultBare, blame]
  all_goals simp [div, resultBare, illegal]

/-- An operator works on what values are and not on where they were made. -/
theorem apply_bare (op : BinaryOp) (a b : Value) :
    resultBare (op.apply a.bare b.bare) = resultBare (op.apply a b) := by
  cases op with
  | add => exact add_bare a b
  | sub => exact sub_bare a b
  | mul => exact mul_bare a b
  | div => exact div_bare a b
  | eq => simp [BinaryOp.apply, Value.eq, resultBare, same_bare]
  | ne => simp [BinaryOp.apply, Value.ne, resultBare, same_bare]
  | pow | lt | lte | gt | gte | and | or => exact onNumbers_bare _ a b

theorem append_bare (a b : Value) :
    (append a.bare b.bare).map bare = (append a b).map bare := by
  cases a <;> simp [append, Except.map]

theorem extend_bare (a b : Value) :
    (extend a.bare b.bare).map bare = (extend a b).map bare := by
  cases a <;> cases b <;> simp [extend, list?, Except.map]

theorem pop_bare (a b : Value) : (pop a.bare b.bare).map (fun x => (x.1.bare, x.2.bare)) =
    (pop a b).map fun x => (x.1.bare, x.2.bare) := by
  cases a <;> cases b
  case list.number vs t n t' =>
    simp only [pop, bare_list, bare_number, number?, List.length_map, List.getElem?_map]
    cases n.toIndex vs.length with
    | none => simp [Except.map]
    | some i =>
      dsimp only
      cases vs[i]? <;> simp [Except.map, List.eraseIdx_map]
  all_goals simp [pop, number?, Except.map]

theorem apply_bare_unary (op : UnaryOp) (a : Value) :
    resultBare (op.apply a.bare) = resultBare (op.apply a) := by
  cases op <;> cases a <;> simp [UnaryOp.apply, neg, Value.not, resultBare, illegalAlone]

end Value

end ScriptLang
