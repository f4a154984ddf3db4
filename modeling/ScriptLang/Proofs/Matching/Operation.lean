import ScriptLang.Proofs.Matching.Value
import ScriptLang.Value.Change
import ScriptLang.Value.Operation

/-! Operations on values that match give values that match, or fail in the same way and, as far as
their operands know, in the same place. -/
namespace ScriptLang

inductive OperationMatches (exact : Bool) (w : Pairing) (f g : Frame) :
    Except OperationError Value → Except OperationError Value → Prop where
  | ok {v u : Value} (values : v.Matches exact w u) :
    OperationMatches exact w f g (.ok v) (.ok u)
  | error {t u : Stamp} (fault : Fault) (stamps : exact = true → t.Matches f g u) :
    OperationMatches exact w f g (.error ⟨fault, t⟩) (.error ⟨fault, u⟩)

namespace OperationMatches

variable {exact : Bool} {w : Pairing} {f g : Frame} {a b a' b' : Value}

theorem illegal (ha : a.Made exact w f g a') (hb : b.Made exact w f g b') :
    OperationMatches exact w f g (.error (Value.illegal a b)) (.error (Value.illegal a' b')) :=
  .error _ fun precise =>
    ⟨by simp only [(ha.stamp precise).span, (hb.stamp precise).span], (ha.stamp precise).frame⟩

theorem illegalAlone (ha : a.Made exact w f g a') :
    OperationMatches exact w f g (.error (Value.illegalAlone a))
      (.error (Value.illegalAlone a')) :=
  .error _ fun precise => ha.stamp precise

theorem blame (ha : a.Made exact w f g a') (hb : b.Made exact w f g b') (fault : Fault) :
    OperationMatches exact w f g (.error (a.blame b fault)) (.error (a'.blame b' fault)) :=
  .error _ fun precise => ⟨(hb.stamp precise).span, (ha.stamp precise).frame⟩

theorem onNumbers (op : Number → Number → Number) (ha : a.Made exact w f g a')
    (hb : b.Made exact w f g b') :
    OperationMatches exact w f g (Value.onNumbers op a b) (Value.onNumbers op a' b') := by
  obtain ⟨va, -⟩ := id ha
  obtain ⟨vb, -⟩ := id hb
  cases va <;> cases vb <;> first
    | exact .ok (.number _ _ _)
    | exact illegal ha hb

theorem add (ha : a.Made exact w f g a') (hb : b.Made exact w f g b') :
    OperationMatches exact w f g (a.add b) (a'.add b') := by
  obtain ⟨va, -⟩ := id ha
  obtain ⟨vb, -⟩ := id hb
  cases va with
  | list elements => exact .ok (.list (List.rel_append elements (.cons vb .nil)) _ _)
  | number m =>
    cases vb with
    | number n => exact .ok (.number _ _ _)
    | _ => exact illegal ha hb
  | string s =>
    cases vb with
    | string t => exact .ok (.string _ _ _)
    | _ => exact illegal ha hb
  | function | builtin => cases vb <;> exact illegal ha hb

theorem sub (ha : a.Made exact w f g a') (hb : b.Made exact w f g b') :
    OperationMatches exact w f g (a.sub b) (a'.sub b') := by
  obtain ⟨va, -⟩ := id ha
  obtain ⟨vb, -⟩ := id hb
  cases va with
  | number m =>
    cases vb with
    | number n => exact .ok (.number _ _ _)
    | _ => exact illegal ha hb
  | list elements =>
    cases vb with
    | number n =>
      simp only [Value.sub, ← elements.length_eq]
      split
      · next i _ => exact .ok (.list (Value.Matches.without elements i) _ _)
      · exact blame ha hb _
    | _ => exact illegal ha hb
  | string | function | builtin => cases vb <;> exact illegal ha hb

theorem mul (ha : a.Made exact w f g a') (hb : b.Made exact w f g b') :
    OperationMatches exact w f g (a.mul b) (a'.mul b') := by
  obtain ⟨va, -⟩ := id ha
  obtain ⟨vb, -⟩ := id hb
  cases va with
  | number m =>
    cases vb with
    | number n => exact .ok (.number _ _ _)
    | _ => exact illegal ha hb
  | string s =>
    cases vb with
    | number n =>
      cases n with
      | int count =>
        simp only [Value.mul]
        split
        · exact .ok (.string _ _ _)
        · exact blame ha hb _
      | float x => exact illegal ha hb
    | _ => exact illegal ha hb
  | list elements =>
    cases vb with
    | list elements' => exact .ok (.list (List.rel_append elements elements') _ _)
    | _ => exact illegal ha hb
  | function | builtin => cases vb <;> exact illegal ha hb

theorem div (ha : a.Made exact w f g a') (hb : b.Made exact w f g b') :
    OperationMatches exact w f g (a.div b) (a'.div b') := by
  obtain ⟨va, -⟩ := id ha
  obtain ⟨vb, -⟩ := id hb
  cases va with
  | number m =>
    cases vb with
    | number n =>
      simp only [Value.div]
      split
      · exact blame ha hb _
      · exact .ok (.number _ _ _)
    | _ => exact illegal ha hb
  | @list vs ws elements =>
    cases vb with
    | number n =>
      simp only [Value.div, ← elements.length_eq]
      cases n.toIndex vs.length with
      | none => exact blame ha hb _
      | some i =>
        have element := Value.Matches.element elements i
        simp only [Option.bind_some]
        generalize vs[i]? = found at element ⊢
        generalize ws[i]? = found' at element ⊢
        cases element with
        | none => exact blame ha hb _
        | some values => exact .ok values
    | _ => exact illegal ha hb
  | string | function | builtin => cases vb <;> exact illegal ha hb

theorem binary (op : BinaryOp) (ha : a.Made exact w f g a') (hb : b.Made exact w f g b') :
    OperationMatches exact w f g (op.apply a b) (op.apply a' b') := by
  cases op with
  | add => exact add ha hb
  | sub => exact sub ha hb
  | mul => exact mul ha hb
  | div => exact div ha hb
  | eq =>
    simp only [BinaryOp.apply, Value.eq, ha.value.same_eq hb.value]
    exact .ok (.number _ _ _)
  | ne =>
    simp only [BinaryOp.apply, Value.ne, ha.value.same_eq hb.value]
    exact .ok (.number _ _ _)
  | pow | lt | lte | gt | gte | and | or => exact onNumbers _ ha hb

theorem unary (op : UnaryOp) (ha : a.Made exact w f g a') :
    OperationMatches exact w f g (op.apply a) (op.apply a') := by
  obtain ⟨va, -⟩ := id ha
  cases op with
  | plus => exact .ok va
  | minus | not =>
    cases va with
    | number n => exact .ok (.number _ _ _)
    | _ => exact illegalAlone ha

end OperationMatches

inductive ChangeMatches {α : Type} (V : α → α → Prop) : Except Fault α → Except Fault α → Prop where
  | ok {a b : α} (values : V a b) : ChangeMatches V (.ok a) (.ok b)
  | error (fault : Fault) : ChangeMatches V (.error fault) (.error fault)

namespace ChangeMatches

variable {exact : Bool} {w : Pairing} {a b a' b' : Value}

theorem append (ha : a.Matches exact w a') (hb : b.Matches exact w b') :
    ChangeMatches (Value.Matches exact w) (a.append b) (a'.append b') := by
  cases ha with
  | list elements => exact .ok (.list (List.rel_append elements (.cons hb .nil)) _ _)
  | _ => exact .error _

theorem extend (ha : a.Matches exact w a') (hb : b.Matches exact w b') :
    ChangeMatches (Value.Matches exact w) (a.extend b) (a'.extend b') := by
  cases hb with
  | list elements' =>
    cases ha with
    | list elements => exact .ok (.list (List.rel_append elements elements') _ _)
    | _ => exact .error _
  | _ => exact .error _

theorem pop (ha : a.Matches exact w a') (hb : b.Matches exact w b') :
    ChangeMatches (fun x y => x.1.Matches exact w y.1 ∧ x.2.Matches exact w y.2)
      (a.pop b) (a'.pop b') := by
  cases hb with
  | number n =>
    cases ha with
    | @list vs ws elements =>
      simp only [Value.pop, Value.number?, ← elements.length_eq]
      cases n.toIndex vs.length with
      | none => exact .error _
      | some i =>
        have element := Value.Matches.element elements i
        dsimp only
        generalize vs[i]? = found at element ⊢
        generalize ws[i]? = found' at element ⊢
        cases element with
        | none => exact .error _
        | some values => exact .ok ⟨values, .list (Value.Matches.without elements i) _ _⟩
    | _ => exact .error _
  | _ => exact .error _

end ChangeMatches

end ScriptLang
