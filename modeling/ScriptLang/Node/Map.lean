import ScriptLang.Node

/-! Changing the notes of a tree. Forgetting them leaves the program itself. -/
namespace ScriptLang.Node

variable {α β : Type}

mutual

def map (f : α → β) : Node α → Node β
  | number n a => .number n (f a)
  | string s a => .string s (f a)
  | list es a => .list (mapList f es) (f a)
  | access name a => .access name (f a)
  | assign name v a => .assign name (map f v) (f a)
  | unary op v a => .unary op (map f v) (f a)
  | binary op l r a => .binary op (map f l) (map f r) (f a)
  | cond arms last a => .cond (mapArms f arms) (mapOtherwise f last) (f a)
  | forLoop name first last step body suppress a =>
    .forLoop name (map f first) (map f last) (mapOption f step) (map f body) suppress (f a)
  | whileLoop c body suppress a => .whileLoop (map f c) (map f body) suppress (f a)
  | breaks a => .breaks (f a)
  | continues a => .continues (f a)
  | returns v a => .returns (mapOption f v) (f a)
  | function name params body auto a => .function name params (map f body) auto (f a)
  | call g args a => .call (map f g) (mapList f args) (f a)
  | block ss a => .block (mapList f ss) (f a)

def mapList (f : α → β) : List (Node α) → List (Node β)
  | [] => []
  | n :: ns => map f n :: mapList f ns

def mapOption (f : α → β) : Option (Node α) → Option (Node β)
  | none => none
  | some n => some (map f n)

def mapArms (f : α → β) : List (Arm (Node α)) → List (Arm (Node β))
  | [] => []
  | ⟨c, b, s⟩ :: arms => ⟨map f c, map f b, s⟩ :: mapArms f arms

def mapOtherwise (f : α → β) : Option (Otherwise (Node α)) → Option (Otherwise (Node β))
  | none => none
  | some ⟨b, s⟩ => some ⟨map f b, s⟩

end

def erase (n : Node α) : Node Unit := map (fun _ => ()) n

@[simp] theorem note_map (f : α → β) (n : Node α) : (map f n).note = f n.note := by
  cases n <;> rfl

theorem mapList_eq_map (f : α → β) (ns : List (Node α)) : mapList f ns = ns.map (map f) := by
  induction ns with
  | nil => rfl
  | cons n ns ih => exact congrArg (map f n :: ·) ih

theorem mapOption_eq_map (f : α → β) (n : Option (Node α)) : mapOption f n = n.map (map f) := by
  cases n <;> rfl

end ScriptLang.Node

namespace ScriptLang

variable {ν μ : Type}

def Arm.map (g : ν → μ) (a : Arm ν) : Arm μ := ⟨g a.condition, g a.body, a.suppress⟩

def Otherwise.map (g : ν → μ) (o : Otherwise ν) : Otherwise μ := ⟨g o.body, o.suppress⟩

namespace Node

variable {α β : Type}

theorem mapArms_eq_map (f : α → β) (arms : List (Arm (Node α))) :
    mapArms f arms = arms.map (Arm.map (map f)) := by
  induction arms with
  | nil => rfl
  | cons arm arms ih => exact congrArg (Arm.map (map f) arm :: ·) ih

theorem mapOtherwise_eq_map (f : α → β) (last : Option (Otherwise (Node α))) :
    mapOtherwise f last = last.map (Otherwise.map (map f)) := by
  cases last <;> rfl

section Erase

variable (a : α)

@[simp] theorem erase_number (n : Number) : erase (number n a) = number n () := rfl

@[simp] theorem erase_string (s : String) : erase (string s a) = string s () := rfl

@[simp] theorem erase_list (es : List (Node α)) : erase (list es a) = list (es.map erase) () :=
  congrArg (list · ()) (mapList_eq_map _ es)

@[simp] theorem erase_access (name : String) : erase (access name a) = access name () := rfl

@[simp] theorem erase_assign (name : String) (v : Node α) :
    erase (assign name v a) = assign name v.erase () := rfl

@[simp] theorem erase_unary (op : UnaryOp) (v : Node α) :
    erase (unary op v a) = unary op v.erase () := rfl

@[simp] theorem erase_binary (op : BinaryOp) (l r : Node α) :
    erase (binary op l r a) = binary op l.erase r.erase () := rfl

@[simp] theorem erase_cond (arms : List (Arm (Node α))) (last : Option (Otherwise (Node α))) :
    erase (cond arms last a) =
      cond (arms.map (Arm.map erase)) (last.map (Otherwise.map erase)) () := by
  change cond (mapArms _ arms) (mapOtherwise _ last) () = _
  rw [mapArms_eq_map, mapOtherwise_eq_map]
  rfl

@[simp] theorem erase_forLoop (name : String) (first last : Node α) (step : Option (Node α))
    (body : Node α) (suppress : Bool) : erase (forLoop name first last step body suppress a) =
      forLoop name first.erase last.erase (step.map erase) body.erase suppress () :=
  congrArg (forLoop name first.erase last.erase · body.erase suppress ()) (mapOption_eq_map _ step)

@[simp] theorem erase_whileLoop (c body : Node α) (suppress : Bool) :
    erase (whileLoop c body suppress a) = whileLoop c.erase body.erase suppress () := rfl

@[simp] theorem erase_breaks : erase (breaks a) = breaks () := rfl

@[simp] theorem erase_continues : erase (continues a) = continues () := rfl

@[simp] theorem erase_returns (v : Option (Node α)) :
    erase (returns v a) = returns (v.map erase) () :=
  congrArg (returns · ()) (mapOption_eq_map _ v)

@[simp] theorem erase_function (name : Option String) (params : List String) (body : Node α)
    (auto : Bool) :
    erase (function name params body auto a) = function name params body.erase auto () := rfl

@[simp] theorem erase_call (g : Node α) (args : List (Node α)) :
    erase (call g args a) = call g.erase (args.map erase) () :=
  congrArg (call g.erase · ()) (mapList_eq_map _ args)

@[simp] theorem erase_block (ss : List (Node α)) : erase (block ss a) = block (ss.map erase) () :=
  congrArg (block · ()) (mapList_eq_map _ ss)

end Erase

end Node

end ScriptLang
