import ScriptLang.Node.Map

/-! Trees without places. A bare tree still numbers its constructs by their first tokens, so that
two function literals of it are told apart. -/
namespace ScriptLang

def Span.nowhere : Span := ⟨⟨"", ""⟩, .origin, .origin⟩

def Mark.bare (m : Mark) : Mark := ⟨.nowhere, m.index⟩

theorem Mark.bare_eq {m n : Mark} : m.bare = n.bare ↔ m.index = n.index := by
  simp [bare]

@[simp] theorem Mark.bare_upTo (m : Mark) (stop : Span) : (m.upTo stop).bare = m.bare := rfl

@[simp] theorem Mark.bare_through (m n : Mark) : (m.through n).bare = m.bare := rfl

namespace Node

variable {α β γ : Type}

mutual

theorem map_map (f : α → β) (g : β → γ) : ∀ n : Node α, map g (map f n) = map (g ∘ f) n
  | number .. | string .. | access .. | breaks .. | continues .. => by
    simp only [map, Function.comp]
  | list es _ => by simp only [map, mapList_mapList f g es, Function.comp]
  | assign _ v _ => by simp only [map, map_map f g v, Function.comp]
  | unary _ v _ => by simp only [map, map_map f g v, Function.comp]
  | binary _ l r _ => by simp only [map, map_map f g l, map_map f g r, Function.comp]
  | cond arms last _ => by
    simp only [map, mapArms_mapArms f g arms, mapOtherwise_mapOtherwise f g last, Function.comp]
  | forLoop _ first last step body _ _ => by
    simp only [map, map_map f g first, map_map f g last, mapOption_mapOption f g step,
      map_map f g body, Function.comp]
  | whileLoop c body _ _ => by simp only [map, map_map f g c, map_map f g body, Function.comp]
  | returns v _ => by simp only [map, mapOption_mapOption f g v, Function.comp]
  | function _ _ body _ _ => by simp only [map, map_map f g body, Function.comp]
  | call h args _ => by simp only [map, map_map f g h, mapList_mapList f g args, Function.comp]
  | block ss _ => by simp only [map, mapList_mapList f g ss, Function.comp]

theorem mapList_mapList (f : α → β) (g : β → γ) :
    ∀ ns : List (Node α), mapList g (mapList f ns) = mapList (g ∘ f) ns
  | [] => by simp only [mapList]
  | n :: ns => by simp only [mapList, map_map f g n, mapList_mapList f g ns]

theorem mapOption_mapOption (f : α → β) (g : β → γ) :
    ∀ n : Option (Node α), mapOption g (mapOption f n) = mapOption (g ∘ f) n
  | none => by simp only [mapOption]
  | some n => by simp only [mapOption, map_map f g n]

theorem mapArms_mapArms (f : α → β) (g : β → γ) :
    ∀ arms : List (Arm (Node α)), mapArms g (mapArms f arms) = mapArms (g ∘ f) arms
  | [] => by simp only [mapArms]
  | ⟨c, b, _⟩ :: arms => by
    simp only [mapArms, map_map f g c, map_map f g b, mapArms_mapArms f g arms]

theorem mapOtherwise_mapOtherwise (f : α → β) (g : β → γ) :
    ∀ last : Option (Otherwise (Node α)),
      mapOtherwise g (mapOtherwise f last) = mapOtherwise (g ∘ f) last
  | none => by simp only [mapOtherwise]
  | some ⟨b, _⟩ => by simp only [mapOtherwise, map_map f g b]

end

def bare (t : Tree) : Tree := map Mark.bare t

end Node

def Arm.bare (a : Arm Tree) : Arm Tree := a.map Node.bare

def Otherwise.bare (o : Otherwise Tree) : Otherwise Tree := o.map Node.bare

namespace Node

section Constructors

variable (a : Mark)

@[simp] theorem bare_number (n : Number) : bare (number n a) = number n a.bare := by
  simp only [bare, map]

@[simp] theorem bare_string (s : String) : bare (string s a) = string s a.bare := by
  simp only [bare, map]

@[simp] theorem bare_list (es : List Tree) : bare (list es a) = list (es.map bare) a.bare := by
  simp only [bare, map, mapList_eq_map]; rfl

@[simp] theorem bare_access (name : String) : bare (access name a) = access name a.bare := by
  simp only [bare, map]

@[simp] theorem bare_assign (name : String) (v : Tree) :
    bare (assign name v a) = assign name v.bare a.bare := by
  simp only [bare, map]

@[simp] theorem bare_unary (op : UnaryOp) (v : Tree) :
    bare (unary op v a) = unary op v.bare a.bare := by
  simp only [bare, map]

@[simp] theorem bare_binary (op : BinaryOp) (l r : Tree) :
    bare (binary op l r a) = binary op l.bare r.bare a.bare := by
  simp only [bare, map]

@[simp] theorem bare_cond (arms : List (Arm Tree)) (last : Option (Otherwise Tree)) :
    bare (cond arms last a) = cond (arms.map Arm.bare) (last.map Otherwise.bare) a.bare := by
  simp only [bare, map, mapArms_eq_map, mapOtherwise_eq_map]; rfl

@[simp] theorem bare_forLoop (name : String) (first last : Tree) (step : Option Tree)
    (body : Tree) (suppress : Bool) : bare (forLoop name first last step body suppress a) =
      forLoop name first.bare last.bare (step.map bare) body.bare suppress a.bare := by
  simp only [bare, map, mapOption_eq_map]; rfl

@[simp] theorem bare_whileLoop (c body : Tree) (suppress : Bool) :
    bare (whileLoop c body suppress a) = whileLoop c.bare body.bare suppress a.bare := by
  simp only [bare, map]

@[simp] theorem bare_breaks : bare (breaks a) = breaks a.bare := by simp only [bare, map]

@[simp] theorem bare_continues : bare (continues a) = continues a.bare := by
  simp only [bare, map]

@[simp] theorem bare_returns (v : Option Tree) :
    bare (returns v a) = returns (v.map bare) a.bare := by
  simp only [bare, map, mapOption_eq_map]; rfl

@[simp] theorem bare_function (name : Option String) (params : List String) (body : Tree)
    (auto : Bool) :
    bare (function name params body auto a) = function name params body.bare auto a.bare := by
  simp only [bare, map]

@[simp] theorem bare_call (g : Tree) (args : List Tree) :
    bare (call g args a) = call g.bare (args.map bare) a.bare := by
  simp only [bare, map, mapList_eq_map]; rfl

@[simp] theorem bare_block (ss : List Tree) : bare (block ss a) = block (ss.map bare) a.bare := by
  simp only [bare, map, mapList_eq_map]; rfl

end Constructors

@[simp] theorem erase_bare (t : Tree) : erase (bare t) = erase t := by
  simp only [erase, bare, map_map, Function.comp_def]

@[simp] theorem bare_bare (t : Tree) : bare (bare t) = bare t := by
  simp only [bare, map_map]; rfl

theorem erase_eq_of_bare {t u : Tree} (h : bare t = bare u) : erase t = erase u := by
  rw [← erase_bare t, h, erase_bare u]

@[simp] theorem note_bare (t : Tree) : (bare t).note = t.note.bare := note_map Mark.bare t

theorem bare_note_eq {t u : Tree} (h : bare t = bare u) : t.note.bare = u.note.bare := by
  rw [← note_bare t, h, note_bare u]

end Node

end ScriptLang
