import Mathlib.Data.List.InsertIdx
import ScriptLang.Eval.Call
import ScriptLang.Proofs.Bare.Value

/-! The built-in functions on lists and the operators on lists. Each function leaves the list that
an operator gives, but for where and in which frame it was made: `APPEND` that of `+`, `EXTEND`
that of `*`, and `POP` that of `-`, with the element that `/` gives as its result. -/
namespace ScriptLang

variable {σ : Type}

open Eval

theorem Number.toIndex_lt {n : Number} {length i : Nat} (h : n.toIndex length = some i) :
    i < length := by
  simp only [toIndex, Option.bind_eq_bind, Option.bind_eq_some_iff, Option.ite_none_right_eq_some,
    Option.some.injEq] at h
  obtain ⟨index, -, range, place⟩ := h
  omega

namespace Value

/-- The place in a list of the given length that a value names. -/
def toIndex (n : Value) (length : Nat) : Option Nat := n.number?.bind (·.toIndex length)

theorem toIndex_lt {n : Value} {length i : Nat} (h : n.toIndex length = some i) : i < length := by
  obtain ⟨k, -, named⟩ := Option.bind_eq_some_iff.1 h
  exact Number.toIndex_lt named

variable {vs : List Value} {t : Stamp} {n : Value}

theorem pop_of_toIndex {i : Nat} (h : n.toIndex vs.length = some i) (within : i < vs.length) :
    (list vs t).pop n = .ok (vs[i], list (vs.eraseIdx i) t) := by
  cases n with
  | number k u =>
    change k.toIndex vs.length = some i at h
    simp [pop, number?, h, within]
  | string | list | function | builtin => cases h

theorem sub_of_toIndex {i : Nat} (h : n.toIndex vs.length = some i) :
    (list vs t).sub n = .ok (list (vs.eraseIdx i) (list vs t).derived) := by
  cases n with
  | number k u =>
    change k.toIndex vs.length = some i at h
    simp [sub, h]
  | string | list | function | builtin => cases h

theorem div_of_toIndex {i : Nat} (h : n.toIndex vs.length = some i) (within : i < vs.length) :
    (list vs t).div n = .ok vs[i] := by
  cases n with
  | number k u =>
    change k.toIndex vs.length = some i at h
    simp [div, h, within]
  | string | list | function | builtin => cases h

theorem errors_of_toIndex_eq_none (h : n.toIndex vs.length = none) :
    (∃ fault, (list vs t).pop n = .error fault) ∧ (∃ e, (list vs t).sub n = .error e) ∧
      ∃ e, (list vs t).div n = .error e := by
  cases n with
  | number k u =>
    change k.toIndex vs.length = none at h
    simp [pop, sub, div, number?, h]
  | string | list | function | builtin => simp [pop, sub, div, number?]

end Value

theorem execute_pop (fuel : Nat) (self : Evaluator σ) (first n : Value) (site : Span)
    (frame : Frame) (m : Machine σ) : execute fuel self .pop [first, n] site frame m =
      match first.pop n with
      | .ok (taken, rest) => .done (taken, some rest) m
      | .error fault => fail fault site frame m := by
  unfold execute
  change Eval.bind (orFail (first.pop n) site frame) _ m = _
  unfold Eval.bind orFail
  cases first.pop n <;> rfl

theorem execute_len (fuel : Nat) (self : Evaluator σ) (vs : List Value) (t : Stamp) (site : Span)
    (frame : Frame) (m : Machine σ) : execute fuel self .len [.list vs t] site frame m =
      .done (.int (Int64.ofNat vs.length), none) m := rfl

/-- For every list: what `APPEND` and `EXTEND` leave, and that `POP`, `-` and `/` fail together or
find the same element, which put back at its place gives the list again. -/
theorem list_functions_match_operators (fuel : Nat) (self : Evaluator σ) (site : Span)
    (frame : Frame) (m : Machine σ) (vs ws : List Value) (t u : Stamp) (v n : Value) :
    (∃ left sum,
      execute fuel self .append [.list vs t, v] site frame m = .done (.null, some left) m ∧
      (Value.list vs t).add v = .ok sum ∧ left.bare = sum.bare) ∧
    (∃ left sum, execute fuel self .extend [.list vs t, .list ws u] site frame m =
        .done (.null, some left) m ∧
      (Value.list vs t).mul (.list ws u) = .ok sum ∧ left.bare = sum.bare) ∧
    ((∃ fault e e', execute fuel self .pop [.list vs t, n] site frame m = fail fault site frame m ∧
        (Value.list vs t).sub n = .error e ∧ (Value.list vs t).div n = .error e') ∨
      ∃ i taken rest less length, n.toIndex vs.length = some i ∧
        execute fuel self .pop [.list vs t, n] site frame m = .done (taken, some (.list rest t)) m ∧
        (Value.list vs t).div n = .ok taken ∧
        (Value.list vs t).sub n = .ok less ∧ (Value.list rest t).bare = less.bare ∧
        execute fuel self .len [.list vs t] site frame m = .done (.int length, none) m ∧
        execute fuel self .len [.list rest t] site frame m = .done (.int (length - 1), none) m ∧
        rest.length + 1 = vs.length ∧ rest.insertIdx i taken = vs) := by
  refine ⟨⟨_, _, rfl, rfl, ?_⟩, ⟨_, _, rfl, rfl, ?_⟩, ?_⟩
  · simp
  · simp
  · cases named : n.toIndex vs.length with
    | none =>
      obtain ⟨⟨fault, popped⟩, ⟨e, removed⟩, ⟨e', retrieved⟩⟩ :=
        Value.errors_of_toIndex_eq_none (t := t) named
      exact .inl ⟨fault, e, e', by rw [execute_pop, popped], removed, retrieved⟩
    | some i =>
      have within := Value.toIndex_lt named
      have fewer : (vs.eraseIdx i).length + 1 = vs.length := by
        rw [List.length_eraseIdx_of_lt within]
        omega
      have shorter : Int64.ofNat (vs.eraseIdx i).length = Int64.ofNat vs.length - 1 := by
        rw [← fewer, Int64.ofNat_add]
        simp
      refine .inr ⟨i, vs[i], vs.eraseIdx i, _, _, rfl, ?_, Value.div_of_toIndex named within,
        Value.sub_of_toIndex named, by simp, execute_len .., ?_, fewer,
        List.insertIdx_eraseIdx_getElem within⟩
      · rw [execute_pop, Value.pop_of_toIndex named within]
      · rw [execute_len, shorter]

end ScriptLang
