import Mathlib.Data.List.Chain
import ScriptLang.Frame.Traceback

/-! Tracebacks tell every active call. Lines that are left out can be put back from what stands for
them, and there is one line for each frame from the oldest to the innermost. -/
namespace ScriptLang

def Frame.chain : Frame → List Frame
  | root i n s => [root i n s]
  | call i n s site caller => call i n s site caller :: caller.chain

/-- Each frame with the place that it was called at by the frame before it; the innermost with the
given one. -/
theorem Frame.trace_eq_zip (place : Span) (frame : Frame) : frame.trace place =
    (place :: frame.chain.filterMap Frame.site?).zip (frame.chain.map Frame.name) := by
  induction frame generalizing place with
  | root => rfl
  | call i name scope site caller ih => simp [trace, chain, site?, Frame.name, ih]

theorem Frame.trace_length (place : Span) (frame : Frame) :
    (frame.trace place).length = frame.chain.length := by
  induction frame generalizing place with
  | root => rfl
  | call i name scope site caller ih => simp [trace, chain, ih]

namespace Traceback

def spread (rs : List (String × Nat)) : List String := rs.flatMap fun r => List.replicate r.2 r.1

@[simp] theorem spread_cons (r : String × Nat) (rs : List (String × Nat)) :
    spread (r :: rs) = List.replicate r.2 r.1 ++ spread rs := rfl

/-- Lines with their numbers, none of which could be made larger. -/
structure Maximal (rs : List (String × Nat)) : Prop where
  some : ∀ r ∈ rs, 0 < r.2
  apart : rs.IsChain fun r r' => r.1 ≠ r'.1

theorem runs_cons_same {line : String} {lines : List String} {count : Nat}
    {rs : List (String × Nat)} (eq : runs lines = (line, count) :: rs) :
    runs (line :: lines) = (line, count + 1) :: rs := by
  rw [runs, List.foldr_cons, ← runs, eq]
  simp

theorem runs_cons_other {line : String} {lines : List String}
    (other : ∀ r ∈ (runs lines).head?, line ≠ r.1) :
    runs (line :: lines) = (line, 1) :: runs lines := by
  rw [runs, List.foldr_cons, ← runs]
  cases eq : runs lines with
  | nil => rfl
  | cons r rs =>
    rw [eq] at other
    simp [Ne.symm (other r rfl)]

theorem runs_cons (line : String) (lines : List String) :
    (∃ count rs, runs lines = (line, count) :: rs) ∨ ∀ r ∈ (runs lines).head?, line ≠ r.1 := by
  cases runs lines with
  | nil => simp
  | cons r rs =>
    by_cases same : line = r.1
    · exact .inl ⟨r.2, rs, by rw [same]⟩
    · exact .inr (by simpa using same)

@[simp] theorem spread_runs (lines : List String) : spread (runs lines) = lines := by
  induction lines with
  | nil => rfl
  | cons line lines ih =>
    rcases runs_cons line lines with ⟨count, rs, eq⟩ | other
    · rw [eq, spread_cons] at ih
      simp [runs_cons_same eq, List.replicate_succ, ih]
    · simp [runs_cons_other other, ih]

theorem maximal_runs (lines : List String) : Maximal (runs lines) := by
  induction lines with
  | nil => exact ⟨by simp [runs], .nil⟩
  | cons line lines ih =>
    rcases runs_cons line lines with ⟨count, rs, eq⟩ | other
    · rw [eq] at ih
      rw [runs_cons_same eq]
      have some := ih.some
      have apart := ih.apart
      rw [List.isChain_cons] at apart
      have others := fun r mem => some r (List.mem_cons_of_mem _ mem)
      exact ⟨by simpa using others, List.isChain_cons.2 apart⟩
    · rw [runs_cons_other other]
      exact ⟨by simpa using ih.some, List.isChain_cons.2 ⟨other, ih.apart⟩⟩

theorem runs_replicate_append {line : String} {lines : List String}
    (other : ∀ r ∈ (runs lines).head?, line ≠ r.1) (k : Nat) :
    runs (List.replicate (k + 1) line ++ lines) = (line, k + 1) :: runs lines := by
  induction k with
  | zero => exact runs_cons_other other
  | succ k ih => exact runs_cons_same ih

/-- There is no other way to count equal neighbours. -/
theorem Maximal.runs_spread {rs : List (String × Nat)} (h : Maximal rs) :
    runs (spread rs) = rs := by
  induction rs with
  | nil => rfl
  | cons r rs ih =>
    obtain ⟨line, count⟩ := r
    have some : 0 < count := h.some (line, count) (by simp)
    have tail : runs (spread rs) = rs :=
      ih ⟨fun r mem => h.some r (.tail _ mem), h.apart.tail⟩
    obtain ⟨k, rfl⟩ := Nat.exists_eq_add_one.2 some
    rw [spread_cons, runs_replicate_append, tail]
    rw [tail]
    exact (List.isChain_cons.1 h.apart).1

/-- How many more lines an entry stands for, if it is not a line itself. -/
def more? (entry : String) : Option Nat :=
  let rest := entry.toList.drop "  [Previous line repeated ".length
  let digits := rest.takeWhile Char.isDigit
  if "  [Previous line repeated ".toList ++ digits ++ " more times]\n".toList = entry.toList then
    some (Nat.ofDigitChars 10 digits 0)
  else none

theorem toList_repeated (n : Nat) : (repeated n).toList =
    "  [Previous line repeated ".toList ++ (Nat.toDigits 10 n ++ " more times]\n".toList) := by
  unfold repeated
  rw [String.toList_append, String.toList_append, List.append_assoc,
    show toString n = n.repr from rfl, Nat.toList_repr]
  rfl

theorem takeWhile_digits (n : Nat) (rest : List Char) :
    (Nat.toDigits 10 n ++ ' ' :: rest).takeWhile Char.isDigit = Nat.toDigits 10 n := by
  have digit : ∀ c ∈ Nat.toDigits 10 n, c.isDigit := fun c mem =>
    Nat.isDigit_of_mem_toDigits (by decide) (by decide) mem
  rw [List.takeWhile_append_of_pos digit]
  simp

theorem more?_repeated (n : Nat) : more? (repeated n) = some n := by
  have digits : ((repeated n).toList.drop "  [Previous line repeated ".length).takeWhile
      Char.isDigit = Nat.toDigits 10 n := by
    rw [toList_repeated, ← String.length_toList, List.drop_left]
    exact takeWhile_digits n _
  unfold more?
  dsimp only
  rw [digits, toList_repeated, if_pos (List.append_assoc ..),
    Nat.ofDigitChars_toDigits (by decide) (by decide)]

theorem more?_line (entry : Span × String) : more? (line entry) = none := by
  unfold more?
  rw [if_neg]
  simp [line, toString]

/-- Every entry for more lines is replaced by as many copies of the line before it. -/
def expandFrom (last : String) : List String → List String
  | [] => []
  | entry :: rest =>
    match more? entry with
    | some n => List.replicate n last ++ expandFrom last rest
    | none => entry :: expandFrom entry rest

def expand (entries : List String) : List String := expandFrom "" entries

theorem expandFrom_replicate {entry : String} (plain : more? entry = none) (last : String)
    (k : Nat) (rest : List String) : expandFrom last (List.replicate (k + 1) entry ++ rest) =
      List.replicate (k + 1) entry ++ expandFrom entry rest := by
  induction k generalizing last with
  | zero => simp [expandFrom, plain]
  | succ k ih =>
    rw [List.replicate_succ, List.cons_append, expandFrom, plain]
    exact congrArg _ (ih entry)

theorem expandFrom_collapsed {entry : String} (plain : more? entry = none) (last : String)
    (k : Nat) (rest : List String) : expandFrom last (collapsed (entry, k + 1) ++ rest) =
      List.replicate (k + 1) entry ++ expandFrom entry rest := by
  by_cases long : k + 1 > limit
  · have shown : min (k + 1) limit = 2 + 1 := Nat.min_eq_right (Nat.le_of_lt long)
    have all : k + 1 = 2 + 1 + (k + 1 - limit) := by
      simp only [limit] at long ⊢
      omega
    rw [collapsed, if_pos long, shown, List.append_assoc, expandFrom_replicate plain,
      List.singleton_append, expandFrom, more?_repeated]
    conv_rhs => rw [all, List.replicate_add, List.append_assoc]
  · have shown : min (k + 1) limit = k + 1 := Nat.min_eq_left (Nat.le_of_not_gt long)
    rw [collapsed, if_neg long, shown, List.append_nil, expandFrom_replicate plain]

theorem expandFrom_flatMap {rs : List (String × Nat)} (some : ∀ r ∈ rs, 0 < r.2)
    (plain : ∀ r ∈ rs, more? r.1 = none) (last : String) :
    expandFrom last (rs.flatMap collapsed) = spread rs := by
  induction rs generalizing last with
  | nil => rfl
  | cons r rs ih =>
    obtain ⟨entry, count⟩ := r
    obtain ⟨k, rfl⟩ := Nat.exists_eq_add_one.2 (some (entry, count) (by simp))
    rw [List.flatMap_cons, expandFrom_collapsed (plain (entry, k + 1) (by simp)), spread_cons,
      ih (fun r mem => some r (.tail _ mem)) fun r mem => plain r (.tail _ mem)]

theorem mem_of_mem_runs {lines : List String} {r : String × Nat} (mem : r ∈ runs lines) :
    r.1 ∈ lines := by
  have some := (maximal_runs lines).some r mem
  rw [← spread_runs lines, spread, List.mem_flatMap]
  exact ⟨r, mem, List.mem_replicate.2 ⟨Nat.ne_of_gt some, rfl⟩⟩

/-- A traceback shows three lines of each run of equal lines at most, and tells how many more there
are: enough to know all lines, and so how many frames there were. The lines are those of the frames,
the oldest first, each with the place that execution had reached in it. -/
theorem traceback_expands (place : Span) (frame : Frame) :
    (∃ rs, (∀ rs', Maximal rs' ∧ spread rs' = lines place frame ↔ rs' = rs) ∧
      body place frame = rs.flatMap fun r => List.replicate (min r.2 3) r.1 ++
        if r.2 > 3 then [s!"  [Previous line repeated {r.2 - 3} more times]\n"] else []) ∧
    expand (body place frame) = lines place frame ∧
    (lines place frame).length = frame.chain.length ∧
    lines place frame = ((place :: frame.chain.filterMap Frame.site?).zip
      (frame.chain.map Frame.name)).reverse.map line ∧
    text place frame =
      "Traceback (most recent call last):\n" ++ String.join (body place frame) := by
  have plain : ∀ r ∈ runs (lines place frame), more? r.1 = none := by
    intro r mem
    obtain ⟨entry, -, same⟩ := List.mem_map.1 (mem_of_mem_runs mem)
    rw [← same, more?_line]
  refine ⟨⟨runs (lines place frame), fun rs' => ?_, rfl⟩, ?_, ?_, ?_, rfl⟩
  · constructor
    · rintro ⟨maximal, same⟩
      rw [← same, maximal.runs_spread]
    · rintro rfl
      exact ⟨maximal_runs _, spread_runs _⟩
  · rw [expand, body, expandFrom_flatMap (maximal_runs _).some plain, spread_runs]
  · simp [lines, Frame.trace_length]
  · rw [lines, Frame.trace_eq_zip]

end Traceback

end ScriptLang
