import Mathlib.Data.Rat.Floor
import Mathlib.Tactic.FieldSimp
import ScriptLang.Proofs.Limit
import ScriptLang.Proofs.Number.Range
import ScriptLang.Proofs.ScopeFrame

/-! Counting loops. A loop between integers, by an integer, takes one turn for every number of an
arithmetic progression, whatever its body assigns. The next number is fixed before the body runs
and kept apart from the variable; behind the last 64 bit integer there is none in range. -/
namespace ScriptLang

variable {σ : Type}

open Eval

/-- How many steps of `s` lead from `a` to `b` or beyond. -/
def stepCount (a b s : Int) : Nat := ⌈((b - a : Int) : ℚ) / s⌉.toNat

def progression (a b s : Int) : List Int :=
  (List.range (stepCount a b s)).map fun k : Nat => a + k * s

theorem ahead_iff {a b s : Int} : Ahead a b s ↔ 0 < ((b - a : Int) : ℚ) / s := by
  rw [div_pos_iff]
  simp only [Int.cast_pos, Int.cast_lt_zero]
  unfold Ahead
  omega

theorem stepCount_of_not_ahead {a b s : Int} (h : ¬ Ahead a b s) : stepCount a b s = 0 := by
  rw [ahead_iff, not_lt] at h
  exact Int.toNat_of_nonpos (Int.ceil_le.2 (by simpa using h))

theorem stepCount_of_ahead {a b s : Int} (h : Ahead a b s) :
    stepCount a b s = stepCount (a + s) b s + 1 := by
  have positive := Int.ceil_pos.2 (ahead_iff.1 h)
  have nonzero : (s : ℚ) ≠ 0 := by
    rintro zero
    rw [ahead_iff, zero, div_zero] at h
    exact lt_irrefl _ h
  have next : ((b - (a + s) : Int) : ℚ) / s = ((b - a : Int) : ℚ) / s - 1 := by
    push_cast
    field_simp
    ring
  unfold stepCount
  rw [next, Int.ceil_sub_one]
  omega

theorem progression_of_not_ahead {a b s : Int} (h : ¬ Ahead a b s) : progression a b s = [] := by
  rw [progression, stepCount_of_not_ahead h, List.range_zero, List.map_nil]

theorem progression_of_ahead {a b s : Int} (h : Ahead a b s) :
    progression a b s = a :: progression (a + s) b s := by
  unfold progression
  rw [stepCount_of_ahead h, List.range_succ_eq_map, List.map_cons, List.map_map]
  congr 1
  · simp
  · apply List.map_congr_left
    intro k _
    simp only [Function.comp_apply]
    push_cast
    ring

theorem mem_progression {a b s i : Int} (mem : i ∈ progression a b s) :
    (0 < s ∧ a ≤ i ∧ i < b) ∨ (s < 0 ∧ b < i ∧ i ≤ a) := by
  obtain ⟨n, count⟩ : ∃ n, stepCount a b s = n := ⟨_, rfl⟩
  induction n generalizing a with
  | zero => simp [progression, count] at mem
  | succ n ih =>
    by_cases ahead : Ahead a b s
    · rw [progression_of_ahead ahead, List.mem_cons] at mem
      rw [stepCount_of_ahead ahead] at count
      unfold Ahead at ahead
      rcases mem with rfl | mem
      · omega
      · have := ih mem (by omega)
        omega
    · rw [stepCount_of_not_ahead ahead] at count
      omega

theorem fits_of_mem_progression {a b : Int64} {s i : Int}
    (mem : i ∈ progression a.toInt b.toInt s) : ∃ n : Int64, n.toInt = i := by
  have between := mem_progression mem
  have low := a.le_toInt
  have high := a.toInt_lt
  have low' := b.le_toInt
  have high' := b.toInt_lt
  exact ⟨Int64.ofInt i, Int64.toInt_ofInt_of_le (by omega) (by omega)⟩

/-- With enough fuel, evaluation of the tree ends in this way. -/
def ComesTo (limit : Nat) (node : Tree) (frame : Frame) (m : Machine σ) (x : Step σ Value) : Prop :=
  ∃ enough, ∀ fuel, enough ≤ fuel → eval limit fuel node frame m = x

theorem comesTo_of_eval (fuel : Nat) {limit : Nat} {node : Tree} {frame : Frame} {m : Machine σ}
    (held : ¬ (eval limit fuel node frame m).GaveUp) :
    ComesTo limit node frame m (eval limit fuel node frame m) := by
  refine ⟨fuel, fun fuel' more => ?_⟩
  have same := Eval.Le.evaluate (le_refl limit) more node frame m
  exact (same.resolve_left held).symm

def Machine.counting (m : Machine σ) (frame : Frame) (name : String) (n : Number) : Machine σ :=
  { m with store := m.store.set frame.scope name (.number n .none) }

/-- That is what the body then finds under the name. -/
theorem Machine.get?_counting {m : Machine σ} {frame : Frame} (there : frame.scope < m.store.size)
    (name : String) (n : Number) :
    (m.counting frame name n).store.get? frame.scope name = some (.number n .none) := by
  have scope : (m.counting frame name n).store.scopes[frame.scope]? =
      some (m.store.scopes[frame.scope].set name (.number n .none)) := by
    rw [counting, ScopesKept.scopes_set, if_pos rfl, Array.getElem?_eq_getElem there,
      Option.map_some]
  have bound : (m.counting frame name n).store.binds frame.scope name = true := by
    simp [Store.binds, scope, Scope.binds, Scope.get?_set_self]
  have found : (m.counting frame name n).store.resolve? frame.scope name = some frame.scope := by
    simp [Store.resolve?, Store.chain, Store.chainFrom, scope, bound]
  simp [Store.get?, found, scope, Scope.get?_set_self]

/-- A turn that the loop goes on behind: it ends with a value or by `CONTINUE`. -/
inductive Step.EndsTurn : Step σ Value → Prop where
  | value (v : Value) (m : Machine σ) : EndsTurn (.done v m)
  | skip (origin : Span) (m : Machine σ) : EndsTurn (.exit (.continued origin) m)

/-- Turns of a loop for one number after the other. Before each of them the variable is bound to
its number, whatever it was bound to; `values` are those of the turns that were not cut short. -/
inductive Turns (body : Machine σ → Step σ Value → Prop) (frame : Frame) (name : String) :
    List Int → Machine σ → List Value → Machine σ → Prop where
  | none (m : Machine σ) : Turns body frame name [] m [] m
  | value {i : Int} {n : Int64} {rest : List Int} {m m₁ m₂ : Machine σ} {v : Value}
    {values : List Value} (is : n.toInt = i)
    (ends : body (m.counting frame name (.int n)) (.done v m₁))
    (more : Turns body frame name rest m₁ values m₂) :
    Turns body frame name (i :: rest) m (v :: values) m₂
  | skip {i : Int} {n : Int64} {rest : List Int} {m m₁ m₂ : Machine σ} {origin : Span}
    {values : List Value} (is : n.toInt = i)
    (ends : body (m.counting frame name (.int n)) (.exit (.continued origin) m₁))
    (more : Turns body frame name rest m₁ values m₂) :
    Turns body frame name (i :: rest) m values m₂

namespace Turns

variable {body : Machine σ → Step σ Value → Prop} {frame : Frame} {name : String}

theorem append {before after : List Int} {m m₁ m₂ : Machine σ} {values values' : List Value}
    (first : Turns body frame name before m values m₁)
    (second : Turns body frame name after m₁ values' m₂) :
    Turns body frame name (before ++ after) m (values ++ values') m₂ := by
  induction first with
  | none m => exact second
  | value is ends _ ih => exact .value is ends (ih second)
  | skip is ends _ ih => exact .skip is ends (ih second)

/-- When every turn that the ones before it lead to ends, all turns are taken. -/
theorem exists_all {numbers : List Int} {m : Machine σ}
    (fits : ∀ i ∈ numbers, ∃ n : Int64, n.toInt = i)
    (ends : ∀ before (n : Int64) after values m₁, before ++ n.toInt :: after = numbers →
      Turns body frame name before m values m₁ →
      ∃ x, body (m₁.counting frame name (.int n)) x ∧ x.EndsTurn) :
    ∃ values m', Turns body frame name numbers m values m' := by
  -- `before` are the turns taken so far
  suffices ∀ after before values m₁, before ++ after = numbers →
      Turns body frame name before m values m₁ →
      ∃ values m', Turns body frame name numbers m values m' from
    this numbers [] [] m rfl (.none m)
  intro after
  induction after with
  | nil =>
    intro before values m₁ eq taken
    rw [List.append_nil] at eq
    exact ⟨values, m₁, eq ▸ taken⟩
  | cons i after ih =>
    intro before values m₁ eq taken
    obtain ⟨n, rfl⟩ := fits i (by simp [← eq])
    have rest : before ++ [n.toInt] ++ after = numbers := by simp [← eq]
    obtain ⟨x, ran, turn⟩ := ends before n after values m₁ eq taken
    cases turn with
    | value v m₂ => exact ih _ _ m₂ rest (taken.append (.value rfl ran (.none m₂)))
    | skip origin m₂ => exact ih _ _ m₂ rest (taken.append (.skip rfl ran (.none m₂)))

theorem eval_of_comesTo {limit : Nat} {node : Tree} {numbers : List Int} {m m' : Machine σ}
    {values : List Value}
    (turns : Turns (ComesTo limit node frame) frame name numbers m values m') :
    ∃ enough, ∀ fuel, enough ≤ fuel →
      Turns (fun m x => eval limit fuel node frame m = x) frame name numbers m values m' := by
  induction turns with
  | none m => exact ⟨0, fun _ _ => .none m⟩
  | value is ends _ ih =>
    obtain ⟨one, here⟩ := ends
    obtain ⟨rest, later⟩ := ih
    exact ⟨max one rest, fun fuel more => .value is (here fuel (by omega)) (later fuel (by omega))⟩
  | skip is ends _ ih =>
    obtain ⟨one, here⟩ := ends
    obtain ⟨rest, later⟩ := ih
    exact ⟨max one rest, fun fuel more => .skip is (here fuel (by omega)) (later fuel (by omega))⟩

end Turns

section Rules

variable {self : Evaluator σ} {frame : Frame} {name : String} {body : Tree}

theorem forTurns_of_not_inRange {current last step : Number}
    (out : inRange current last step = false) (n : Nat) (earlier : List Value) (m : Machine σ) :
    forTurns self name last step body frame (n + 1) current earlier m = .done earlier m := by
  unfold forTurns
  rw [out]
  rfl

theorem forTurns_of_value {current last step : Number} {m m₁ : Machine σ} {v : Value}
    (within : inRange current last step = true)
    (ends : unwind (self body frame) (m.counting frame name current) = .done v m₁) (n : Nat)
    (earlier : List Value) :
    forTurns self name last step body frame (n + 1) current earlier m =
      forTurns self name last step body frame n (current.add step) (v :: earlier) m₁ := by
  rw [forTurns, if_pos within]
  change Eval.bind (turn (self body frame)) _ (m.counting frame name current) = _
  rw [Eval.bind, turn_eq, ends]
  rfl

theorem forTurns_of_skip {current last step : Number} {m m₁ : Machine σ} {origin : Span}
    (within : inRange current last step = true)
    (ends : unwind (self body frame) (m.counting frame name current) = .exit (.continued origin) m₁)
    (n : Nat) (earlier : List Value) :
    forTurns self name last step body frame (n + 1) current earlier m =
      forTurns self name last step body frame n (current.add step) earlier m₁ := by
  rw [forTurns, if_pos within]
  change Eval.bind (turn (self body frame)) _ (m.counting frame name current) = _
  rw [Eval.bind, turn_eq, ends]
  rfl

/-- The counter when `i` is the next number: that integer, or a double when both have passed the
bound. -/
inductive Counter (b s : Int64) : Number → Int → Prop where
  | int (a : Int64) : Counter b s (.int a) a.toInt
  | past {current : Number} {i : Int} (out : inRange current (.int b) (.int s) = false)
    (passed : ¬ Ahead i b.toInt s.toInt) : Counter b s current i

theorem Counter.next (a b s : Int64) :
    Counter b s (Number.add (.int a) (.int s)) (a.toInt + s.toInt) := by
  by_cases fits : -2 ^ 63 ≤ a.toInt + s.toInt ∧ a.toInt + s.toInt < 2 ^ 63
  · obtain ⟨c, eq, is⟩ := Number.add_of_fits fits.1 fits.2
    rw [eq, ← is]
    exact .int c
  · apply Counter.past (Number.not_inRange_of_not_fits (by omega) b)
    have low := a.le_toInt
    have high := a.toInt_lt
    have low' := b.le_toInt
    have high' := b.toInt_lt
    unfold Ahead
    omega

/-- By induction on the fuel: the counter in range is the first number of the progression, and the
next counter stands for the rest of it. -/
theorem forTurns_progression {b s : Int64} (nonzero : s ≠ 0) {n : Nat} {current : Number} {i : Int}
    {m m' : Machine σ} {values : List Value} (counter : Counter b s current i)
    (turns : Turns (fun m x => unwind (self body frame) m = x) frame name
      (progression i b.toInt s.toInt) m values m')
    (enough : stepCount i b.toInt s.toInt < n) (earlier : List Value) :
    forTurns self name (.int b) (.int s) body frame n current earlier m =
      .done (values.reverse ++ earlier) m' := by
  induction n generalizing current i m values earlier with
  | zero => omega
  | succ n ih =>
    by_cases ahead : Ahead i b.toInt s.toInt
    · cases counter with
      | past _ passed => exact absurd ahead passed
      | int a =>
        have within := (inRange_iff_ahead nonzero).2 ahead
        rw [progression_of_ahead ahead] at turns
        rw [stepCount_of_ahead ahead] at enough
        cases turns with
        | value is ends more =>
          obtain rfl := Int64.toInt_inj.1 is
          rw [forTurns_of_value within ends, ih (.next _ b s) more (by omega)]
          simp
        | skip is ends more =>
          obtain rfl := Int64.toInt_inj.1 is
          rw [forTurns_of_skip within ends, ih (.next _ b s) more (by omega)]
    · have out : inRange current (.int b) (.int s) = false := by
        cases counter with
        | past out _ => exact out
        | int a => rwa [← Bool.not_eq_true, inRange_iff_ahead nonzero]
      rw [progression_of_not_ahead ahead] at turns
      cases turns with
      | none => exact forTurns_of_not_inRange out n earlier _

end Rules

def StepComesTo (limit : Nat) (frame : Frame) (m : Machine σ) (s : Int64) (m' : Machine σ) :
    Option Tree → Prop
  | none => s = 1 ∧ m' = m
  | some node => ∃ t, ComesTo limit node frame m (.done (.number (.int s) t) m')

section Bounds

variable {limit : Nat} {frame : Frame} {m m' : Machine σ}

theorem evalBound_of_comesTo {node : Tree} {n : Number} {t : Stamp}
    (h : ComesTo limit node frame m (.done (.number n t) m')) :
    ∃ enough, ∀ fuel, enough ≤ fuel →
      evalBound (evaluate limit fuel) node frame m = .done n m' := by
  obtain ⟨enough, ends⟩ := h
  refine ⟨enough, fun fuel more => ?_⟩
  change Eval.bind (eval limit fuel node frame) _ m = _
  rw [Eval.bind, ends fuel more]
  rfl

theorem evalStep_of_comesTo {step : Option Tree} {s : Int64} (nonzero : s ≠ 0)
    (h : StepComesTo limit frame m s m' step) :
    ∃ enough, ∀ fuel, enough ≤ fuel →
      evalStep (evaluate limit fuel) frame step m = .done (.int s) m' := by
  cases step with
  | none =>
    obtain ⟨rfl, rfl⟩ := h
    exact ⟨0, fun _ _ => rfl⟩
  | some node =>
    obtain ⟨t, ends⟩ := h
    obtain ⟨enough, ends⟩ := evalBound_of_comesTo ends
    refine ⟨enough, fun fuel more => ?_⟩
    change Eval.bind (evalBound (evaluate limit fuel) node frame) _ m = _
    have counts : Number.isZero (.int s) = false := by simpa [Number.isZero] using nonzero
    simp only [Eval.bind, ends fuel more, counts]
    rfl

end Bounds

/-- A loop whose bounds are integers and whose step is one other than zero, when its body always
ends with a value or by `CONTINUE`: it takes one turn for each number of the progression, and
gives the list of their values, in order. -/
theorem for_takes_progression {limit : Nat} {name : String} {first last body : Tree}
    {step : Option Tree} {suppress : Bool} {mark : Mark} {frame : Frame} {m m₁ m₂ m₃ : Machine σ}
    {a b s : Int64} {t u : Stamp}
    (start : ComesTo limit first frame m (.done (.number (.int a) t) m₁))
    (stop : ComesTo limit last frame m₁ (.done (.number (.int b) u) m₂))
    (increment : StepComesTo limit frame m₂ s m₃ step) (nonzero : s ≠ 0)
    (ends : ∀ before (n : Int64) after values m',
      before ++ n.toInt :: after = progression a.toInt b.toInt s.toInt →
      Turns (ComesTo limit body frame) frame name before m₃ values m' →
      ∃ x, ComesTo limit body frame (m'.counting frame name (.int n)) x ∧ x.EndsTurn) :
    ∃ values m', Turns (ComesTo limit body frame) frame name
        (progression a.toInt b.toInt s.toInt) m₃ values m' ∧
      ComesTo limit (.forLoop name first last step body suppress mark) frame m
        (.done (if suppress then .null else (Value.list values .none).place mark.span frame)
          m') := by
  obtain ⟨values, m', turns⟩ := Turns.exists_all (fun _ => fits_of_mem_progression) ends
  refine ⟨values, m', turns, ?_⟩
  obtain ⟨n₁, start⟩ := evalBound_of_comesTo start
  obtain ⟨n₂, stop⟩ := evalBound_of_comesTo stop
  obtain ⟨n₃, increment⟩ := evalStep_of_comesTo nonzero increment
  obtain ⟨n₄, turns⟩ := turns.eval_of_comesTo
  refine ⟨n₁ + n₂ + n₃ + n₄ + stepCount a.toInt b.toInt s.toInt + 2, fun fuel more => ?_⟩
  obtain ⟨fuel, rfl⟩ := Nat.exists_eq_add_one_of_ne_zero (Nat.ne_zero_of_lt more)
  have loop := forTurns_progression (n := fuel) nonzero (.int a) (turns fuel (by omega))
    (by omega) []
  rw [eval_succ]
  change evalFor fuel (evaluate limit fuel) name first last step body suppress mark.span frame m = _
  rw [evalFor, bind_eq_done]
  refine ⟨_, _, start fuel (by omega), bind_eq_done.2 ⟨_, _, stop fuel (by omega), ?_⟩⟩
  refine bind_eq_done.2 ⟨_, _, increment fuel (by omega), bind_eq_done.2 ⟨_, _, loop, ?_⟩⟩
  rw [pure_eq_done, loopValue, List.append_nil, List.reverse_reverse]
  exact ⟨rfl, rfl⟩

theorem comesTo_number (limit : Nat) (n : Number) (mark : Mark) (frame : Frame) (m : Machine σ) :
    ComesTo limit (.number n mark) frame m
      (.done ((Value.number n .none).place mark.span frame) m) :=
  comesTo_of_eval 1 nofun

/-- At the end of the integers, with a body that assigns the variable. -/
theorem for_takes_progression_last :
    ∃ (mark : Mark) (frame : Frame) (m : Machine Memory) (body : Tree),
    body = .assign "i" (.number (.int 0) mark) mark ∧
    progression 9223372036854775801 9223372036854775807 5 =
      [9223372036854775801, 9223372036854775806] ∧
    ∃ values m', Turns (ComesTo 1 body frame) frame "i"
        (progression 9223372036854775801 9223372036854775807 5) m values m' ∧
      ComesTo 1 (.forLoop "i" (.number (.int 9223372036854775801) mark)
        (.number (.int 9223372036854775807) mark) (some (.number (.int 5) mark)) body false mark)
        frame m (.done ((Value.list values .none).place mark.span frame) m') := by
  let mark : Mark := ⟨⟨⟨"<stdin>", ""⟩, .origin, .origin⟩, 0⟩
  let frame : Frame := .root 0 programName globalScope
  let m : Machine Memory := (Session.start {} (.memory [] [])).machine
  have numbers : progression 9223372036854775801 9223372036854775807 5 =
      [9223372036854775801, 9223372036854775806] := by decide +kernel
  have start := comesTo_number 1 (.int 9223372036854775801) mark frame m
  have stop := comesTo_number 1 (.int 9223372036854775807) mark frame m
  have increment : StepComesTo 1 frame m 5 m (some (.number (.int 5) mark)) :=
    ⟨_, comesTo_number 1 (.int 5) mark frame m⟩
  have assigns (m : Machine Memory) :
      ∃ x, ComesTo 1 (.assign "i" (.number (.int 0) mark) mark) frame m x ∧ x.EndsTurn :=
    ⟨_, comesTo_of_eval 2 nofun, .value _ _⟩
  exact ⟨mark, frame, m, _, rfl, numbers, for_takes_progression start stop increment (by decide)
    fun _ _ _ _ _ _ _ => assigns _⟩

end ScriptLang
