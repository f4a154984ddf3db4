import ScriptLang.Host.Memory
import ScriptLang.Proofs.Asking

/-! Hosts whose input comes to an end. Such a host may do what it likes, and nobody need know
beforehand where its lines end; but there is no way of asking it on which lines are handed out
without end. So asking for an integer ends, since every turn but the last takes a line. -/
namespace ScriptLang.Host

variable {σ : Type} {h h' h'' : Host σ}

/-- On the way from the one to the other a line is handed out. -/
def HandsOut (h h' : Host σ) : Prop :=
  ∃ h₁ line, h.Leads h₁ ∧ h₁.readLine.1 = .ok (some line) ∧ h₁.readLine.2.Leads h'

/-- There are finitely many lines to read, whatever else is asked. -/
def FiniteInput (h : Host σ) : Prop := Acc (fun h' h : Host σ => h.HandsOut h') h

theorem HandsOut.after (leads : h.Leads h') (handed : h'.HandsOut h'') : h.HandsOut h'' := by
  obtain ⟨h₁, line, first, read, rest⟩ := handed
  exact ⟨h₁, line, leads.trans first, read, rest⟩

theorem HandsOut.leads (handed : h.HandsOut h') : h.Leads h' := by
  obtain ⟨h₁, line, first, -, rest⟩ := handed
  exact (first.tail (.inl .read)).trans rest

theorem FiniteInput.leads (finite : h.FiniteInput) (leads : h.Leads h') : h'.FiniteInput :=
  .intro h' fun _ handed => finite.inv (handed.after leads)

theorem operations_of_leads (leads : h.Leads h') : h'.operations = h.operations :=
  invariant_of_leads (P := (·.operations = h.operations)) leads rfl
    (fun _ _ same => same) (fun _ same => same) (fun _ same => same) (fun _ _ same => same)

structure Operations.Counts (ops : Operations σ) (left : σ → Nat) : Prop where
  writeLine : ∀ text s, left (ops.writeLine text s).2 ≤ left s
  clear : ∀ s, left (ops.clear s).2 ≤ left s
  readSource : ∀ path s, left (ops.readSource path s).2 ≤ left s
  readLine : ∀ s, left (ops.readLine s).2 ≤ left s
  handed : ∀ s line, (ops.readLine s).1 = .ok (some line) → left (ops.readLine s).2 < left s

namespace Operations.Counts

variable {left : σ → Nat}

theorem leads (counts : h.operations.Counts left) (leads : h.Leads h') :
    left h'.state ≤ left h.state := by
  refine (invariant_of_leads
    (P := fun k => k.operations.Counts left ∧ left k.state ≤ left h.state) leads
    ⟨counts, Nat.le_refl _⟩ ?_ ?_ ?_ ?_).2
  · exact fun k text ⟨counts, few⟩ => ⟨counts, Nat.le_trans (counts.writeLine text k.state) few⟩
  · exact fun k ⟨counts, few⟩ => ⟨counts, Nat.le_trans (counts.readLine k.state) few⟩
  · exact fun k ⟨counts, few⟩ => ⟨counts, Nat.le_trans (counts.clear k.state) few⟩
  · exact fun k path ⟨counts, few⟩ => ⟨counts, Nat.le_trans (counts.readSource path k.state) few⟩

theorem handsOut (counts : h.operations.Counts left) (handed : h.HandsOut h') :
    left h'.state < left h.state := by
  obtain ⟨h₁, line, first, read, rest⟩ := handed
  have counts₁ : h₁.operations.Counts left := operations_of_leads first ▸ counts
  have counts₂ : h₁.readLine.2.operations.Counts left := counts₁
  calc left h'.state
    _ ≤ left h₁.readLine.2.state := counts₂.leads rest
    _ < left h₁.state := counts₁.handed _ line read
    _ ≤ left h.state := counts.leads first

theorem finiteInput (counts : h.operations.Counts left) : h.FiniteInput := by
  obtain ⟨n, few⟩ : ∃ n, left h.state < n := ⟨_, Nat.lt_succ_self _⟩
  induction n generalizing h with
  | zero => exact absurd few (Nat.not_lt_zero _)
  | succ n ih =>
    refine .intro h fun h' handed => ?_
    have fewer := counts.handsOut handed
    exact ih (operations_of_leads handed.leads ▸ counts) (by omega)

end Operations.Counts

theorem memory_counts : Memory.operations.Counts fun m => m.input.length where
  writeLine _ _ := Nat.le_refl _
  clear _ := Nat.le_refl _
  readSource _ _ := Nat.le_refl _
  readLine m := by
    simp only [Memory.operations, Memory.readLine]
    split
    · exact Nat.le_refl _
    · split <;> simp [*]
  handed m line read := by
    simp only [Memory.operations, Memory.readLine] at read ⊢
    split at read
    · cases read
    · split at read
      · cases read
      · simp [*]

theorem finiteInput_ofMemory (m : Memory) : (ofMemory m).FiniteInput :=
  Operations.Counts.finiteInput memory_counts

theorem script_of_leads {h h' : Host Memory} (memory : h.operations = Memory.operations)
    (leads : h.Leads h') : h'.state.script = h.state.script := by
  refine (invariant_of_leads (P := fun k => k.operations = Memory.operations ∧
    k.state.script = h.state.script) leads ⟨memory, rfl⟩ ?_ ?_ ?_ ?_).2
  · rintro k text ⟨memory, same⟩
    exact ⟨memory, by simpa only [Host.writeLine, after, memory, Memory.operations] using same⟩
  · rintro k ⟨memory, same⟩
    refine ⟨memory, ?_⟩
    simp only [Host.readLine, memory, Memory.operations, Memory.readLine]
    split
    · exact same
    · split <;> exact same
  · rintro k ⟨memory, same⟩
    exact ⟨memory, by simpa only [Host.clear, after, memory, Memory.operations] using same⟩
  · rintro k path ⟨memory, same⟩
    exact ⟨memory, by simpa only [load, memory, Memory.operations] using same⟩

/-- Within any more than so many turns there is an answer, and always the same. -/
def Answers {α : Type} (answers : Nat → Option (Except Fault α × Host σ)) : Prop :=
  ∃ n answer, ∀ fuel, answers fuel = if n ≤ fuel then some answer else none

namespace Answers

variable {α : Type} {answers : Nat → Option (Except Fault α × Host σ)}

theorem atOnce (answer : Except Fault α × Host σ) : Answers fun _ => some answer :=
  ⟨0, answer, fun _ => rfl⟩

theorem later (first : answers 0 = none) (rest : Answers fun fuel => answers (fuel + 1)) :
    Answers answers := by
  obtain ⟨n, answer, eq⟩ := rest
  refine ⟨n + 1, answer, fun fuel => ?_⟩
  cases fuel with
  | zero => rw [first, if_neg (Nat.not_succ_le_zero n)]
  | succ fuel =>
    apply (eq fuel).trans
    simp only [Nat.add_le_add_iff_right]

end Answers

/-- By induction on the lines that are handed out. -/
theorem FiniteInput.answers (finite : h.FiniteInput) :
    Answers fun fuel => askInteger fuel h := by
  induction finite with
  | intro h _ ih =>
    apply Answers.later rfl
    rcases read : h.readLine with ⟨reason | _ | line, h₁⟩ <;> simp only [askInteger, read]
    · exact .atOnce _
    · exact .atOnce _
    · cases Text.integer? (Text.trim line.toList) with
      | some value => exact .atOnce _
      | none =>
        dsimp only
        rcases written : h₁.writeLine (retry line) with ⟨reason | _, h₂⟩ <;> dsimp only
        · exact .atOnce _
        · have handed : h.HandsOut h₂ := by
            refine ⟨h, line, .refl, by rw [read], ?_⟩
            rw [read]
            exact (line_of_writeLine written).leads
          exact ih h₂ handed

end ScriptLang.Host
