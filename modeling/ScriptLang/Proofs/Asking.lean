import Mathlib.Logic.Relation
import ScriptLang.Host.Ask

/-! What becomes of a host when it is asked one thing after another. Nothing is known of a host but
that it answers, so what holds of one throughout a run is said of all that it can become. -/
namespace ScriptLang

namespace Host

variable {σ : Type} {α : Type} {h h' : Host σ}

/-- What a host becomes when it is asked for anything but a script. -/
inductive Asks (h : Host σ) : Host σ → Prop where
  | line (text : String) : Asks h (h.writeLine text).2
  | read : Asks h h.readLine.2
  | clear : Asks h h.clear.2

abbrev Served : Host σ → Host σ → Prop := Relation.ReflTransGen Asks

abbrev Leads : Host σ → Host σ → Prop :=
  Relation.ReflTransGen fun h h' => h.Asks h' ∨ ∃ path, h' = (h.load path).2

theorem Served.leads (served : h.Served h') : h.Leads h' :=
  Relation.ReflTransGen.mono (fun _ _ asked => Or.inl asked) _ _ served

theorem leads_load (h : Host σ) (path : String) : h.Leads (h.load path).2 :=
  .single (.inr ⟨path, rfl⟩)

/-- What holds of a host, and is kept whatever is asked, holds of all that it can become. -/
theorem invariant_of_leads {P : Host σ → Prop} (leads : h.Leads h') (start : P h)
    (writeLine : ∀ h text, P h → P (h.writeLine text).2) (readLine : ∀ h, P h → P h.readLine.2)
    (clear : ∀ h, P h → P h.clear.2) (load : ∀ h path, P h → P (h.load path).2) : P h' := by
  induction leads with
  | refl => exact start
  | tail _ step ih =>
    rcases step with asked | ⟨path, rfl⟩
    · cases asked with
      | line text => exact writeLine _ text ih
      | read => exact readLine _ ih
      | clear => exact clear _ ih
    · exact load _ path ih

/-- No script is asked for. -/
def Ask.Serves (ask : Ask σ α) : Prop := ∀ h r h', ask h = some (r, h') → h.Served h'

theorem Ask.Serves.leads {ask : Ask σ α} (serves : ask.Serves) {r : Except Fault α}
    (asked : ask h = some (r, h')) : h.Leads h' :=
  Served.leads (serves h r h' asked)

theorem print_serves (text : String) : Ask.Serves (print text : Ask σ Unit) := by
  rintro h r h' ⟨⟩
  exact .single (.line text)

theorem wipe_serves : Ask.Serves (wipe : Ask σ Unit) := by
  rintro h r h' ⟨⟩
  exact .single .clear

theorem read_of_readLine {r : Except String (Option String)} (read : h.readLine = (r, h')) :
    h.Served h' := by
  have asked : h.Served h.readLine.2 := .single .read
  rwa [read] at asked

theorem line_of_writeLine {text : String} {r : Except String Unit}
    (written : h.writeLine text = (r, h')) : h.Served h' := by
  have asked : h.Served (h.writeLine text).2 := .single (.line text)
  rwa [written] at asked

theorem fetch_leads {path : String} {r : Except Fault String}
    (asked : fetch path h = some (r, h')) : h.Leads h' := by
  cases asked
  exact leads_load h path

theorem ask_serves : Ask.Serves (ask : Ask σ String) := by
  intro h r h' asked
  unfold ask at asked
  split at asked <;> next read => cases asked; exact read_of_readLine read

theorem askInteger_serves (n : Nat) : Ask.Serves (askInteger n : Ask σ Int64) := by
  induction n with
  | zero => exact nofun
  | succ n ih =>
    intro h r h' asked
    unfold askInteger at asked
    split at asked
    · next read => cases asked; exact read_of_readLine read
    · next read => cases asked; exact read_of_readLine read
    · next read =>
      have first := read_of_readLine read
      split at asked
      · cases asked; exact first
      · split at asked
        · next written => cases asked; exact first.trans (line_of_writeLine written)
        · next written => exact (first.trans (line_of_writeLine written)).trans (ih _ _ _ asked)

theorem askInteger_of_le {n n' : Nat} (more : n ≤ n') (h : Host σ) :
    askInteger n h = none ∨ askInteger n h = askInteger n' h := by
  induction n generalizing n' h with
  | zero => exact .inl rfl
  | succ n ih =>
    obtain ⟨n', rfl⟩ := Nat.exists_eq_add_one_of_ne_zero (Nat.ne_zero_of_lt more)
    unfold askInteger
    split
    · exact .inr rfl
    · exact .inr rfl
    · split
      · exact .inr rfl
      · split
        · exact .inr rfl
        · exact ih (Nat.le_of_succ_le_succ more) _

section Carries

variable {τ : Type}

/-- Whatever is asked, the host that `φ` makes of another one answers as that one does, and is
what `φ` makes of it afterwards. -/
structure Carries (φ : Host σ → Host τ) : Prop where
  writeLine : ∀ h text, (φ h).writeLine text = ((h.writeLine text).1, φ (h.writeLine text).2)
  readLine : ∀ h, (φ h).readLine = (h.readLine.1, φ h.readLine.2)
  clear : ∀ h, (φ h).clear = (h.clear.1, φ h.clear.2)
  load : ∀ h path, (φ h).load path = ((h.load path).1, φ (h.load path).2)

def Ask.Same (φ : Host σ → Host τ) (ask : Ask σ α) (ask' : Ask τ α) : Prop :=
  ∀ h, ask' (φ h) = (ask h).map fun (r, h') => (r, φ h')

namespace Carries

variable {φ : Host σ → Host τ}

theorem print (carries : Carries φ) (text : String) : Ask.Same φ (print text) (print text) := by
  intro h
  unfold Host.print
  rw [carries.writeLine]
  rfl

theorem wipe (carries : Carries φ) : Ask.Same φ wipe wipe := by
  intro h
  unfold Host.wipe
  rw [carries.clear]
  rfl

theorem fetch (carries : Carries φ) (path : String) : Ask.Same φ (fetch path) (fetch path) := by
  intro h
  unfold Host.fetch
  rw [carries.load]
  rfl

theorem ask (carries : Carries φ) : Ask.Same φ ask ask := by
  intro h
  unfold Host.ask
  rw [carries.readLine]
  rcases h.readLine with ⟨_ | _ | _, _⟩ <;> rfl

theorem askInteger (carries : Carries φ) (n : Nat) :
    Ask.Same φ (askInteger n) (askInteger n) := by
  intro h
  induction n generalizing h with
  | zero => rfl
  | succ n ih =>
    unfold Host.askInteger
    rw [carries.readLine]
    obtain ⟨reason | _ | line, h⟩ := h.readLine
    · rfl
    · rfl
    · dsimp only
      cases Text.integer? (Text.trim line.toList) with
      | some value => rfl
      | none =>
        rw [carries.writeLine]
        obtain ⟨_ | _, h⟩ := h.writeLine (retry line)
        · rfl
        · exact ih h

end Carries

end Carries

end Host

end ScriptLang
