import ScriptLang.Proofs.Sequence.Program

/-! Reading goes forward. A rule ends no earlier than it began, also where it fails, and every
construct takes a token at least. As the last token is never taken, as many steps as there are
tokens left suffice, and no reading of a whole program runs out of them. -/
namespace ScriptLang

open Grammar Rule

structure Token.Terminated (ts : List Token) : Prop where
  ascending : Token.Ascending ts
  ending : ∃ front last, ts = front ++ [last] ∧ last.kind = .eof

theorem Token.Ended.terminated {ts : List Token} (h : Token.Ended ts) : Token.Terminated ts := by
  obtain ⟨front, last, eq, eof, -⟩ := h.ending
  exact ⟨h.ascending, front, last, eq, eof⟩

/-- Something is asked for, and not what was found. -/
def Failure.Honest (e : Failure) : Prop := e.expected ≠ [] ∧ e.found.kind ∉ e.expected

/-- The cursor stands in the list, and a reading given up there has failed no earlier. -/
structure Cursor.Poised (ts : List Token) (c : Cursor) : Prop extends c.At ts where
  givenUp : ∀ e ∈ c.abandoned, c.index ≤ e.index ∧ e.Honest

/-- How a reading that began at the token with number `i` may end: at least so many tokens further
on, or with a failure no earlier, or out of steps, but not if there were as many as tokens. -/
def Outcome.Proceeds {α : Type} (ts : List Token) (i least steps : Nat) : Outcome α → Prop
  | .done _ c => c.Poised ts ∧ i + least ≤ c.index
  | .failed e => e.At ts ∧ i ≤ e.index ∧ e.Honest
  | .spent => i + steps < ts.length

def Rule.ProceedsAt {α : Type} (ts : List Token) (least steps : Nat) (p : Rule α) (c : Cursor) :
    Prop :=
  c.Poised ts → (p c).Proceeds ts c.index least steps

def Rule.Proceeds {α : Type} (ts : List Token) (least steps : Nat) (p : Rule α) : Prop :=
  ∀ c, p.ProceedsAt ts least steps c

theorem Token.Terminated.advance_index {ts : List Token} (h : Token.Terminated ts) {c : Cursor}
    (place : c.At ts) (more : c.kind ≠ .eof) : c.advance.index = c.index + 1 := by
  rw [Cursor.advance_index place, if_pos]
  obtain ⟨front, last, rfl, eof⟩ := h.ending
  have current := place.current
  have within := (List.getElem?_eq_some_iff.1 current).1
  have inner : c.index ≠ front.length := by
    intro eq
    rw [eq, List.getElem?_concat_length] at current
    cases current
    exact more eof
  rw [List.length_append, List.length_singleton] at within ⊢
  omega

theorem Cursor.Poised.advance {ts : List Token} {c : Cursor} (h : c.Poised ts) :
    c.advance.Poised ts :=
  ⟨h.toAt.advance, by rw [Cursor.advance_abandoned]; nofun⟩

theorem Cursor.Poised.failure {ts : List Token} {c : Cursor} (h : c.Poised ts)
    (expected : List Token.Kind) : (c.failure expected).At ts :=
  h.current

theorem Cursor.Poised.index_lt {ts : List Token} {c : Cursor} (h : c.Poised ts) :
    c.index < ts.length :=
  (List.getElem?_eq_some_iff.1 h.current).1

theorem Cursor.kind_not_identifier {c : Cursor}
    (h : ∀ n, c.current.content = .identifier n → False) : c.kind ∉ [Token.Kind.identifier] := by
  change c.current.content.kind ∉ [.identifier]
  generalize c.current.content = x at h
  cases x <;> simp_all [Token.Content.kind]

theorem Outcome.Proceeds.before {α : Type} {ts : List Token} {i j m n n' s s' : Nat}
    {o : Outcome α} (h : o.Proceeds ts j n s) (le : i + m ≤ j) (least : n' ≤ n + m)
    (steps : s' ≤ s + m) : o.Proceeds ts i n' s' := by
  cases o with
  | done a c => exact ⟨h.1, by have := h.2; omega⟩
  | failed e => exact ⟨h.1, by have := h.2.1; omega, h.2.2⟩
  | spent =>
    change j + s < ts.length at h
    change i + s' < ts.length
    omega

theorem Cursor.Poised.givenUp_at {ts : List Token} {c : Cursor} (poised : c.Poised ts) {α : Type}
    {n s : Nat} {e : Failure} (h : (.failed e : Outcome α).Proceeds ts c.index n s) :
    Cursor.Poised ts { c with abandoned := some e } := by
  refine ⟨⟨poised.current, poised.ahead, ?_⟩, ?_⟩
  · rintro _ ⟨⟩
    exact h.1
  · rintro _ ⟨⟩
    exact h.2

theorem Rule.attempt_done {α : Type} {p : Rule α} {c d : Cursor} {a : α} (h : p c = .done a d) :
    Rule.attempt p c = .done (some a) d := by
  unfold Rule.attempt
  rw [h]

namespace Rule.ProceedsAt

variable {α β : Type} {ts : List Token} {n m s : Nat} {c : Cursor}

theorem pure {a : α} : (Pure.pure a : Rule α).ProceedsAt ts 0 s c :=
  fun poised => ⟨poised, Nat.le_refl _⟩

theorem spent : (Rule.spent : Rule α).ProceedsAt ts n 0 c := fun poised => poised.index_lt

theorem unexpected {expected : List Token.Kind} (some : expected ≠ []) (out : c.kind ∉ expected) :
    (Rule.unexpected expected : Rule α).ProceedsAt ts n s c :=
  fun poised => ⟨poised.current, Nat.le_refl _, some, out⟩

theorem mono {n' s' : Nat} {p : Rule α} (h : p.ProceedsAt ts n s c) (least : n' ≤ n)
    (steps : s' ≤ s) : p.ProceedsAt ts n' s' c :=
  fun poised => (h poised).before (m := 0) (Nat.le_refl _) (by omega) (by omega)

/-- What the first part has read need not be counted for the second. -/
theorem andThen {p : Rule α} {f : α → Rule β} (hp : p.ProceedsAt ts m s c)
    (hf : ∀ a d, p c = .done a d → (f a).ProceedsAt ts (n - m) (s - m) d) :
    (p >>= f).ProceedsAt ts n s c := by
  intro poised
  have first := hp poised
  cases read : p c with
  | done a d =>
    rw [read] at first
    rw [bind_done read]
    exact (hf a d read first.1).before first.2 (by omega) (by omega)
  | failed e =>
    rw [read] at first
    rw [bind_failed read]
    exact first
  | spent =>
    rw [read] at first
    rw [bind_spent read]
    exact first

theorem bind {p : Rule α} {f : α → Rule β} (hp : p.ProceedsAt ts m s c)
    (hf : ∀ a, (f a).Proceeds ts (n - m) (s - m)) : (p >>= f).ProceedsAt ts n s c :=
  hp.andThen fun a d _ => hf a d

theorem fromHere {f : Cursor → Rule α} (h : (f c).ProceedsAt ts n s c) :
    (Rule.here >>= f).ProceedsAt ts n s c :=
  h

theorem advance (ends : Token.Terminated ts) (more : c.kind ≠ .eof) :
    Rule.advance.ProceedsAt ts 1 s c := by
  intro poised
  have next := ends.advance_index poised.toAt more
  exact ⟨poised.advance, by omega⟩

theorem expect_of (ends : Token.Terminated ts) {x : Token.Kind} (other : x ≠ .eof)
    {expected : List Token.Kind} (some : expected ≠ []) (out : c.kind ≠ x → c.kind ∉ expected) :
    (Rule.expect x expected).ProceedsAt ts 1 s c := by
  intro poised
  unfold Rule.expect
  split
  · next is => exact advance (s := s) ends (is ▸ other) poised
  · next is => exact ⟨poised.current, Nat.le_refl _, some, out is⟩

theorem expect (ends : Token.Terminated ts) {x : Token.Kind} (other : x ≠ .eof) :
    (Rule.expect x [x]).ProceedsAt ts 1 s c :=
  expect_of ends other (by simp) fun is => by simpa using is

theorem name (ends : Token.Terminated ts) : Rule.name.ProceedsAt ts 1 s c := by
  intro poised
  unfold Rule.name
  split
  · next is =>
    exact advance (s := s) ends (by rw [Cursor.kind_of_content is]; nofun) poised
  · next other =>
    refine ⟨poised.current, Nat.le_refl _, nofun, ?_⟩
    exact Cursor.kind_not_identifier other

theorem markFrom {start : Mark} : (Rule.markFrom start).ProceedsAt ts 0 s c :=
  fun poised => ⟨poised, Nat.le_refl _⟩

theorem ifAccept_of (ends : Token.Terminated ts) {x : Token.Kind} (other : x ≠ .eof) {p q : Rule α}
    (yes : p.Proceeds ts (n - 1) (s - 1)) (no : c.kind ≠ x → q.ProceedsAt ts n s c) :
    (do if ← accept x then p else q : Rule α).ProceedsAt ts n s c := by
  by_cases is : c.kind = x
  · have taken : (do let _ ← Rule.advance; p : Rule α).ProceedsAt ts n s c :=
      (advance ends (is ▸ other)).bind fun _ => yes
    intro poised
    rw [bind_done (accept_pos is)]
    exact taken poised
  · intro poised
    rw [bind_done (accept_neg is)]
    exact no is poised

theorem ifAccept (ends : Token.Terminated ts) {x : Token.Kind} (other : x ≠ .eof) {p q : Rule α}
    (yes : p.Proceeds ts (n - 1) (s - 1)) (no : q.ProceedsAt ts n s c) :
    (do if ← accept x then p else q : Rule α).ProceedsAt ts n s c :=
  ifAccept_of ends other yes fun _ => no

theorem attempt {p : Rule α} {f : Option α → Rule β} (h : p.ProceedsAt ts m s c)
    (read : ∀ a, (f (some a)).Proceeds ts (n - m) (s - m)) (givenUp : (f none).Proceeds ts n s) :
    (Rule.attempt p >>= f).ProceedsAt ts n s c := by
  intro poised
  have ends := h poised
  cases result : p c with
  | done a d =>
    rw [result] at ends
    rw [bind_done (attempt_done result)]
    exact (read a d ends.1).before ends.2 (by omega) (by omega)
  | failed e =>
    rw [result] at ends
    rw [bind_done (attempt_failed result)]
    exact givenUp _ (poised.givenUp_at ends)
  | spent =>
    rw [result] at ends
    rw [bind_spent (attempt_spent result)]
    exact ends

theorem tried {p : Rule α} (h : p.ProceedsAt ts n s c) : (Rule.attempt p).ProceedsAt ts 0 s c := by
  rw [← bind_pure (Rule.attempt p)]
  exact h.attempt (fun _ _ => .mono .pure (Nat.sub_le 0 n) (Nat.le_refl _)) fun _ => .pure

theorem describing {p : Rule α} (h : p.ProceedsAt ts n s c) {expected : List Token.Kind}
    (some : expected ≠ [])
    (out : ∀ e, p c = .failed e → e.index = c.index → c.kind ∉ expected) :
    (Rule.describing p expected).ProceedsAt ts n s c := by
  intro poised
  have ends := h poised
  unfold Rule.describing
  cases read : p c with
  | done a c' =>
    rw [read] at ends
    exact ends
  | spent =>
    rw [read] at ends
    exact ends
  | failed e =>
    rw [read] at ends
    dsimp only
    split
    · next first => exact ⟨poised.current, Nat.le_refl _, some, out e read first⟩
    · exact ends

end Rule.ProceedsAt

/-- The reading got past its first token exactly if that is one of `F`, and otherwise failed there
for want of some of `F`. -/
def Outcome.Opens {α : Type} (F : List Token.Kind) (c : Cursor) : Outcome α → Prop
  | .done _ _ => c.kind ∈ F
  | .failed e => c.kind ∈ F ∧ c.index < e.index ∨
      c.kind ∉ F ∧ e.index = c.index ∧ e.expected ⊆ F
  | .spent => True

theorem Outcome.Opens.out {α : Type} {F : List Token.Kind} {c : Cursor} {e : Failure}
    (h : (.failed e : Outcome α).Opens F c) (first : e.index = c.index) : c.kind ∉ F := by
  rcases h with ⟨-, further⟩ | ⟨out, -⟩
  · omega
  · exact out

def Rule.BeginsAt {α : Type} (ts : List Token) (F : List Token.Kind) (steps : Nat) (p : Rule α)
    (c : Cursor) : Prop :=
  c.Poised ts → (p c).Proceeds ts c.index 1 steps ∧ (p c).Opens F c

def Rule.Begins {α : Type} (ts : List Token) (F : List Token.Kind) (steps : Nat) (p : Rule α) :
    Prop :=
  ∀ c, p.BeginsAt ts F steps c

namespace Rule.BeginsAt

variable {α β : Type} {ts : List Token} {F G : List Token.Kind} {s : Nat} {c : Cursor}

theorem proceeds {p : Rule α} (h : p.BeginsAt ts F s c) : p.ProceedsAt ts 1 s c :=
  fun poised => (h poised).1

theorem mono {p : Rule α} {s' : Nat} (h : p.BeginsAt ts F s c) (steps : s' ≤ s) :
    p.BeginsAt ts F s' c :=
  fun poised => ⟨h.proceeds.mono (Nat.le_refl 1) steps poised, (h poised).2⟩

theorem fromHere {f : Cursor → Rule α} (h : (f c).BeginsAt ts F s c) :
    (Rule.here >>= f).BeginsAt ts F s c :=
  h

theorem advance (ends : Token.Terminated ts) {x : Token.Kind} (is : c.kind = x) (first : x ∈ F)
    (more : x ≠ .eof) {f : Token → Rule α} (hf : ∀ t, (f t).Proceeds ts 0 (s - 1)) :
    (Rule.advance >>= f).BeginsAt ts F s c := by
  intro poised
  have next := ends.advance_index poised.toAt (is ▸ more)
  have rest : ((Rule.advance >>= f) c).Proceeds ts (c.index + 1) 0 (s - 1) := by
    rw [← next]
    exact hf c.current c.advance poised.advance
  refine ⟨rest.before (Nat.le_refl _) (by omega) (by omega), ?_⟩
  cases read : (Rule.advance >>= f) c with
  | done a c' =>
    change c.kind ∈ F
    rwa [is]
  | failed e =>
    rw [read] at rest
    exact .inl ⟨by rwa [is], rest.2.1⟩
  | spent => trivial

theorem unexpected {p : Rule α} {expected : List Token.Kind}
    (refused : p c = .failed (c.failure expected)) (other : c.kind ∉ F) (less : expected ⊆ F)
    (some : expected ≠ []) : p.BeginsAt ts F s c := by
  intro poised
  rw [refused]
  exact ⟨⟨poised.current, Nat.le_refl _, some, fun mem => other (less mem)⟩,
    .inr ⟨other, rfl, less⟩⟩

theorem name (ends : Token.Terminated ts) : Rule.name.BeginsAt ts [.identifier] s c := by
  intro poised
  refine ⟨ProceedsAt.name ends poised, ?_⟩
  unfold Rule.name
  split
  · next is =>
    change c.kind ∈ [.identifier]
    rw [Cursor.kind_of_content is]
    exact List.mem_singleton_self _
  · next other =>
    exact .inr ⟨Cursor.kind_not_identifier other, rfl, fun _ mem => mem⟩

theorem bind {p : Rule α} {f : α → Rule β} (hp : p.BeginsAt ts F s c)
    (hf : ∀ a, (f a).Proceeds ts 0 (s - 1)) : (p >>= f).BeginsAt ts F s c := by
  intro poised
  refine ⟨hp.proceeds.bind hf poised, ?_⟩
  obtain ⟨moves, opens⟩ := hp poised
  cases read : p c with
  | done a d =>
    rw [read] at moves opens
    rw [bind_done read]
    have rest := hf a d moves.1
    have := moves.2
    cases read' : f a d with
    | done b c' => exact opens
    | failed e =>
      rw [read'] at rest
      exact .inl ⟨opens, by have := rest.2.1; omega⟩
    | spent => trivial
  | failed e =>
    rw [read] at opens
    rw [bind_failed read]
    exact opens
  | spent =>
    rw [bind_spent read]
    trivial

theorem widen {p : Rule α} (h : p.BeginsAt ts F s c) (more : F ⊆ G)
    (other : c.kind ∈ G → c.kind ∈ F) : p.BeginsAt ts G s c := by
  intro poised
  refine ⟨(h poised).1, ?_⟩
  have opens := (h poised).2
  cases read : p c with
  | done a c' =>
    rw [read] at opens
    exact more opens
  | failed e =>
    rw [read] at opens
    rcases opens with ⟨first, further⟩ | ⟨out, here, less⟩
    · exact .inl ⟨more first, further⟩
    · exact .inr ⟨fun mem => out (other mem), here, fun x mem => more (less mem)⟩
  | spent => trivial

theorem describing {p : Rule α} (h : p.BeginsAt ts F s c) (some : F ≠ []) :
    (Rule.describing p F).BeginsAt ts F s c := by
  intro poised
  have opens := (h poised).2
  refine ⟨h.proceeds.describing some (fun e fails first => ?_) poised, ?_⟩
  · exact Outcome.Opens.out (fails ▸ opens) first
  unfold Rule.describing
  cases read : p c with
  | done a c' =>
    rw [read] at opens
    exact opens
  | spent => trivial
  | failed e =>
    rw [read] at opens
    dsimp only
    rcases opens with ⟨first, further⟩ | ⟨out, here, -⟩
    · rw [if_neg (by omega)]
      exact .inl ⟨first, further⟩
    · rw [if_pos here]
      exact .inr ⟨out, rfl, fun _ mem => mem⟩

end Rule.BeginsAt

/-- How a reading that began at the token with number `i` may end, where nothing need be known of
what its failures name and of its steps. -/
def Outcome.Forward {α : Type} (ts : List Token) (i least : Nat) : Outcome α → Prop
  | .done _ c => c.Poised ts ∧ i + least ≤ c.index
  | .failed e => e.At ts ∧ i ≤ e.index
  | .spent => True

def Rule.ForwardAt {α : Type} (ts : List Token) (least : Nat) (p : Rule α) (c : Cursor) : Prop :=
  c.Poised ts → (p c).Forward ts c.index least

def Rule.Forward {α : Type} (ts : List Token) (least : Nat) (p : Rule α) : Prop :=
  ∀ c, p.ForwardAt ts least c

theorem Outcome.Forward.before {α : Type} {ts : List Token} {i j m n n' : Nat} {o : Outcome α}
    (h : o.Forward ts j n) (le : i + m ≤ j) (least : n' ≤ n + m) : o.Forward ts i n' := by
  cases o with
  | done a c => exact ⟨h.1, by have := h.2; omega⟩
  | failed e => exact ⟨h.1, by have := h.2; omega⟩
  | spent => trivial

section Forward

variable {α β : Type} {ts : List Token} {n m s : Nat} {c : Cursor}

theorem Outcome.Proceeds.forward {i : Nat} {o : Outcome α} (h : o.Proceeds ts i n s)
    (least : m ≤ n) : o.Forward ts i m := by
  cases o with
  | done a c => exact ⟨h.1, by have := h.2; omega⟩
  | failed e => exact ⟨h.1, h.2.1⟩
  | spent => trivial

theorem Rule.ProceedsAt.forward {p : Rule α} (h : p.ProceedsAt ts n s c) (least : m ≤ n) :
    p.ForwardAt ts m c :=
  fun poised => (h poised).forward least

theorem Rule.Proceeds.forward {p : Rule α} (h : p.Proceeds ts n s) (least : m ≤ n) :
    p.Forward ts m :=
  fun c => (h c).forward least

namespace Rule.ForwardAt

theorem pure {a : α} : (Pure.pure a : Rule α).ForwardAt ts 0 c := fun poised =>
  ⟨poised, Nat.le_refl _⟩

theorem spent : (Rule.spent : Rule α).ForwardAt ts n c := fun _ => trivial

theorem mono {p : Rule α} (h : p.ForwardAt ts n c) (least : m ≤ n) : p.ForwardAt ts m c :=
  fun poised => (h poised).before (m := 0) (Nat.le_refl _) least

theorem markFrom {start : Mark} : (Rule.markFrom start).ForwardAt ts 0 c :=
  fun poised => ⟨poised, Nat.le_refl _⟩

theorem unexpected {expected : List Token.Kind} :
    (Rule.unexpected expected : Rule α).ForwardAt ts n c :=
  fun poised => ⟨poised.current, Nat.le_refl _⟩

theorem bind {p : Rule α} {f : α → Rule β} (hp : p.ForwardAt ts m c)
    (hf : ∀ a, (f a).Forward ts (n - m)) : (p >>= f).ForwardAt ts n c := by
  intro poised
  have first := hp poised
  cases read : p c with
  | done a d =>
    rw [read] at first
    rw [bind_done read]
    exact (hf a d first.1).before first.2 (by omega)
  | failed e =>
    rw [read] at first
    rw [bind_failed read]
    exact first
  | spent =>
    rw [bind_spent read]
    trivial

theorem expect (ends : Token.Terminated ts) {x : Token.Kind} (other : x ≠ .eof)
    {expected : List Token.Kind} : (Rule.expect x expected).ForwardAt ts 1 c := by
  intro poised
  unfold Rule.expect
  split
  · next is =>
    have next := ends.advance_index poised.toAt (is ▸ other)
    exact ⟨poised.advance, by omega⟩
  · exact ⟨poised.current, Nat.le_refl _⟩

theorem ifAccept (ends : Token.Terminated ts) {x : Token.Kind} (other : x ≠ .eof) {p q : Rule α}
    (yes : p.Forward ts (n - 1)) (no : q.ForwardAt ts n c) :
    (do if ← accept x then p else q : Rule α).ForwardAt ts n c := by
  intro poised
  by_cases is : c.kind = x
  · rw [bind_done (accept_pos is)]
    have next := ends.advance_index poised.toAt (is ▸ other)
    exact (yes c.advance poised.advance).before (Nat.le_of_eq next.symm) (by omega)
  · rw [bind_done (accept_neg is)]
    exact no poised

theorem describing {p : Rule α} (h : p.ForwardAt ts n c) (expected : List Token.Kind) :
    (Rule.describing p expected).ForwardAt ts n c := by
  intro poised
  have ends := h poised
  unfold Rule.describing
  cases read : p c with
  | done a c' =>
    rw [read] at ends
    exact ends
  | spent => trivial
  | failed e =>
    rw [read] at ends
    dsimp only
    split
    · exact ⟨poised.current, Nat.le_refl _⟩
    · exact ends

end Rule.ForwardAt

end Forward

end ScriptLang
