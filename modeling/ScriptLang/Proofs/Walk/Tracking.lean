import ScriptLang.Proofs.Origin.Reading
import ScriptLang.Proofs.Progress.Reading
import ScriptLang.Proofs.Walk

/-! A walk keeps track of a rule if it ends where the rule does and as the rule does, from every
cursor in the list. What can be said of the rule's cursor and of the places on the walk is carried
along: how far a reading gets that succeeds, that one that fails is left no earlier than it began,
and how many steps suffice. -/
namespace ScriptLang

open Grammar Rule

/-- The cursor stands in the list and sees the tokens around its place, and a reading given up there
has failed no earlier. -/
structure Cursor.Stands (ts : List Token) (c : Cursor) : Prop extends c.At ts where
  previous : ts[c.index - 1]? = some c.previous
  givenUp : ∀ e ∈ c.abandoned, c.index ≤ e.index

/-- No place lies behind the last token, what is read ends behind its beginning, what fails is left
no earlier than it began, and after a tentative reading the walk goes on where that began. -/
def Waymark.Forward (ts : List Token) : Waymark → Prop
  | .comes i => i < ts.length
  | .reads r i j => i + r.least ≤ j
  | .fails _ i j => i ≤ j
  | .givesUp i j k => i ≤ j ∧ k = i

/-- How a walk that began at a place may end, beside a reading that began there. -/
inductive Course.Tracks {α β : Type} (ts : List Token) (i least steps : Nat) (view : β → α) :
    Course α → Outcome β → Prop where
  | done {es : List Waymark} {b : β} {d : Cursor} (forward : ∀ e ∈ es, e.Forward ts)
      (stands : d.Stands ts) (further : i + least ≤ d.index) :
      Tracks ts i least steps view ⟨es, .done (view b) d.index⟩ (.done b d)
  | failed {es : List Waymark} {j : Nat} {e : Failure} (forward : ∀ e ∈ es, e.Forward ts)
      (place : e.At ts) (onward : i ≤ j) (named : j ≤ e.index) :
      Tracks ts i least steps view ⟨es, .failed j⟩ (.failed e)
  | spent {es : List Waymark} (more : i + steps < ts.length) :
      Tracks ts i least steps view ⟨es, .spent⟩ .spent

def Walk.TracksAt {α β : Type} (ts : List Token) (least steps : Nat) (view : β → α) (w : Walk α)
    (p : Rule β) (c : Cursor) : Prop :=
  c.Stands ts → (w ts c.index).Tracks ts c.index least steps view (p c)

def Walk.Tracks {α β : Type} (ts : List Token) (least steps : Nat) (view : β → α) (w : Walk α)
    (p : Rule β) : Prop :=
  ∀ c, w.TracksAt ts least steps view p c

abbrev Walk.Follows {β : Type} (ts : List Token) (least steps : Nat) (w : Walk Unit)
    (p : Rule β) : Prop :=
  w.Tracks ts least steps (fun _ => ()) p

namespace Cursor.Stands

variable {ts : List Token} {c : Cursor}

theorem ofTokens (t : Token) (ts : List Token) : (Cursor.ofTokens t ts).Stands (t :: ts) :=
  ⟨.ofTokens t ts, rfl, nofun⟩

theorem index_lt (h : c.Stands ts) : c.index < ts.length :=
  (List.getElem?_eq_some_iff.1 h.current).1

theorem peek (h : c.Stands ts) : Walk.peek ts c.index = some c.current := by
  have within := h.index_lt
  rw [Walk.peek, Nat.min_eq_left (by omega)]
  exact h.current

theorem advance (closed : Token.Closed (ts.map Token.content)) (h : c.Stands ts)
    (more : c.kind ≠ .eof) : c.advance.Stands ts := by
  refine ⟨h.toAt.advance, ?_, by rw [Cursor.advance_abandoned]; nofun⟩
  rw [closed.advance_index h.toAt more, Nat.add_sub_cancel, h.current]
  unfold Cursor.advance
  split <;> rfl

theorem back (h : c.Stands ts) {e : Failure} (place : e.At ts) (onward : c.index ≤ e.index) :
    Cursor.Stands ts { c with abandoned := some e } := by
  refine ⟨⟨h.current, h.ahead, ?_⟩, h.previous, ?_⟩
  · rintro _ ⟨⟩
    exact place
  · rintro _ ⟨⟩
    exact onward

theorem deeper (h : c.Stands ts) {e : Failure} (place : e.At ts) (index : e.index = c.index) :
    (c.deeper.getD e).At ts ∧ c.index ≤ (c.deeper.getD e).index := by
  cases deeper : c.deeper with
  | some f =>
    have mem := (Option.filter_eq_some_iff.1 deeper).1
    exact ⟨h.abandoned f mem, h.givenUp f mem⟩
  | none => exact ⟨place, Nat.le_of_eq index.symm⟩

end Cursor.Stands

theorem Course.Tracks.before {α β : Type} {ts : List Token} {i j m n n' s s' : Nat} {view : β → α}
    {course : Course α} {o : Outcome β} (h : course.Tracks ts j n s view o) (le : i + m ≤ j)
    (least : n' ≤ n + m) (steps : s' ≤ s + m) : course.Tracks ts i n' s' view o := by
  cases h with
  | done forward stands further => exact .done forward stands (by omega)
  | failed forward place onward named => exact .failed forward place (by omega) named
  | spent more => exact .spent (by omega)

theorem Course.Tracks.behind {α β : Type} {ts : List Token} {i n s : Nat} {view : β → α}
    {course : Course α} {o : Outcome β} (h : course.Tracks ts i n s view o) {es : List Waymark}
    (forward : ∀ e ∈ es, e.Forward ts) :
    (⟨es ++ course.events, course.arrival⟩ : Course α).Tracks ts i n s view o := by
  cases h with
  | done rest stands further =>
    exact .done (List.forall_mem_append.2 ⟨forward, rest⟩) stands further
  | failed rest place onward named =>
    exact .failed (List.forall_mem_append.2 ⟨forward, rest⟩) place onward named
  | spent more => exact .spent more

namespace Walk

variable {α β : Type} {ts : List Token} {i : Nat} {c : Cursor}

theorem bind_done {w : Walk α} {f : α → Walk β} {es : List Waymark} {a : α} {j : Nat}
    (h : w ts i = ⟨es, .done a j⟩) :
    (w >>= f) ts i = ⟨es ++ (f a ts j).events, (f a ts j).arrival⟩ := by
  change Walk.bind w f ts i = _
  unfold Walk.bind
  rw [h]

theorem bind_failed {w : Walk α} {f : α → Walk β} {es : List Waymark} {j : Nat}
    (h : w ts i = ⟨es, .failed j⟩) : (w >>= f) ts i = ⟨es, .failed j⟩ := by
  change Walk.bind w f ts i = _
  unfold Walk.bind
  rw [h]

theorem bind_spent {w : Walk α} {f : α → Walk β} {es : List Waymark}
    (h : w ts i = ⟨es, .spent⟩) : (w >>= f) ts i = ⟨es, .spent⟩ := by
  change Walk.bind w f ts i = _
  unfold Walk.bind
  rw [h]

theorem byKind_eq (stands : c.Stands ts) (table : List (Token.Kind × Walk α)) (other : Walk α) :
    byKind table other ts c.index = (table.lookup c.kind).getD other ts c.index := by
  unfold byKind Cursor.kind
  rw [stands.peek, Option.bind_some]
  cases table.lookup c.current.kind <;> rfl

theorem advance_eq (stands : c.Stands ts) :
    advance ts c.index = ⟨[.comes (c.index + 1)], .done () (c.index + 1)⟩ := by
  unfold advance
  rw [if_pos stands.index_lt]

theorem expect_eq (stands : c.Stands ts) {x : Token.Kind} (is : c.kind = x) :
    expect x ts c.index = advance ts c.index := by
  rw [expect, byKind_eq stands, is, List.lookup_cons, beq_self_eq_true]
  rfl

theorem accept_pos (stands : c.Stands ts) {x : Token.Kind} (is : c.kind = x) :
    accept x ts c.index = ⟨[.comes (c.index + 1)], .done true (c.index + 1)⟩ := by
  rw [accept, byKind_eq stands, is, List.lookup_cons, beq_self_eq_true]
  exact bind_done (advance_eq stands)

theorem accept_neg (stands : c.Stands ts) {x : Token.Kind} (differs : c.kind ≠ x) :
    accept x ts c.index = ⟨[], .done false c.index⟩ := by
  rw [accept, byKind_eq stands, List.lookup_cons, beq_false_of_ne differs]
  rfl

namespace TracksAt

variable {γ δ : Type} {view : β → α} {view' : δ → γ} {n m s : Nat} {w : Walk α} {p : Rule β}

theorem pure {b : β} : (Pure.pure (view b) : Walk α).TracksAt ts 0 s view (Pure.pure b) c :=
  fun stands => .done nofun stands (Nat.le_refl _)

theorem spent : (Walk.spent : Walk α).TracksAt ts n 0 view Rule.spent c :=
  fun stands => .spent stands.index_lt

theorem unexpected {expected : List Token.Kind} :
    Walk.fail.TracksAt ts n s view (Rule.unexpected expected) c :=
  fun stands => .failed nofun stands.current (Nat.le_refl _) (Nat.le_refl _)

theorem mono {n' s' : Nat} (h : w.TracksAt ts n s view p c) (least : n' ≤ n) (steps : s' ≤ s) :
    w.TracksAt ts n' s' view p c :=
  fun stands => (h stands).before (m := 0) (Nat.le_refl _) (by omega) (by omega)

/-- What the first part has passed need not be counted for the second. -/
theorem bind {f : α → Walk γ} {g : β → Rule δ} (first : w.TracksAt ts m s view p c)
    (rest : ∀ b, (f (view b)).Tracks ts (n - m) (s - m) view' (g b)) :
    (w >>= f).TracksAt ts n s view' (p >>= g) c := by
  intro stands
  have ends := first stands
  generalize walked : w ts c.index = course at ends
  generalize read : p c = outcome at ends
  cases ends with
  | done forward stands' further =>
    rw [bind_done walked, Rule.bind_done read]
    exact ((rest _ _ stands').before further (by omega) (by omega)).behind forward
  | failed forward place onward named =>
    rw [bind_failed walked, Rule.bind_failed read]
    exact .failed forward place onward named
  | spent more =>
    rw [bind_spent walked, Rule.bind_spent read]
    exact .spent more

/-- What a rule does last without moving, the walk leaves out. -/
theorem ending {w : Walk Unit} {view : β → Unit} {view' : δ → Unit} {g : β → Rule δ}
    (h : w.TracksAt ts n s view p c) (quiet : ∀ b d, ∃ x, g b d = .done x d) :
    w.TracksAt ts n s view' (p >>= g) c := by
  intro stands
  have ends := h stands
  generalize w ts c.index = course at ends
  generalize read : p c = outcome at ends
  cases ends with
  | @done es b d forward stands' further =>
    obtain ⟨x, eq⟩ := quiet b d
    rw [Rule.bind_done read, eq]
    exact .done forward stands' further
  | failed forward place onward named =>
    rw [Rule.bind_failed read]
    exact .failed forward place onward named
  | spent more =>
    rw [Rule.bind_spent read]
    exact .spent more

theorem last {w : Walk Unit} {view : β → Unit} {view' : δ → Unit} {g : β → Rule δ} {s' : Nat}
    (h : w.TracksAt ts n s view p c) (steps : s' ≤ s) (quiet : ∀ b d, ∃ x, g b d = .done x d) :
    w.TracksAt ts 0 s' view' (p >>= g) c :=
  (h.ending quiet).mono (Nat.zero_le n) steps

theorem fromHere {f : Cursor → Rule β} (h : w.TracksAt ts n s view (f c) c) :
    w.TracksAt ts n s view (Rule.here >>= f) c :=
  h

theorem markFrom {start : Mark} {f : Mark → Rule β}
    (h : w.TracksAt ts n s view (f (start.upTo c.previous.span)) c) :
    w.TracksAt ts n s view (Rule.markFrom start >>= f) c :=
  h

theorem byKind {table : List (Token.Kind × Walk α)} {other : Walk α}
    (found : table.lookup c.kind = some w) (h : w.TracksAt ts n s view p c) :
    (Walk.byKind table other).TracksAt ts n s view p c := by
  intro stands
  rw [byKind_eq stands, found]
  exact h stands

theorem skip {x : Token.Kind} {v other : Walk α} {table : List (Token.Kind × Walk α)}
    (differs : c.kind ≠ x) (h : (Walk.byKind table other).TracksAt ts n s view p c) :
    (Walk.byKind ((x, v) :: table) other).TracksAt ts n s view p c := by
  intro stands
  rw [byKind_eq stands, List.lookup_cons, beq_false_of_ne differs, ← byKind_eq stands]
  exact h stands

theorem byNone {table : List (Token.Kind × Walk α)} {other : Walk α}
    (missing : table.lookup c.kind = none) (h : other.TracksAt ts n s view p c) :
    (Walk.byKind table other).TracksAt ts n s view p c := by
  intro stands
  rw [byKind_eq stands, missing]
  exact h stands

theorem byDefault {other : Walk α} (h : other.TracksAt ts n s view p c) :
    (Walk.byKind [] other).TracksAt ts n s view p c :=
  byNone rfl h

theorem passed {view : β → Unit} (closed : Token.Closed (ts.map Token.content))
    (stands : c.Stands ts) (more : c.kind ≠ .eof) (b : β) :
    (Walk.advance ts c.index).Tracks ts c.index 1 s view (.done b c.advance) := by
  have next := stands.advance closed more
  have index := closed.advance_index stands.toAt more
  rw [advance_eq stands, ← index]
  exact .done (List.forall_mem_singleton.2 next.index_lt) next (Nat.le_of_eq index.symm)

theorem advance (closed : Token.Closed (ts.map Token.content)) (more : c.kind ≠ .eof) :
    Walk.advance.TracksAt ts 1 s (fun _ => ()) Rule.advance c :=
  fun stands => passed closed stands more _

theorem expect (closed : Token.Closed (ts.map Token.content)) {x : Token.Kind} (other : x ≠ .eof)
    {expected : List Token.Kind} :
    (Walk.expect x).TracksAt ts 1 s (fun _ => ()) (Rule.expect x expected) c := by
  intro stands
  unfold Rule.expect
  split
  · next is =>
    rw [expect_eq stands is]
    exact passed closed stands (is ▸ other) _
  · next differs => exact skip differs (byDefault unexpected) stands

theorem name (closed : Token.Closed (ts.map Token.content)) :
    (Walk.expect .identifier).TracksAt ts 1 s (fun _ => ()) Rule.name c := by
  intro stands
  unfold Rule.name
  split
  · next x is =>
    have kind : c.kind = .identifier := Cursor.kind_of_content is
    rw [expect_eq stands kind]
    exact passed closed stands (by rw [kind]; nofun) x
  · next other =>
    have differs : c.kind ≠ .identifier := by simpa using Cursor.kind_not_identifier other
    exact skip differs (byDefault unexpected) stands

theorem opened {x : Token.Kind} {f : Walk Unit} {g : Rule β} {view : β → Unit}
    (closed : Token.Closed (ts.map Token.content)) (is : c.kind = x) (other : x ≠ .eof)
    (rest : f.Tracks ts (n - 1) (s - 1) view g) :
    (do Walk.expect x; f).TracksAt ts n s view (do let _ ← Rule.advance; g) c := by
  have first : (Walk.expect x).TracksAt ts 1 s (fun _ => ()) Rule.advance c := by
    intro stands
    rw [expect_eq stands is]
    exact advance closed (is ▸ other) stands
  exact first.bind fun _ => rest

theorem token (closed : Token.Closed (ts.map Token.content)) (more : c.kind ≠ .eof) (b : β) :
    Walk.advance.TracksAt ts 1 s (fun _ => ()) (do let _ ← Rule.advance; Pure.pure b) c :=
  fun stands => passed closed stands more b

theorem ifTaken {x : Token.Kind} {q : Rule β}
    (yes : c.kind = x → w.TracksAt ts n s view (do let _ ← Rule.advance; p) c)
    (no : c.kind ≠ x → w.TracksAt ts n s view q c) :
    w.TracksAt ts n s view (do if ← Rule.accept x then p else q) c := by
  intro stands
  by_cases is : c.kind = x
  · rw [Rule.bind_done (Rule.accept_pos is)]
    exact yes is stands
  · rw [Rule.bind_done (Rule.accept_neg is)]
    exact no is stands

theorem ifAccept {x : Token.Kind} {v : Walk α} {q : Rule β}
    (closed : Token.Closed (ts.map Token.content)) (other : x ≠ .eof)
    (yes : v.Tracks ts (n - 1) (s - 1) view p) (no : w.TracksAt ts n s view q c) :
    (do if ← Walk.accept x then v else w).TracksAt ts n s view
      (do if ← Rule.accept x then p else q) c := by
  intro stands
  by_cases is : c.kind = x
  · have next := stands.advance closed (is ▸ other)
    have index := closed.advance_index stands.toAt (is ▸ other)
    rw [Walk.bind_done (Walk.accept_pos stands is), Rule.bind_done (Rule.accept_pos is), ← index]
    have came : ∀ e ∈ [Waymark.comes c.advance.index], e.Forward ts :=
      List.forall_mem_singleton.2 next.index_lt
    exact ((yes _ next).before (m := 1) (by omega) (by omega) (by omega)).behind came
  · rw [Walk.bind_done (Walk.accept_neg stands is), Rule.bind_done (Rule.accept_neg is)]
    exact no stands

theorem attempt {v : Walk δ} {q : Rule γ} {seen : γ → δ} {f : Bool → Walk α}
    {g : Option γ → Rule β} (first : v.TracksAt ts m s seen q c)
    (read : ∀ b, (f true).Tracks ts (n - m) (s - m) view (g (some b)))
    (givenUp : (f false).Tracks ts n s view (g none)) :
    (Walk.attempt v >>= f).TracksAt ts n s view (Rule.attempt q >>= g) c := by
  intro stands
  have ends := first stands
  generalize walked : v ts c.index = course at ends
  generalize result : q c = outcome at ends
  cases ends with
  | @done es b d forward stands' further =>
    have tried : Walk.attempt v ts c.index = ⟨es, .done true d.index⟩ := by
      rw [Walk.attempt, walked]
    rw [Walk.bind_done tried, Rule.bind_done (attempt_done result)]
    exact ((read b d stands').before further (by omega) (by omega)).behind forward
  | @failed es j e forward place onward named =>
    have tried : Walk.attempt v ts c.index =
        ⟨es ++ [.givesUp c.index j c.index, .comes c.index], .done false c.index⟩ := by
      rw [Walk.attempt, walked]
    rw [Walk.bind_done tried, Rule.bind_done (attempt_failed result)]
    refine (givenUp _ (stands.back place (by omega))).behind ?_
    refine List.forall_mem_append.2 ⟨forward, List.forall_mem_cons.2 ⟨⟨onward, rfl⟩, ?_⟩⟩
    exact List.forall_mem_singleton.2 stands.index_lt
  | @spent es more =>
    have tried : Walk.attempt v ts c.index = ⟨es, .spent⟩ := by
      rw [Walk.attempt, walked]
    rw [Walk.bind_spent tried, Rule.bind_spent (attempt_spent result)]
    exact .spent more

theorem describing (h : w.TracksAt ts n s view p c) (expected : List Token.Kind) :
    w.TracksAt ts n s view (Rule.describing p expected) c := by
  intro stands
  have ends := h stands
  unfold Rule.describing
  generalize w ts c.index = course at ends
  generalize p c = outcome at ends
  cases ends with
  | done forward stands' further => exact .done forward stands' further
  | failed forward place onward named =>
    dsimp only
    split
    · next first =>
      exact .failed forward stands.current onward (Nat.le_trans named (Nat.le_of_eq first))
    · exact .failed forward place onward named
  | spent more => exact .spent more

theorem part {r : Construct} (h : w.TracksAt ts n s view p c) (least : r.least ≤ n) :
    (Walk.part r w).TracksAt ts n s view p c := by
  intro stands
  have ends := h stands
  unfold Walk.part
  generalize w ts c.index = course at ends
  generalize p c = outcome at ends
  cases ends with
  | @done es b d forward stands' further =>
    have read : (Waymark.reads r c.index d.index).Forward ts := by
      change c.index + r.least ≤ d.index
      omega
    refine .done (List.forall_mem_append.2 ⟨forward, ?_⟩) stands' further
    exact List.forall_mem_singleton.2 read
  | failed forward place onward named =>
    refine .failed (List.forall_mem_append.2 ⟨forward, ?_⟩) place onward named
    exact List.forall_mem_singleton.2 onward
  | spent more => exact .spent more

end TracksAt

end Walk

end ScriptLang
