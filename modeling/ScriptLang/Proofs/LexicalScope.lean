import ScriptLang.Proofs.Control
import ScriptLang.Proofs.Matching.Evaluation

/-! Names in a function are looked up where the function was made. A call does the same whoever
makes it: the frame it is made from and the place of the call reach error reports and nothing
else. The frames that a call makes are new, and which numbers they get makes no difference. -/
namespace ScriptLang

variable {σ : Type}

/-- What was made in frames before `k` goes with itself and with nothing else. -/
def Pairing.Keeps (w : Pairing) (k : Nat) : Prop :=
  ∀ {x y : Nat × Nat}, x.1 < k ∨ y.1 < k → (w.pairs x y ↔ x = y)

theorem Pairing.Le.keeps {k left right : Nat} {hl : k ≤ left} {hr : k ≤ right} {w : Pairing}
    (le : (Pairing.itself k hl hr).Le w) : w.Keeps k := by
  intro x y old
  constructor
  · intro pair
    rcases le.fresh pair with ⟨same, -⟩ | ⟨new, new'⟩
    · exact same
    · have new : left ≤ x.1 := new
      have new' : right ≤ y.1 := new'
      omega
  · rintro rfl
    exact le.kept ⟨rfl, by omega⟩

/-- Ends of two calls that differ only in places and in which new frame is which; frames before
`k` are old. -/
inductive SameCall (k : Nat) : Step σ Value → Step σ Value → Prop where
  | done {v u : Value} {m n : Machine σ} {w : Pairing} (kept : w.Keeps k)
    (values : v.Matches true w u) (stores : m.store.Matches true w n.store)
    (hosts : m.host = n.host) (depths : m.depth = n.depth) : SameCall k (.done v m) (.done u n)
  | failed {e e' : Error} {m n : Machine σ} {w : Pairing} (kept : w.Keeps k)
    (errors : e.bare true = e'.bare true) (stores : m.store.Matches true w n.store)
    (hosts : m.host = n.host) (depths : m.depth = n.depth) :
    SameCall k (.exit (.failed e) m) (.exit (.failed e') n)
  | spent : SameCall k .spent .spent

def Setting.precise (limit depth : Nat) : Setting where
  exact := true
  lax := false
  limit := limit
  limit' := limit
  depth := depth
  depth' := depth
  room := Nat.le_refl _
  even _ := rfl
  alike _ := rfl

theorem SameCall.ofMatches {k left right limit depth : Nat} {hl : k ≤ left} {hr : k ≤ right}
    {f g : Frame} {x y : Step σ Value} (fails : ∀ e m, x = .exit e m → e.Fails)
    (h : x.Matches (.precise limit depth) f g (Pairing.itself k hl hr) (Value.Matches true) y) :
    SameCall k x y := by
  cases h with
  | done later values machine =>
    exact .done later.keeps values machine.store machine.host
      (machine.depth.trans machine.depth'.symm)
  | spent => exact .spent
  | failed lax => cases lax
  | exit later reason machine =>
    obtain ⟨e, rfl⟩ := fails _ _ rfl
    cases reason with
    | failed errors =>
      exact .failed later.keeps (errors.bare_eq rfl) machine.store machine.host
        (machine.depth.trans machine.depth'.symm)

theorem checkCall_same (limit : Nat) {callee callee' : Value}
    (shown : callee.display = callee'.display) (params args : Nat) (site site' : Span)
    (caller caller' : Frame) {m n : Machine σ} (depths : m.depth = n.depth) :
    (∃ e e', checkCall limit callee params args site caller m = .exit (.failed e) m ∧
      checkCall limit callee' params args site' caller' n = .exit (.failed e') n ∧
      e.bare true = e'.bare true) ∨
    (checkCall limit callee params args site caller m = .done () m ∧
      checkCall limit callee' params args site' caller' n = .done () n) := by
  unfold checkCall
  rw [depths, shown]
  split
  · exact .inl ⟨_, _, rfl, rfl, rfl⟩
  · split
    · exact .inl ⟨_, _, rfl, rfl, rfl⟩
    · split
      · exact .inl ⟨_, _, rfl, rfl, rfl⟩
      · exact .inr ⟨rfl, rfl⟩

theorem callFunction_same {limit fuel k j : Nat} {f : Function} (made : f.closure.id < k)
    {args : List Value} (given : ∀ v ∈ args, v.Older k) {m : Machine σ} (older : m.store.Older k)
    (left : k ≤ m.frames) (right : k ≤ j) (t t' : Stamp) (site site' : Span)
    (caller caller' : Frame) :
    SameCall k (callFunction limit (evaluate limit fuel) f (.function f t) args site caller m)
      (callFunction limit (evaluate limit fuel) f (.function f t') args site' caller'
        { m with frames := j }) := by
  have fails : (callFunction limit (evaluate limit fuel : Evaluator σ) f (.function f t) args site
      caller).Exits Exit.Fails := Eval.Exits.callFunction limit f _ args site caller
  have shown : (Value.function f t).display = (Value.function f t').display := by
    rw [Value.display_function, Value.display_function]
  have stores : m.store.Matches true (.itself k left right) m.store := .ofOlder left right older
  have fails := fails m
  unfold callFunction at fails ⊢
  change SameCall k (Eval.bind _ _ m) (Eval.bind _ _ _)
  change ∀ e m', Eval.bind _ _ m = .exit e m' → e.Fails at fails
  unfold Eval.bind at fails ⊢
  rcases checkCall_same limit shown f.params.length args.length site site' caller caller'
    (m := m) (n := { m with frames := j }) rfl with ⟨e, e', here, there, errors⟩ | ⟨here, there⟩
  · rw [here, there]
    exact .failed (Pairing.Le.refl _).keeps errors stores rfl rfl
  · rw [here] at fails ⊢
    rw [there]
    let w : Pairing := (Pairing.itself k left right).grow .same
    have grown : (Pairing.itself k left right).Le w := Pairing.le_grow _ _
    -- the two frames pair what is made in them, and differ in who called and from where
    have frames : Frame.Matches w .same
        (.call m.frames f.displayName m.store.size site caller)
        (.call j f.displayName m.store.size site' caller') :=
      ⟨rfl, fun labels => .inr ⟨rfl, rfl, labels⟩⟩
    have functions : f.Matches true w f := .own (.inl ⟨rfl, made⟩)
    have values : List.Forall₂ (Value.Matches true w) args args :=
      Value.Matches.mono_list grown (Value.Matches.ofOlder_list left right args given)
    have machines : Machine.Matches (.precise limit m.depth) w
        { m with store := m.store.push (some f.closure.scope), frames := m.frames + 1 }
        { m with store := m.store.push (some f.closure.scope), frames := j + 1 } :=
      ⟨(stores.push _).mono grown, rfl, rfl, rfl, rfl, rfl⟩
    have bodies := Eval.Matches.callBody
      (Eval.Matches.evaluate (.deeper (.precise limit m.depth)) fuel) functions
      (.refl (Mark.Matches.own true) f.body) frames values site site' w _ _ (.refl w) machines
    exact .ofMatches fails (bodies.earlier grown)

/-- A call of a function ends in the same way whoever makes it and from wherever: on the same
machine, whatever it holds, with the same value or error, the same host and the same store but for
places and frames; and, where all functions about were made in frames before `k`, so it does if
new frames are numbered from another count, up to which new frame is which. -/
theorem calls_ignore_callers (limit fuel : Nat) (f : Function) (args : List Value) (t t' : Stamp)
    (site site' : Span) (caller caller' : Frame) (m : Machine σ) :
    (callFunction limit (evaluate limit fuel) f (.function f t) args site caller m).Alike false
        SameValue
        (callFunction limit (evaluate limit fuel) f (.function f t') args site' caller' m) ∧
      ∀ k j, f.closure.id < k → (∀ v ∈ args, v.Older k) → m.store.Older k → k ≤ m.frames → k ≤ j →
        SameCall k (callFunction limit (evaluate limit fuel) f (.function f t) args site caller m)
          (callFunction limit (evaluate limit fuel) f (.function f t') args site' caller'
            { m with frames := j }) := by
  constructor
  · have callees : SameValue (.function f t) (.function f t') := by simp [SameValue]
    exact Eval.Alike.callFunction (Eval.Alike.evaluate false limit fuel) limit rfl callees rfl site
      site' caller caller' m m ⟨rfl, by simp⟩
  · intro k j made given older left right
    exact callFunction_same made given older left right t t' site site' caller caller'

/-- A function that reads `x`, called from where `x` is `2` and from where it is `1`. -/
theorem calls_ignore_callers_shadowed :
    ∃ (f : Function) (m : Machine Memory) (caller caller' : Frame),
    f.body.erase = .access "x" () ∧ m.store.get? caller.scope "x" = some (.int 2) ∧
    m.store.get? caller'.scope "x" = some (.int 1) ∧ f.closure.id < 1 ∧ m.store.Older 1 ∧
    1 ≤ m.frames ∧
    SameCall 1 (callFunction 9 (evaluate 9 2) f (.function f .none) [] .nowhere caller m)
      (callFunction 9 (evaluate 9 2) f (.function f .none) [] .nowhere caller'
        { m with frames := 7 }) := by
  have older : Store.Older 1
      ⟨#[⟨[("x", .int 1)], none⟩, ⟨[("x", .int 2)], some globalScope⟩]⟩ := by
    intro scope mem b held
    simp only [List.mem_toArray, List.mem_cons, List.not_mem_nil, or_false] at mem
    rcases mem with rfl | rfl <;> rw [List.mem_singleton.1 held] <;> exact .number _ _
  exact ⟨⟨0, some "f", [], .access "x" ⟨.nowhere, 3⟩, true, .root 0 programName globalScope⟩,
    ⟨_, .memory [] [], 0, 1⟩, .call 0 "g" 1 .nowhere (.root 0 programName globalScope),
    .root 0 programName globalScope, rfl, rfl, rfl, Nat.zero_lt_one, older, Nat.le_refl 1,
    (calls_ignore_callers 9 2 _ [] _ _ _ _ _ _ _).2 1 7 Nat.zero_lt_one (by simp) older
      (Nat.le_refl 1) (by decide)⟩

end ScriptLang
