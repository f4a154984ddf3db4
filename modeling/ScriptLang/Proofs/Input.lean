import ScriptLang.Proofs.Number.Exact
import ScriptLang.Proofs.Token.Literal
import ScriptLang.Proofs.WriteBack
import ScriptLang.Session

/-! Asking for integers. `INPUT_INT` reads up to the first line that is an integer between blanks,
and no further; it answers every line before with a line that quotes it. -/
namespace ScriptLang

namespace Text

/-- Decimal digits behind a sign at most, for an integer of 64 bits. -/
def Spells (cs : List Char) (n : Int64) : Prop :=
  ∃ digits, digits ≠ [] ∧ (∀ c ∈ digits, c.isDigit) ∧
    (((cs = digits ∨ cs = '+' :: digits) ∧ n.toInt = decimalValue digits) ∨
      (cs = '-' :: digits ∧ n.toInt = -decimalValue digits))

/-- The integer is what a line has between blanks. -/
def Offers (line : List Char) (n : Int64) : Prop :=
  ∃ left core right, line = left ++ (core ++ right) ∧ (∀ c ∈ left, isBlank c) ∧
    (∀ c ∈ right, isBlank c) ∧ Spells core n

theorem natural?_eq_some {cs : List Char} {k : Nat} : natural? cs = some k ↔
    cs ≠ [] ∧ (∀ c ∈ cs, c.isDigit) ∧ decimalValue cs = k := by
  simp [natural?, ofDigitChars_eq_decimalValue, and_assoc]

theorem signed_eq_some {cs : List Char} {n : Int64} {sign : Nat → Int} :
    ((natural? cs).map sign).bind Int64.ofInt? = some n ↔
      cs ≠ [] ∧ (∀ c ∈ cs, c.isDigit) ∧ n.toInt = sign (decimalValue cs) := by
  simp only [Option.bind_eq_some_iff, Option.map_eq_some_iff, natural?_eq_some,
    Int64.ofInt?_eq_some]
  constructor
  · rintro ⟨_, ⟨_, ⟨some, digits, rfl⟩, rfl⟩, value⟩
    exact ⟨some, digits, value⟩
  · rintro ⟨some, digits, value⟩
    exact ⟨_, ⟨_, ⟨some, digits, rfl⟩, rfl⟩, value⟩

theorem integer?_minus {digits : List Char} {n : Int64} : integer? ('-' :: digits) = some n ↔
    digits ≠ [] ∧ (∀ c ∈ digits, c.isDigit) ∧ n.toInt = -decimalValue digits := by
  have negated : integer? ('-' :: digits) =
      ((natural? digits).map fun k : Nat => -(k : Int)).bind Int64.ofInt? := by
    cases eq : natural? digits <;> simp [integer?, eq]
  rw [negated, signed_eq_some]

theorem integer?_plus {digits : List Char} {n : Int64} : integer? ('+' :: digits) = some n ↔
    digits ≠ [] ∧ (∀ c ∈ digits, c.isDigit) ∧ n.toInt = decimalValue digits :=
  signed_eq_some

theorem integer?_unsigned {cs : List Char} {n : Int64} (minus : ∀ digits, cs ≠ '-' :: digits)
    (plus : ∀ digits, cs ≠ '+' :: digits) : integer? cs = some n ↔
      cs ≠ [] ∧ (∀ c ∈ cs, c.isDigit) ∧ n.toInt = decimalValue cs := by
  unfold integer?
  split
  · next digits => exact absurd rfl (minus digits)
  · next digits => exact absurd rfl (plus digits)
  · exact signed_eq_some

theorem integer?_eq_some {cs : List Char} {n : Int64} : integer? cs = some n ↔ Spells cs n := by
  constructor
  · intro found
    by_cases minus : ∃ digits, cs = '-' :: digits
    · obtain ⟨digits, rfl⟩ := minus
      obtain ⟨some, all, value⟩ := integer?_minus.1 found
      exact ⟨digits, some, all, .inr ⟨rfl, value⟩⟩
    by_cases plus : ∃ digits, cs = '+' :: digits
    · obtain ⟨digits, rfl⟩ := plus
      obtain ⟨some, all, value⟩ := integer?_plus.1 found
      exact ⟨digits, some, all, .inl ⟨.inr rfl, value⟩⟩
    obtain ⟨some, all, value⟩ :=
      (integer?_unsigned (not_exists.1 minus) (not_exists.1 plus)).1 found
    exact ⟨cs, some, all, .inl ⟨.inl rfl, value⟩⟩
  · rintro ⟨digits, some, all, ⟨rfl | rfl, value⟩ | ⟨rfl, value⟩⟩
    · refine (integer?_unsigned ?_ ?_).2 ⟨some, all, value⟩ <;>
        · rintro rest rfl
          simp at all
    · exact integer?_plus.2 ⟨some, all, value⟩
    · exact integer?_minus.2 ⟨some, all, value⟩

theorem isBlank_of_isDigit {c : Char} (h : c.isDigit) : isBlank c = false := by
  simp only [Char.isDigit, Bool.and_eq_true, decide_eq_true_eq] at h
  have low : 48 ≤ c.toNat := h.1
  have high : c.toNat ≤ 57 := h.2
  simp only [isBlank, Bool.or_eq_false_iff, Bool.and_eq_false_iff, decide_eq_false_iff_not,
    beq_eq_false_iff_ne]
  omega

theorem Spells.ends {cs : List Char} {n : Int64} (h : Spells cs n) :
    (∃ c rest, cs = c :: rest ∧ isBlank c = false) ∧
      ∃ rest c, cs = rest ++ [c] ∧ isBlank c = false := by
  obtain ⟨digits, some, all, spelled⟩ := h
  obtain ⟨front, c, rfl⟩ : ∃ front c, digits = front ++ [c] :=
    ⟨_, _, (List.dropLast_append_getLast some).symm⟩
  have last : isBlank c = false := isBlank_of_isDigit (all c (by simp))
  rcases spelled with ⟨rfl | rfl, -⟩ | ⟨rfl, -⟩
  · refine ⟨?_, front, c, rfl, last⟩
    cases front with
    | nil => exact ⟨c, [], rfl, last⟩
    | cons d front => exact ⟨d, _, rfl, isBlank_of_isDigit (all d (by simp))⟩
  · exact ⟨⟨_, _, rfl, by decide⟩, '+' :: front, c, rfl, last⟩
  · exact ⟨⟨_, _, rfl, by decide⟩, '-' :: front, c, rfl, last⟩

theorem exists_trim (line : List Char) : ∃ left right, line = left ++ (trim line ++ right) ∧
    (∀ c ∈ left, isBlank c) ∧ ∀ c ∈ right, isBlank c := by
  let core := line.dropWhile isBlank
  refine ⟨line.takeWhile isBlank, (core.reverse.takeWhile isBlank).reverse, ?_, ?_, ?_⟩
  · have whole : trim line ++ (core.reverse.takeWhile isBlank).reverse = core := by
      rw [trim, ← List.reverse_append, List.takeWhile_append_dropWhile, List.reverse_reverse]
    rw [whole, List.takeWhile_append_dropWhile]
  · exact fun c mem => List.mem_takeWhile_imp mem
  · exact fun c mem => List.mem_takeWhile_imp (List.mem_reverse.1 mem)

theorem dropWhile_blanks {left rest : List Char} (blanks : ∀ c ∈ left, isBlank c) {c : Char}
    (other : isBlank c = false) : (left ++ c :: rest).dropWhile isBlank = c :: rest := by
  rw [List.dropWhile_append_of_pos blanks]
  simp [other]

theorem trim_eq {left right core : List Char} (before : ∀ c ∈ left, isBlank c)
    (behind : ∀ c ∈ right, isBlank c) (first : ∃ c rest, core = c :: rest ∧ isBlank c = false)
    (last : ∃ rest c, core = rest ++ [c] ∧ isBlank c = false) :
    trim (left ++ (core ++ right)) = core := by
  obtain ⟨c, rest, eq, other⟩ := first
  obtain ⟨front, d, eq', other'⟩ := last
  have dropped : (left ++ (core ++ right)).dropWhile isBlank = core ++ right := by
    rw [eq, List.cons_append, dropWhile_blanks before other]
  have behind' : ∀ c ∈ right.reverse, isBlank c := fun c mem => behind c (List.mem_reverse.1 mem)
  rw [trim, dropped, List.reverse_append, eq', List.reverse_append, List.reverse_singleton,
    List.singleton_append, dropWhile_blanks behind' other']
  simp

theorem integer?_trim {line : List Char} {n : Int64} :
    integer? (trim line) = some n ↔ Offers line n := by
  constructor
  · intro found
    obtain ⟨left, right, split, before, behind⟩ := exists_trim line
    exact ⟨left, trim line, right, split, before, behind, integer?_eq_some.1 found⟩
  · rintro ⟨left, core, right, rfl, before, behind, spelled⟩
    rw [trim_eq before behind spelled.ends.1 spelled.ends.2]
    exact integer?_eq_some.2 spelled

theorem integer?_trim_eq_none {line : List Char} :
    integer? (trim line) = none ↔ ∀ n, ¬ Offers line n := by
  simp only [← integer?_trim, Option.eq_none_iff_forall_ne_some, ne_eq]

theorem spells_toString (n : Int64) : Spells (toString n.toInt).toList n := by
  have some (k : Nat) : Nat.toDigits 10 k ≠ [] := Nat.toDigits_ne_nil
  have all (k : Nat) : ∀ c ∈ Nat.toDigits 10 k, c.isDigit := fun c mem =>
    Nat.isDigit_of_mem_toDigits (by decide) (by decide) mem
  have value (k : Nat) : decimalValue (Nat.toDigits 10 k) = k := by
    rw [← ofDigitChars_eq_decimalValue, Nat.ofDigitChars_toDigits (by decide) (by decide)]
  cases eq : n.toInt with
  | ofNat k =>
    have text : (toString (Int.ofNat k)).toList = Nat.toDigits 10 k := Nat.toList_repr
    exact ⟨_, some k, all k, .inl ⟨.inl text, by rw [eq, value]; rfl⟩⟩
  | negSucc k =>
    have text : (toString (Int.negSucc k)).toList = '-' :: Nat.toDigits 10 (k + 1) := by
      change ("-" ++ Nat.repr (k + 1)).toList = _
      rw [String.toList_append, Nat.toList_repr]
      rfl
    exact ⟨_, some (k + 1), all (k + 1), .inr ⟨text, by rw [eq, value]; rfl⟩⟩

end Text

namespace Host

/-- Lines are handed out as they are, and reading does not fail. -/
structure InMemory (h : Host Memory) : Prop where
  operations : h.operations = Memory.operations
  reads : h.state.readError = none
  verbatim : h.state.terminated = false

def advanced (h : Host Memory) (written rest : List String) : Host Memory :=
  { h with
    state := { h.state with input := rest }
    events := (written.map Event.line).reverse ++ h.events }

@[simp] theorem output_advanced (h : Host Memory) (written rest : List String) :
    (h.advanced written rest).output = h.output ++ written := by
  simp [advanced, output, List.filterMap_append, List.filterMap_map]

variable {h : Host Memory} {line reason : String} {rest : List String} {n : Int64}

theorem InMemory.advanced (memory : h.InMemory) (written rest : List String) :
    (h.advanced written rest).InMemory :=
  ⟨memory.operations, memory.reads, memory.verbatim⟩

theorem InMemory.readLine_nil (memory : h.InMemory) (queue : h.state.input = []) :
    h.readLine = (.ok none, h) := by
  have read : h.operations.readLine h.state = (.ok none, h.state) := by
    rw [memory.operations]
    simp [Memory.operations, Memory.readLine, memory.reads, queue]
  rw [readLine, read]

theorem InMemory.readLine_cons (memory : h.InMemory) (queue : h.state.input = line :: rest) :
    h.readLine = (.ok (some line), h.advanced [] rest) := by
  have read : h.operations.readLine h.state =
      (.ok (some line), { h.state with input := rest }) := by
    rw [memory.operations]
    simp [Memory.operations, Memory.readLine, memory.reads, memory.verbatim, queue]
  rw [readLine, read]
  rfl

theorem InMemory.writeLine_eq (memory : h.InMemory) (text : String) :
    h.writeLine text = h.after (.line text) (Memory.failing h.state.writeError, h.state) := by
  rw [writeLine, memory.operations]
  rfl

theorem askInteger_accepted (memory : h.InMemory) (queue : h.state.input = line :: rest)
    (offers : Text.Offers line.toList n) (k : Nat) :
    askInteger (k + 1) h = some (.ok n, h.advanced [] rest) := by
  rw [askInteger, memory.readLine_cons queue]
  simp [Text.integer?_trim.2 offers]

theorem askInteger_closed (memory : h.InMemory) (queue : h.state.input = []) (k : Nat) :
    askInteger (k + 1) h = some (.error .inputClosed, h) := by
  rw [askInteger, memory.readLine_nil queue]

theorem askInteger_unwritten (memory : h.InMemory) (fails : h.state.writeError = some reason)
    (queue : h.state.input = line :: rest) (rejected : ∀ n, ¬ Text.Offers line.toList n) (k : Nat) :
    askInteger (k + 1) h =
      some (.error (.hostFailure .inputInt reason), h.advanced [] rest) := by
  rw [askInteger, memory.readLine_cons queue]
  simp only [Text.integer?_trim_eq_none.2 rejected, (memory.advanced [] rest).writeLine_eq]
  have fails : (h.advanced [] rest).state.writeError = some reason := fails
  rw [fails]
  rfl

theorem askInteger_rejected (memory : h.InMemory) (writes : h.state.writeError = none)
    (queue : h.state.input = line :: rest) (rejected : ∀ n, ¬ Text.Offers line.toList n) (k : Nat) :
    askInteger (k + 1) h = askInteger k (h.advanced [retry line] rest) := by
  rw [askInteger, memory.readLine_cons queue]
  simp only [Text.integer?_trim_eq_none.2 rejected, (memory.advanced [] rest).writeLine_eq]
  have writes : (h.advanced [] rest).state.writeError = none := writes
  rw [writes]
  rfl

theorem askInteger_passes (memory : h.InMemory) (writes : h.state.writeError = none)
    {skipped : List String} (queue : h.state.input = skipped ++ rest)
    (rejected : ∀ line ∈ skipped, ∀ n, ¬ Text.Offers line.toList n) (k : Nat) :
    askInteger (skipped.length + k) h = askInteger k (h.advanced (skipped.map retry) rest) := by
  induction skipped generalizing h with
  | nil =>
    have same : h.advanced [] rest = h := by
      obtain ⟨operations, state, events⟩ := h
      cases state
      cases queue
      rfl
    simp [same]
  | cons line skipped ih =>
    have first := rejected line (by simp)
    have others := fun other mem => rejected other (List.mem_cons_of_mem line mem)
    have queue' : h.state.input = line :: (skipped ++ rest) := queue
    have memory' := memory.advanced [retry line] (skipped ++ rest)
    have length : (line :: skipped).length + k = skipped.length + k + 1 := by
      simp [Nat.add_right_comm]
    rw [length, askInteger_rejected memory writes queue' first, ih memory' writes rfl others]
    simp [advanced]

theorem askInteger_eq_ok (memory : h.InMemory) (writes : h.state.writeError = none)
    {skipped : List String} (queue : h.state.input = skipped ++ line :: rest)
    (rejected : ∀ line ∈ skipped, ∀ n, ¬ Text.Offers line.toList n)
    (offers : Text.Offers line.toList n) {k : Nat} (enough : h.state.input.length < k) :
    askInteger k h = some (.ok n, h.advanced (skipped.map retry) rest) := by
  obtain ⟨k, rfl⟩ : ∃ k', k = skipped.length + (k' + 1) := by
    refine ⟨k - skipped.length - 1, ?_⟩
    simp only [queue, List.length_append, List.length_cons] at enough
    omega
  rw [askInteger_passes memory writes queue rejected,
    askInteger_accepted (memory.advanced _ _) rfl offers]
  simp [advanced]

theorem askInteger_eq_error (memory : h.InMemory) (writes : h.state.writeError = none)
    (rejected : ∀ line ∈ h.state.input, ∀ n, ¬ Text.Offers line.toList n) {k : Nat}
    (enough : h.state.input.length < k) :
    askInteger k h =
      some (.error .inputClosed, h.advanced (h.state.input.map retry) []) := by
  obtain ⟨k, rfl⟩ : ∃ k', k = h.state.input.length + (k' + 1) :=
    ⟨k - h.state.input.length - 1, by omega⟩
  rw [askInteger_passes memory writes (List.append_nil _).symm rejected,
    askInteger_closed (memory.advanced _ _) rfl]

end Host

theorem eval_call_inputInt {σ : Type} {limit fuel : Nat} {callee : Tree} {mark : Mark}
    {frame : Frame} {m m₁ : Machine σ} {t : Stamp} (called : eval limit fuel callee frame m =
      .done (.builtin .inputInt t) m₁) (room : m₁.depth < limit) :
    eval limit (fuel + 1) (.call callee [] mark) frame m =
      match Host.askInteger fuel m₁.host with
      | some (.ok n, h) => .done ((Value.int n).place mark.span frame)
          { m₁ with host := h, frames := m₁.frames + 1 }
      | some (.error fault, h) => .exit (.failed (.runtime fault mark.span
          (.call m₁.frames "input_int" frame.scope mark.span frame)))
          { m₁ with host := h, frames := m₁.frames + 1 }
      | none => .spent := by
  have entered (callee : Value) : checkCall limit callee 0 0 mark.span frame m₁ = .done () m₁ := by
    simp [checkCall, Nat.not_le_of_lt room]
  have given : evalAll (evaluate limit fuel) frame [] m₁ = .done [] m₁ := rfl
  rw [eval_call_builtin called given]
  simp only [callBuiltin, Builtin.params, List.length_nil, bind, Eval.bind, entered,
    Eval.plainFrame, Eval.nested, execute, onHost]
  rcases Host.askInteger fuel m₁.host with _ | ⟨fault | n, h⟩
  · rfl
  · rfl
  · rfl

/-- `INPUT_INT` gives the first integer that a line offers and has read just the lines up to that
one, each of the others quoted in a line of the output; when there is none it has read all lines and
fails. When lines cannot be written it fails at the first line that is no integer. It takes a step
for each line. The decimal text of every integer is accepted, whatever blanks are around it. -/
theorem input_int_consumes {limit fuel : Nat} {callee : Tree} {mark : Mark} {frame : Frame}
    {m m₁ : Machine Memory} {t : Stamp} (called : eval limit fuel callee frame m =
      .done (.builtin .inputInt t) m₁) (room : m₁.depth < limit) (memory : m₁.host.InMemory)
    (enough : m₁.host.state.input.length < fuel) :
    (∀ skipped line rest n, m₁.host.state.writeError = none →
      m₁.host.state.input = skipped ++ line :: rest →
      (∀ other ∈ skipped, ∀ k, ¬ Text.Offers other.toList k) → Text.Offers line.toList n →
      eval limit (fuel + 1) (.call callee [] mark) frame m =
        .done ((Value.int n).place mark.span frame) { m₁ with
          host := m₁.host.advanced
            (skipped.map fun other => s!"'{other}' must be an integer. Try again!") rest
          frames := m₁.frames + 1 }) ∧
    (m₁.host.state.writeError = none →
      (∀ line ∈ m₁.host.state.input, ∀ n, ¬ Text.Offers line.toList n) →
      ∃ e, eval limit (fuel + 1) (.call callee [] mark) frame m = .exit (.failed e) { m₁ with
          host := m₁.host.advanced
            (m₁.host.state.input.map fun line => s!"'{line}' must be an integer. Try again!") []
          frames := m₁.frames + 1 } ∧
        e.diagnostic.details = "input stream is closed") ∧
    (∀ reason line rest, m₁.host.state.writeError = some reason →
      m₁.host.state.input = line :: rest →
      (∀ n, ¬ Text.Offers line.toList n) →
      ∃ e, eval limit (fuel + 1) (.call callee [] mark) frame m = .exit (.failed e) { m₁ with
          host := m₁.host.advanced [] rest
          frames := m₁.frames + 1 } ∧
        e.diagnostic.details = s!"I/O failure in input_int: {reason}") ∧
    ∀ (n : Int64) (left right : List Char), (∀ c ∈ left, Text.isBlank c) →
      (∀ c ∈ right, Text.isBlank c) →
      Text.Offers (left ++ ((toString n.toInt).toList ++ right)) n := by
  rw [eval_call_inputInt called room]
  refine ⟨fun skipped line rest n writes queue rejected offers => ?_, fun writes rejected => ?_,
    fun reason line rest fails queue rejected => ?_, fun n left right before behind => ?_⟩
  · rw [Host.askInteger_eq_ok memory writes queue rejected offers enough]
    rfl
  · rw [Host.askInteger_eq_error memory writes rejected enough]
    exact ⟨_, rfl, rfl⟩
  · obtain ⟨fuel, rfl⟩ := Nat.exists_eq_add_one_of_ne_zero (Nat.ne_zero_of_lt enough)
    rw [Host.askInteger_unwritten memory fails queue rejected]
    exact ⟨_, rfl, rfl⟩
  · exact ⟨left, _, right, rfl, before, behind, Text.spells_toString n⟩

/-- A sign alone and a blank line are refused, and leading zeros between blanks are not. -/
theorem input_int_consumes_padded : ∃ (mark : Mark) (frame : Frame) (m : Machine Memory)
    (r : Value) (m' : Machine Memory), m.host.state.input = ["+", " ", "\u00a0-007\t", "8"] ∧
    eval 10 6 (.call (.access "INPUT_INT" mark) [] mark) frame m = .done r m' ∧
    r.bare = .number (.int (-7)) .none ∧ m'.host.state.input = ["8"] ∧
    m'.host.output =
      ["'+' must be an integer. Try again!", "' ' must be an integer. Try again!"] := by
  let mark : Mark := ⟨⟨⟨"<stdin>", ""⟩, .origin, .origin⟩, 0⟩
  let frame : Frame := .root 0 programName globalScope
  let m : Machine Memory := (Session.start {} (.memory ["+", " ", "\u00a0-007\t", "8"] [])).machine
  have called : eval 10 5 (.access "INPUT_INT" mark) frame m =
      .done (.builtin .inputInt ⟨some mark.span, some frame⟩) m := rfl
  have rejected : ∀ other ∈ ["+", " "], ∀ k, ¬ Text.Offers other.toList k := by
    simp only [← Text.integer?_trim_eq_none]
    decide
  have offers : Text.Offers "\u00a0-007\t".toList (-7) := Text.integer?_trim.1 (by decide)
  have ran : eval 10 6 (.call (.access "INPUT_INT" mark) [] mark) frame m = _ :=
    (input_int_consumes called (by decide) ⟨rfl, rfl, rfl⟩ (by decide)).1 ["+", " "] _ ["8"] _
      rfl rfl rejected offers
  exact ⟨mark, frame, m, _, _, rfl, ran, rfl, rfl, Host.output_advanced ..⟩

end ScriptLang
