import ScriptLang.Fault
import ScriptLang.Host
import ScriptLang.Text.Blank

/-! What the built-in functions ask of a host. An answer may be a fault, and the host has changed
either way. -/
namespace ScriptLang.Host

variable {σ : Type}

/-- A question to a host. No answer comes if it takes more turns than it may. -/
abbrev Ask (σ α : Type) := Host σ → Option (Except Fault α × Host σ)

/-- The fault of a built-in function is the failure of what it asked for. -/
def answer {α : Type} (b : Builtin) (r : Except String α × Host σ) :
    Option (Except Fault α × Host σ) :=
  some (r.1.mapError (.hostFailure b), r.2)

def print (text : String) : Ask σ Unit := fun h => answer .print (h.writeLine text)

def wipe : Ask σ Unit := fun h => answer .clear h.clear

def ask : Ask σ String := fun h =>
  match h.readLine with
  | (.ok (some line), h) => some (.ok line, h)
  | (.ok none, h) => some (.error .inputClosed, h)
  | (.error reason, h) => some (.error (.hostFailure .input reason), h)

def retry (line : String) : String := s!"'{line}' must be an integer. Try again!"

/-- Asks until a line is an integer or none is left. -/
def askInteger : Nat → Ask σ Int64
  | 0, _ => none
  | n + 1, h =>
    match h.readLine with
    | (.error reason, h) => some (.error (.hostFailure .inputInt reason), h)
    | (.ok none, h) => some (.error .inputClosed, h)
    | (.ok (some line), h) =>
      match Text.integer? (Text.trim line.toList) with
      | some value => some (.ok value, h)
      | none =>
        match h.writeLine (retry line) with
        | (.error reason, h) => some (.error (.hostFailure .inputInt reason), h)
        | (.ok (), h) => askInteger n h

def fetch (path : String) : Ask σ String := fun h =>
  some ((h.load path).1.mapError (.scriptUnreadable path), (h.load path).2)

end ScriptLang.Host
