/-! What surrounds a program: lines to read, somewhere to write, a screen to clear and scripts to
load. How a host does what it is asked is its own affair: it may fail, now or later, and has
changed either way. What was done is remembered. -/
namespace ScriptLang

inductive Event where
  | line (text : String)
  | clear
  | load (path : String)
  deriving DecidableEq

/-- What a host does when it is asked, by the state it is in. -/
structure Host.Operations (σ : Type) where
  writeLine : String → σ → Except String Unit × σ
  /-- The next line without its terminator, or none when the input is used up. -/
  readLine : σ → Except String (Option String) × σ
  clear : σ → Except String Unit × σ
  readSource : String → σ → Except String String × σ

structure Host (σ : Type) where
  operations : Host.Operations σ
  state : σ
  /-- Lines written, screens cleared and scripts asked for, latest first. -/
  events : List Event

namespace Host

variable {σ : Type}

/-- After an operation, which is remembered if it did not fail. -/
def after {α : Type} (h : Host σ) (e : Event) (r : Except String α × σ) :
    Except String α × Host σ :=
  (r.1, { h with state := r.2, events := if r.1.isOk then e :: h.events else h.events })

def writeLine (h : Host σ) (text : String) : Except String Unit × Host σ :=
  h.after (.line text) (h.operations.writeLine text h.state)

def readLine (h : Host σ) : Except String (Option String) × Host σ :=
  let r := h.operations.readLine h.state
  (r.1, { h with state := r.2 })

def clear (h : Host σ) : Except String Unit × Host σ :=
  h.after .clear (h.operations.clear h.state)

/-- Whether or not there is such a script, it was asked for. -/
def load (h : Host σ) (path : String) : Except String String × Host σ :=
  let r := h.operations.readSource path h.state
  (r.1, { h with state := r.2, events := .load path :: h.events })

/-- Lines written, oldest first. -/
def output (h : Host σ) : List String :=
  h.events.reverse.filterMap fun
    | .line text => some text
    | _ => none

def clears (h : Host σ) : Nat := h.events.countP fun
  | .clear => true
  | _ => false

def forget (h : Host σ) : Host σ := { h with events := [] }

end Host

end ScriptLang
