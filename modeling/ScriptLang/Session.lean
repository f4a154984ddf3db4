import ScriptLang.Eval
import ScriptLang.Host.Memory

/-! A session runs one program after another against the same global scope and host. -/
namespace ScriptLang

structure Config where
  /-- How many calls may be active at a time. -/
  maxDepth : Nat := 1000
  /-- The name of texts that are given directly. -/
  sourceName : String := "<stdin>"

structure Session (σ : Type) where
  config : Config
  machine : Machine σ

namespace Session

variable {σ : Type}

def start (config : Config) (host : Host σ) : Session σ :=
  ⟨config, Store.empty.pushGlobals, host, 0, 0⟩

/-- Runs a text under a name of its own. Nothing comes back when the fuel does not suffice. -/
def runSource (fuel : Nat) (s : Session σ) (source : Source) :
    Option (Except Error Value × Session σ) :=
  (ScriptLang.runSource (evaluate s.config.maxDepth fuel) source s.machine).map fun (result, m) =>
    (result, { s with machine := m })

def run (fuel : Nat) (s : Session σ) (text : String) : Option (Except Error Value × Session σ) :=
  s.runSource fuel ⟨s.config.sourceName, text⟩

def evaluate (fuel : Nat) (s : Session σ) (tree : Tree) : Option (Signal × Machine σ) :=
  let m := s.machine
  ScriptLang.evaluate s.config.maxDepth fuel tree (.root m.frames programName globalScope)
    { m with frames := m.frames + 1 }

def global? (s : Session σ) (name : String) : Option Value :=
  s.machine.store.get? globalScope name

def withInput (s : Session Memory) (input : List String) : Session Memory :=
  { s with machine.host.state.input := input }

def forget (s : Session σ) : Session σ :=
  { s with machine := { s.machine with host := s.machine.host.forget } }

/-- More steps than any program takes that ends in a lifetime. -/
def ample : Nat := Nat.pow 10 18

end Session

end ScriptLang
