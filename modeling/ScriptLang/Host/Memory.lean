import ScriptLang.Host

/-! A host that lives in memory: a queue of lines to read and a table of scripts. Each of reading,
writing and clearing can be made to fail. -/
namespace ScriptLang

structure Memory where
  /-- Lines not read yet. -/
  input : List String
  /-- Whether lines still have their terminators, which reading then takes off. -/
  terminated : Bool
  /-- The text of a script, or why it cannot be read. -/
  script : String → Except String String
  /-- If given, every reading, writing or clearing fails for this reason. -/
  readError : Option String
  writeError : Option String
  clearError : Option String

namespace Memory

/-- Drops all line feeds and carriage returns at the end. -/
def withoutTerminator (line : String) : String :=
  String.ofList (line.toList.reverse.dropWhile (fun c => c = '\n' || c = '\r')).reverse

def readLine (m : Memory) : Except String (Option String) × Memory :=
  match m.readError with
  | some reason => (.error reason, m)
  | none =>
    match m.input with
    | [] => (.ok none, m)
    | line :: rest =>
      (.ok (some (if m.terminated then withoutTerminator line else line)), { m with input := rest })

def failing (reason : Option String) : Except String Unit := reason.elim (.ok ()) .error

def operations : Host.Operations Memory where
  writeLine _ m := (failing m.writeError, m)
  readLine := readLine
  clear m := (failing m.clearError, m)
  readSource path m := (m.script path, m)

def ofFiles (input : List String) (files : List (String × String)) : Memory where
  input := input
  terminated := false
  script path := match files.lookup path with
    | some text => .ok text
    | none => .error "no such file"
  readError := none
  writeError := none
  clearError := none

end Memory

namespace Host

def ofMemory (m : Memory) : Host Memory := ⟨Memory.operations, m, []⟩

def memory (input : List String) (files : List (String × String)) : Host Memory :=
  ofMemory (.ofFiles input files)

end Host

end ScriptLang
