import ScriptLang.CommandLine
import ScriptLang.Directory

/-! The command line program. A run is computed as a whole; scripts it asks for and that have not
been read yet are read, and the run is computed again with them. -/
namespace ScriptLang.Main

/-- Why a file could not be read. A wrong type is seen at the opening of a path through a file, and
only at the reading of a folder. -/
def reason : IO.Error → String
  | .noFileOrDirectory _ _ _ => PathError.notFound.message
  | .inappropriateType none _ _ => PathError.isDirectory.message
  | .inappropriateType (some _) _ _ => PathError.notDirectory.message
  | .permissionDenied _ _ _ => "Permission denied (os error 13)"
  | e => toString e

def fetch (path : String) : IO (Except String String) := do
  try
    match String.fromUTF8? (← IO.FS.readBinFile path) with
    | some text => return .ok text
    | none => return .error "stream did not contain valid UTF-8"
  catch e => return .error (reason e)

/-- Scripts read so far; others count as missing until they are read. -/
def known (files : List (String × Except String String)) (path : String) : Except String String :=
  (files.lookup path).getD (.error "")

partial def settle (args : List String) (stdin : String)
    (files : List (String × Except String String)) : IO CommandLine.Report := do
  let report := CommandLine.run args stdin (known files)
  match report.loads.find? fun path => (files.lookup path).isNone with
  | some path => settle args stdin ((path, ← fetch path) :: files)
  | none => return report

end ScriptLang.Main

def main (args : List String) : IO UInt32 := do
  let stdin ← match ScriptLang.CommandLine.parse args with
    | .ok (.run _) => (← IO.getStdin).readToEnd
    | _ => pure ""
  let report ← ScriptLang.Main.settle args stdin []
  IO.print report.stdout
  IO.eprint report.stderr
  return report.code.toUInt32
