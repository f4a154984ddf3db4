import ScriptLang.CommandLine.Request
import ScriptLang.Session
import ScriptLang.Text.Typed

/-! Whole runs of the command line, and what they write. Without a file or code to run, every line
of the input is run on its own and its value echoed. -/
namespace ScriptLang.CommandLine

/-- What a run writes, its exit code, and the scripts it asked for. -/
structure Report where
  code : Nat
  stdout : String
  stderr : String
  loads : List String

def versionText : String := "basalt 0.1.0\n"

def helpText : String :=
  "Run basalt scripts or start a REPL\n\nUsage: basalt [OPTIONS] [FILE]\n\n" ++
  "Arguments:\n  [FILE]  Script to run\n\nOptions:\n" ++
  "  -e, --eval <CODE>    Run CODE instead of a file\n" ++
  "      --max-depth <N>  Nested calls allowed before a recursion error [default: 1000]\n" ++
  "  -v, --verbose...     Log more (-v debug, -vv trace)\n" ++
  "  -h, --help           Print help\n  -V, --version        Print version\n"

def eventText : Event → String
  | .line text => text ++ "\n"
  | .clear => "\x1b[2J\x1b[1;1H"
  | .load _ => ""

def Report.record {σ : Type} (r : Report) (host : Host σ) : Report :=
  { r with
    stdout := host.events.foldr (fun e text => text ++ eventText e) r.stdout
    loads := host.events.foldr (fun e paths => match e with
      | .load path => paths ++ [path]
      | _ => paths) r.loads }

def Report.fail (r : Report) (text : String) : Report :=
  { r with stderr := r.stderr ++ text ++ "\n" }

def rawLines (text : String) : List String :=
  let lines := text.toList.foldr (fun c lines =>
    if c = '\n' then [c] :: lines else
      match lines with
      | [] => [[c]]
      | line :: rest => (c :: line) :: rest) []
  lines.map String.ofList

def withoutNewline (line : String) : String :=
  match line.toList.reverse with
  | '\n' :: '\r' :: rest => String.ofList rest.reverse
  | '\n' :: rest => String.ofList rest.reverse
  | _ => line

/-- What is echoed for the values of a line: nothing for none, one on its own, or their list. -/
def echo : Value → Option String
  | .list [] _ => none
  | .list [v] _ => some v.repr
  | v => some v.repr

def brokenOff : Nat := 101

/-- Runs line after line, as they are after their backspaces. A program that reads input takes the
lines after its own, with all that they hold. -/
def interact : Nat → Session Memory → Report → Report
  | 0, _, r => r
  | n + 1, s, r =>
    match s.machine.host.state.input with
    | [] => r
    | line :: rest =>
      let s := s.withInput rest
      match Text.withoutBackspaces (withoutNewline line).toList with
      | none => { r.fail "a backspace cuts a character" with code := brokenOff }
      | some text =>
        if (Text.trim text).isEmpty then interact n s r
        else match s.run Session.ample (String.ofList text) with
          | none => r
          | some (result, s) =>
            let r := r.record s.machine.host
            let r := match result with
              | .ok v => { r with stdout := r.stdout ++ ((echo v).map (· ++ "\n")).getD "" }
              | .error e => r.fail e.render
            interact n s.forget r

def runText {σ : Type} (config : Config) (host : Host σ) (text : String) (r : Report) : Report :=
  match (Session.start config host).run Session.ample text with
  | none => r
  | some (result, s) =>
    let r := r.record s.machine.host
    match result with
    | .ok _ => r
    | .error e => { r.fail e.render with code := 1 }

def terminal (stdin : String) (script : String → Except String String) : Host Memory :=
  .ofMemory { Memory.ofFiles (rawLines stdin) [] with terminated := true, script := script }

def runOptions (o : Options) (host : Host Memory) : Report :=
  let config : Config := { maxDepth := o.maxDepth.getD ({} : Config).maxDepth }
  let blank : Report := ⟨0, "", "", []⟩
  match o.file, o.code with
  | some path, _ =>
    let r := { blank with loads := [path] }
    match host.state.script path with
    | .ok text => runText { config with sourceName := path } host text r
    | .error reason => { r.fail s!"Failed to load script \"{path}\"\n{reason}" with code := 1 }
  | none, some code => runText { config with sourceName := "<eval>" } host code blank
  | none, none =>
    interact (host.state.input.length + 1) (Session.start config host) blank

def run (args : List String) (stdin : String) (script : String → Except String String) :
    Report :=
  match parse args with
  | .ok .version => ⟨0, versionText, "", []⟩
  | .ok .help => ⟨0, helpText, "", []⟩
  | .ok (.run o) => runOptions o (terminal stdin script)
  | .error e => ⟨2, "", s!"error: {e.message}\n", []⟩

end ScriptLang.CommandLine
