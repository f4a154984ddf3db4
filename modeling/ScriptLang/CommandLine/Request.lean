import ScriptLang.Text.Blank

/-! What the arguments of the command line ask for. -/
namespace ScriptLang.CommandLine

structure Options where
  file : Option String := none
  code : Option String := none
  maxDepth : Option Nat := none

inductive Request where
  | version
  | help
  | run (options : Options)

inductive UsageError where
  | unknown (argument : String)
  | valueMissing (option : String)
  | valueUnneeded (option : String)
  | invalidValue (value : String)
  | repeated (option : String)
  | conflict

def UsageError.message : UsageError → String
  | unknown argument => s!"unexpected argument '{argument}' found"
  | valueMissing option => s!"a value is required for '{option}' but none was supplied"
  | valueUnneeded option => s!"no value is allowed for '{option}'"
  | invalidValue value => s!"invalid value '{value}'"
  | repeated option => s!"the argument '{option}' cannot be used multiple times"
  | conflict => "a file cannot be used with '--eval'"

/-- A natural number of at most 64 bits, with a plus sign at most. -/
def depth? (value : String) : Option Nat :=
  let digits := match value.toList with
    | '+' :: rest => rest
    | cs => cs
  (Text.natural? digits).filter (· < UInt64.size)

namespace Options

def setCode (o : Options) (value : String) : Except UsageError Options :=
  if o.code.isSome then .error (.repeated "--eval") else .ok { o with code := some value }

def setMaxDepth (o : Options) (value : String) : Except UsageError Options :=
  if o.maxDepth.isSome then .error (.repeated "--max-depth")
  else match depth? value with
    | some n => .ok { o with maxDepth := some n }
    | none => .error (.invalidValue value)

def setFile (o : Options) (value : String) : Except UsageError Options :=
  if o.file.isSome then .error (.unknown value)
  else if value.isEmpty then .error (.invalidValue value)
  else .ok { o with file := some value }

/-- A file and code exclude each other. -/
def request (o : Options) : Except UsageError Request :=
  if o.file.isSome && o.code.isSome then .error .conflict else .ok (.run o)

end Options

/-- Whether an argument cannot be the value of an option or a file. -/
def isFlag (argument : String) : Bool :=
  match argument.toList with
  | '-' :: _ :: _ => true
  | _ => false

inductive Flag where
  | nothing
  | version
  | help
  | set (change : Options → String → Except UsageError Options) (value : String)
  /-- The value is the next argument. -/
  | await (option : String) (change : Options → String → Except UsageError Options)
  | wrong (e : UsageError)

/-- After two dashes: a name, and maybe a value after `=`. -/
def longFlag (argument : String) : Flag :=
  let body := argument.toList.drop 2
  let name := String.ofList (body.takeWhile (· ≠ '='))
  let value := match body.dropWhile (· ≠ '=') with
    | [] => none
    | _ :: rest => some (String.ofList rest)
  match name, value with
  | "eval", some v => .set Options.setCode v
  | "eval", none => .await "--eval" Options.setCode
  | "max-depth", some v => .set Options.setMaxDepth v
  | "max-depth", none => .await "--max-depth" Options.setMaxDepth
  | "verbose", none => .nothing
  | "version", none => .version
  | "help", none => .help
  | "verbose", some _ | "version", some _ | "help", some _ => .wrong (.valueUnneeded argument)
  | _, _ => .wrong (.unknown argument)

/-- After one dash: letters, the rest being the value once a letter takes one. -/
def shortFlags (argument : String) : List Char → Flag
  | [] => .nothing
  | 'v' :: rest => shortFlags argument rest
  | 'V' :: _ => .version
  | 'h' :: _ => .help
  | ['e'] => .await "--eval" Options.setCode
  | 'e' :: '=' :: rest => .set Options.setCode (String.ofList rest)
  | 'e' :: rest => .set Options.setCode (String.ofList rest)
  | _ => .wrong (.unknown argument)

def flag (argument : String) : Flag :=
  if argument.toList.take 2 = ['-', '-'] then longFlag argument
  else shortFlags argument (argument.toList.drop 1)

/-- Arguments are taken one after the other; the first that asks for the version or for help, or
is wrong, decides. -/
def parseFrom (o : Options) : List String → Except UsageError Request
  | [] => o.request
  | "--" :: files => do (← files.foldlM Options.setFile o).request
  | argument :: rest =>
    if isFlag argument then
      match flag argument with
      | .nothing => parseFrom o rest
      | .version => .ok .version
      | .help => .ok .help
      | .wrong e => .error e
      | .set change value => do parseFrom (← change o value) rest
      | .await option change =>
        match rest with
        | [] => .error (.valueMissing option)
        | value :: rest =>
          if isFlag value then .error (.valueMissing option)
          else do parseFrom (← change o value) rest
    else do parseFrom (← o.setFile argument) rest

def parse : List String → Except UsageError Request := parseFrom {}

end ScriptLang.CommandLine
