import ScriptLang.Frame

/-! Tracebacks: one line for every active call, the oldest first. Of equal lines in a row only the
first few are shown, and after them how many there were. -/
namespace ScriptLang.Traceback

def line (entry : Span × String) : String :=
  s!"  File {entry.1.fileName}, line {entry.1.lineNumber}, in {entry.2}\n"

def lines (place : Span) (frame : Frame) : List String :=
  (frame.trace place).reverse.map line

def runs (lines : List String) : List (String × Nat) :=
  lines.foldr (fun line rest =>
    match rest with
    | (other, count) :: tail =>
      if other = line then (line, count + 1) :: tail else (line, 1) :: rest
    | [] => [(line, 1)]) []

/-- How many equal lines in a row are shown. -/
def limit : Nat := 3

/-- What stands for the lines that are not shown. -/
def repeated (count : Nat) : String := s!"  [Previous line repeated {count} more times]\n"

def collapsed (run : String × Nat) : List String :=
  List.replicate (min run.2 limit) run.1 ++
    if run.2 > limit then [repeated (run.2 - limit)] else []

def body (place : Span) (frame : Frame) : List String :=
  (runs (lines place frame)).flatMap collapsed

def text (place : Span) (frame : Frame) : String :=
  "Traceback (most recent call last):\n" ++ String.join (body place frame)

end ScriptLang.Traceback
