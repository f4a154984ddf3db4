import ScriptLang.Text.Cluster

/-! Lines that hold backspaces, each of which takes back the cluster before it. -/
namespace ScriptLang.Text

def byteSize (cs : List Char) : Nat := cs.foldl (fun n c => n + c.utf8Size) 0

/-- Drops characters of so many bytes in all, if that cuts none of them. -/
def dropBytes? : Nat → List Char → Option (List Char)
  | 0, cs => some cs
  | _, [] => none
  | n + 1, c :: cs => if c.utf8Size ≤ n + 1 then dropBytes? (n + 1 - c.utf8Size) cs else none

/-- What has been typed, the latest character and the latest cluster first. -/
structure Typed where
  text : List Char
  /-- How many bytes a backspace takes back. The size of a cluster is kept in one byte, so of the
  largest clusters a part stays. -/
  sizes : List UInt8

namespace Typed

/-- Types a cluster. A backspace with nothing to take back does nothing. -/
def key (t : Typed) (cluster : List Char) : Option Typed :=
  if cluster = ['\x08'] then
    match t.sizes with
    | [] => some t
    | size :: sizes => (dropBytes? size.toNat t.text).map (⟨·, sizes⟩)
  else some ⟨cluster.reverse ++ t.text, (byteSize cluster).toUInt8 :: t.sizes⟩

end Typed

/-- The line that is left after all backspaces, unless one of them cuts a character. -/
def withoutBackspaces (line : List Char) : Option (List Char) :=
  ((clusters line).foldlM Typed.key ⟨[], []⟩).map (·.text.reverse)

end ScriptLang.Text
