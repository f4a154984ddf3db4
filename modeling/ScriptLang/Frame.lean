import ScriptLang.Source
import ScriptLang.Text.Quoted

/-! Frames: who is being run, and who called it from where. Frames only feed tracebacks and tell
closures apart; names are looked up in the scope a frame points to. -/
namespace ScriptLang

inductive Frame where
  | root (id : Nat) (name : String) (scope : Nat)
  | call (id : Nat) (name : String) (scope : Nat) (site : Span) (caller : Frame)
  deriving DecidableEq

namespace Frame

/-- Different frames of one run have different identities. -/
def id : Frame → Nat
  | root i _ _ | call i _ _ _ _ => i

def name : Frame → String
  | root _ n _ | call _ n _ _ _ => n

def scope : Frame → Nat
  | root _ _ s | call _ _ s _ _ => s

def site? : Frame → Option Span
  | root _ _ _ => none
  | call _ _ _ s _ => some s

def caller? : Frame → Option Frame
  | root _ _ _ => none
  | call _ _ _ _ c => some c

/-- Every frame from the innermost outwards, with the place that execution had reached in it. -/
def trace (place : Span) : Frame → List (Span × String)
  | root _ name _ => [(place, name)]
  | call _ name _ site caller => (place, name) :: caller.trace site

def describe (f : Frame) : String :=
  let site := match f.site? with
    | some s => s!"Some({s.describe})"
    | none => "None"
  let caller := match f.caller? with
    | some c => s!"Some({Text.quoted c.name})"
    | none => "None"
  "Context \x7b display_name: " ++ Text.quoted f.name ++ ", call_site: " ++ site ++
    ", parent: " ++ caller ++ " \x7d"

end Frame

end ScriptLang
