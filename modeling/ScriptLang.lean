import ScriptLang.CommandLine
import ScriptLang.Directory
import ScriptLang.Main
import ScriptLang.Node.Map
import ScriptLang.Proofs.Attribution
import ScriptLang.Proofs.Blame
import ScriptLang.Proofs.CallDepth
import ScriptLang.Proofs.Comment
import ScriptLang.Proofs.Control
import ScriptLang.Proofs.Counting
import ScriptLang.Proofs.Echo
import ScriptLang.Proofs.Excerpt
import ScriptLang.Proofs.Input
import ScriptLang.Proofs.Layout
import ScriptLang.Proofs.LexicalScope
import ScriptLang.Proofs.Limit
import ScriptLang.Proofs.Nesting
import ScriptLang.Proofs.Origin.Conditional
import ScriptLang.Proofs.Origin.Return
import ScriptLang.Proofs.Phrase.Sound
import ScriptLang.Proofs.Print.RoundTrip
import ScriptLang.Proofs.ScopeChain
import ScriptLang.Proofs.ScopeFrame
import ScriptLang.Proofs.Script
import ScriptLang.Proofs.Settling
import ScriptLang.Proofs.Token.Failure
import ScriptLang.Proofs.Token.Literal
import ScriptLang.Proofs.Traceback
import ScriptLang.Proofs.Walk.Forward
import ScriptLang.Proofs.WriteBack
