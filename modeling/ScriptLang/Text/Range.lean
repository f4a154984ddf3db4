/-! Ranges of code points. All tables of characters follow version 17 of Unicode. -/
namespace ScriptLang.Text

abbrev Range := Nat × Nat

def Range.holds (r : Range) (c : Char) : Bool := r.1 ≤ c.toNat && c.toNat ≤ r.2

def inRanges (table : Array Range) (c : Char) : Bool := table.any (·.holds c)

end ScriptLang.Text
