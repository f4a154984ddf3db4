import ScriptLang.Text.Cluster.Class

/-! Grapheme clusters: what a reader takes for one character. Whether a character goes on with the
cluster before it depends on the class of both, and for flags, pictographs and conjuncts on a
little more of what was read. -/
namespace ScriptLang.Text

namespace Cluster

inductive Picture where
  | absent
  /-- With extending characters behind it only. -/
  | shown
  /-- And then a joiner. -/
  | joined

def Picture.next : Picture → Class → Picture
  | _, .pictograph => shown
  | shown, .extend | shown, .linker | shown, .nonJoiner => shown
  | shown, .joiner => joined
  | _, _ => absent

inductive Conjunct where
  | absent
  /-- With extending characters behind it only. -/
  | ready
  /-- And a linker among them. -/
  | linked

def Conjunct.next : Conjunct → Class → Conjunct
  | _, .consonant => ready
  | ready, .linker | linked, .linker => linked
  | c, .extend | c, .joiner => c
  | _, _ => absent

structure Reading where
  last : Class
  /-- Whether a flag is begun: the regional indicators at the end are odd in number. -/
  halfFlag : Bool
  picture : Picture
  conjunct : Conjunct

namespace Reading

def next (r : Reading) (k : Class) : Reading :=
  ⟨k, k = .regional && !r.halfFlag, r.picture.next k, r.conjunct.next k⟩

def first (k : Class) : Reading := next ⟨.control, false, .absent, .absent⟩ k

/-- Syllables are put together from a beginning, vowels and trailing letters. -/
def continuesSyllable : Class → Class → Bool
  | .leading, .leading | .leading, .vowel | .leading, .openSyllable
  | .leading, .closedSyllable => true
  | .openSyllable, .vowel | .vowel, .vowel => true
  | .openSyllable, .trailing | .vowel, .trailing | .closedSyllable, .trailing
  | .trailing, .trailing => true
  | _, _ => false

def accepts (r : Reading) (k : Class) : Bool :=
  if r.last.breaks || k.breaks then r.last = .carriageReturn && k = .lineFeed
  else k.attaches || r.last = .prepended || continuesSyllable r.last k ||
    match k, r.conjunct, r.picture, r.halfFlag with
    | .consonant, .linked, _, _ => true
    | .pictograph, _, .joined, _ => true
    | .regional, _, _, true => true
    | _, _, _, _ => false

end Reading

/-- Splits what follows `current`, whose latest character comes first. -/
def splitFrom (r : Reading) (current : List Char) : List Char → List (List Char)
  | [] => [current.reverse]
  | c :: cs =>
    let k := Class.ofChar c
    if r.accepts k then splitFrom (r.next k) (c :: current) cs
    else current.reverse :: splitFrom (r.next k) [c] cs

theorem flatten_splitFrom (r : Reading) (current cs : List Char) :
    (splitFrom r current cs).flatten = current.reverse ++ cs := by
  induction cs generalizing r current with
  | nil => simp [splitFrom]
  | cons c cs ih =>
    simp only [splitFrom]
    split
    · rw [ih, List.reverse_cons, List.append_assoc, List.singleton_append]
    · rw [List.flatten_cons, ih, List.reverse_singleton, List.singleton_append]

end Cluster

def clusters : List Char → List (List Char)
  | [] => []
  | c :: cs => Cluster.splitFrom (.first (.ofChar c)) [c] cs

/-- Splitting loses nothing. -/
@[simp] theorem flatten_clusters (cs : List Char) : (clusters cs).flatten = cs := by
  cases cs with
  | nil => rfl
  | cons c cs => simp [clusters, Cluster.flatten_splitFrom]

end ScriptLang.Text
