/-! A directory held in memory, and what a path leads to in it. Around it is a system of which
nothing is known but what every system has. -/
namespace ScriptLang

/-- Texts by the parts of their paths. -/
structure Directory where
  files : List (List String × String)

inductive PathError where
  | notFound | notDirectory | isDirectory | nameTooLong | nulByte
  deriving DecidableEq

def PathError.message : PathError → String
  | notFound => "No such file or directory (os error 2)"
  | notDirectory => "Not a directory (os error 20)"
  | isDirectory => "Is a directory (os error 21)"
  | nameTooLong => "File name too long (os error 36)"
  | nulByte => "file name contained an unexpected NUL byte"

inductive Place where
  /-- By these parts from the directory itself. -/
  | within (parts : List String)
  /-- A folder that the directory is in; which one is not known. -/
  | above
  /-- By these parts from the root of the system. -/
  | system (parts : List String)
  | nowhere

namespace Place

def down (part : String) : Place → Place
  | within parts => within (parts ++ [part])
  | system parts => system (parts ++ [part])
  | above | nowhere => nowhere

/-- The root is above itself. -/
def up : Place → Place
  | within [] => above
  | within parts => within parts.dropLast
  | system parts => system parts.dropLast
  | above => above
  | nowhere => nowhere

end Place

namespace Directory

def parts (path : String) : List String := path.splitToList (· = '/')

def ofFiles (files : List (String × String)) : Directory :=
  ⟨files.map fun (path, text) => (parts path, text)⟩

def emptyFile : List String := ["dev", "null"]

def systemFolders : List (List String) :=
  [[], ["bin"], ["dev"], ["etc"], ["proc"], ["tmp"], ["usr"], ["usr", "bin"], ["var"]]

def text? (d : Directory) : Place → Option String
  | .within parts => d.files.lookup parts
  | .system parts => if parts = emptyFile then some "" else none
  | .above | .nowhere => none

/-- The directory itself is a folder, and so is everything on the way to a file. -/
def isFolder (d : Directory) : Place → Bool
  | .within parts =>
    parts.isEmpty || d.files.any fun (path, _) => parts.isPrefixOf path && parts != path
  | .above => true
  | .system parts => parts ∈ systemFolders
  | .nowhere => false

def partLimit : Nat := 255
def pathLimit : Nat := 4095

/-- Follows one part of a path. Only folders lead on, also to themselves. -/
def step (d : Directory) (place : Place) (part : String) : Except PathError Place :=
  if !d.isFolder place then
    .error (if (d.text? place).isSome then .notDirectory else .notFound)
  else if part = "" ∨ part = "." then .ok place
  else if part = ".." then .ok place.up
  else if part.utf8ByteSize > partLimit then .error .nameTooLong
  else .ok (place.down part)

def start (path : String) : Place :=
  if path.toList.head? = some '/' then .system [] else .within []

def read (d : Directory) (path : String) : Except PathError String := do
  if path.toList.contains '\x00' then .error .nulByte
  else if path.isEmpty then .error .notFound
  else if path.utf8ByteSize > pathLimit then .error .nameTooLong
  else
    let place ← (parts path).foldlM d.step (start path)
    match d.text? place with
    | some text => .ok text
    | none => .error (if d.isFolder place then .isDirectory else .notFound)

def script (d : Directory) (path : String) : Except String String :=
  (d.read path).mapError PathError.message

end Directory

end ScriptLang
