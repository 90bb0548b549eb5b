/-!
# Paths

A path is a list of parts, written with slashes between them. It starts at the top of a disk. An
empty part or `.` stays where it is, `..` goes back, and any other part is a name to go into;
whether that is possible is up to the disk.
-/

namespace RefStore

structure Path where
  parts : List String
  deriving DecidableEq, Repr

namespace Path

def top : Path := ⟨[]⟩

def pieces : List Char → List (List Char)
  | [] => [[]]
  | c :: cs =>
    if c = '/' then [] :: pieces cs
    else
      match pieces cs with
      | [] => [[c]]
      | p :: ps => (c :: p) :: ps

def ofText (text : String) : Path := ⟨(pieces text.toList).map String.ofList⟩

def text (path : Path) : String := "/".intercalate path.parts

/-- The path of `name` in the directory at `path`. A name that starts with a slash starts at the
top instead. -/
def join (path : Path) (name : String) : Path :=
  if name.toList.head? = some '/' then ofText name
  else
    let parts := if path.parts.getLast? = some "" then path.parts.dropLast else path.parts
    ⟨parts ++ (ofText name).parts⟩

def stays (part : String) : Bool := part = "" || part = "."

/-- The parts that lead somewhere. -/
def moves (path : Path) : List String := path.parts.filter fun part => !stays part

/-- Without the slashes at its end. -/
def trimmed (path : Path) : Path := ⟨(path.parts.reverse.dropWhile (· = "")).reverse⟩

/-- The paths that end in one of the moves of this one, from the top down. The last of them is the
path as it is. -/
def chain (path : Path) : List Path :=
  let ends := (List.range path.parts.length).filter fun i => !stays (path.parts[i]?.getD "")
  (ends.map fun i => ⟨path.parts.take (i + 1)⟩).dropLast ++ [path]

def longestText : Nat := 4095

def longestName : Nat := 255

/-- No disk takes a path that is too long or has a zero character. -/
def isUsable (path : Path) : Bool :=
  path.text.utf8ByteSize ≤ longestText && !path.text.toList.contains '\x00'

end Path

end RefStore
