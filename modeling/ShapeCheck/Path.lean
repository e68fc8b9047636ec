import ShapeCheck.Text.Join

/-!
# Paths

Imports name files by slash-separated paths without a suffix. `normalize` brings a path into the
form under which its file is known, and `resolve?` finds what an import in one file refers to.
The last section is about paths of the file system, which keep their text.
-/

namespace ShapeCheck.Path

open Text (join pieces)

def segments (path : String) : List String :=
  (pieces '/' path.toList).map String.ofList

def isAbsolute (path : String) : Bool :=
  path.toList.head? = some '/'

/-- The path with the given segments, innermost first. -/
def ofReversed (absolute : Bool) (segments : List String) : String :=
  (if absolute then "/" else "") ++ join "/" segments.reverse

/-! ## Normal form -/

/-- Goes on from a directory, given innermost segment first. Empty segments and `.` stay there;
`..` leaves the innermost segment, and is kept where there is none to leave. -/
def step (directory : List String) (segment : String) : List String :=
  if segment = "" ∨ segment = "." then directory
  else if segment = ".." then
    match directory with
    | [] => [".."]
    | inner :: outer => if inner = ".." then ".." :: directory else outer
  else segment :: directory

/-- The segments of the normal form, innermost first. -/
def collapse (path : String) : List String :=
  (segments path).foldl step []

def normalize (path : String) : String :=
  ofReversed (isAbsolute path) (collapse path)

/-! ## Imports -/

/-- Like `step`, but `..` may not lead out of the outermost directory. -/
def step? (directory : List String) (segment : String) : Option (List String) :=
  if segment = "" ∨ segment = "." then some directory
  else if segment = ".." then
    match directory with
    | [] => none
    | inner :: outer => if inner = ".." then none else some outer
  else some (segment :: directory)

def resolve? (current requested : String) : Option String :=
  ((segments requested).foldlM step? (collapse current).tail).map (ofReversed (isAbsolute current))

def isRelative (requested : String) : Bool :=
  ['.', '/'].isPrefixOf requested.toList || ['.', '.', '/'].isPrefixOf requested.toList

def target? (path requested : String) : Option String :=
  if isRelative requested then resolve? path requested else none

/-! ## Files -/

def within (root name : String) : String :=
  if isAbsolute name ∨ root = "" then name
  else if root.toList.getLast? = some '/' then root ++ name
  else root ++ "/" ++ name

/-- Drops empty segments and `.` at the end, given first. The first segment of a path stays. -/
def trimmed : List String → List String
  | [] => []
  | [first] => [first]
  | s :: rest => if s = "" ∨ s = "." then trimmed rest else s :: rest

def fileName (path : String) : String :=
  match trimmed (segments path).reverse with
  | [] => ""
  | s :: _ => if s = "." ∨ s = ".." then "" else s

def parent (path : String) : String :=
  match trimmed (trimmed (segments path).reverse).tail with
  | [""] => "/"
  | rest => join "/" rest.reverse

def dropSuffix (suffix name : String) : String :=
  if suffix.toList.isSuffixOf name.toList then
    String.ofList (name.toList.take (name.toList.length - suffix.toList.length))
  else name

end ShapeCheck.Path
