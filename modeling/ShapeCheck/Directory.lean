import ShapeCheck.Workspace

/-!
# A directory tree in memory

Files are found as a file system finds them: every segment before the last leads through a
directory that is there, `.` stays and `..` goes back. Nothing outside the tree can be read, nor
what is not UTF-8.
-/

namespace ShapeCheck

/-- The files of a tree, each with the segments of its path, outermost first. -/
structure Directory where
  files : List (List String × ByteArray)

namespace Directory

def ofFiles (files : List (String × ByteArray)) : Directory :=
  ⟨files.map fun (path, content) => ((Path.collapse path).reverse, content)⟩

def hasDirectory (segments : List String) (d : Directory) : Bool :=
  segments = [] || d.files.any fun (file, _) =>
    segments.isPrefixOf file && segments.length < file.length

/-- The file that the segments lead to from the directory `place`. -/
def find? (d : Directory) (place : List String) : List String → Option ByteArray
  | [] => none
  | [name] =>
    if name = "" ∨ name = "." ∨ name = ".." then none else d.files.lookup (place ++ [name])
  | s :: rest =>
    if s = "" ∨ s = "." then find? d place rest
    else if s = ".." then
      if place = [] then none else find? d place.dropLast rest
    else if d.hasDirectory (place ++ [s]) then find? d (place ++ [s]) rest
    else none

def read? (path : String) (d : Directory) : Option String :=
  if Path.isAbsolute path then none
  else (d.find? [] (Path.segments path)).bind String.fromUTF8?

def disk (d : Directory) : Disk where
  read? path := d.read? path
  capacity := (d.files.flatMap Prod.fst).length + 1

end Directory

end ShapeCheck
