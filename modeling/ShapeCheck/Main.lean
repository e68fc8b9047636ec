import ShapeCheck.CommandLine
import ShapeCheck.Tree.Imports

/-!
# The program

Everything that the file imports, directly or through others, is read first.
-/

namespace ShapeCheck.CommandLine

def readText? (file : String) : IO (Option String) := do
  try
    return String.fromUTF8? (← IO.FS.readBinFile file)
  catch _ => return none

/-- Reads the files at `pending` and those that they import, and adds their texts to `texts`. -/
partial def readImports (folder : Folder) (texts : List (String × String)) :
    List String → IO (List (String × String))
  | [] => return texts
  | path :: pending => do
    let file := folder.filePath path
    if texts.any (·.1 = file) then return ← readImports folder texts pending
    match ← readText? file with
    | none => readImports folder texts pending
    | some text =>
      let found := match parseSource text file folder.config.maxDepth with
        | .ok tree => tree.importedFiles path
        | .error _ => []
      readImports folder ((file, text) :: texts) (found ++ pending)

def diskOf (texts : List (String × String)) : Disk :=
  ⟨fun file => texts.lookup file, texts.length⟩

def readProgram (file : String) : IO Disk := do
  match ← readText? file with
  | none => return diskOf []
  | some text =>
    let (folder, path) := locate (diskOf []) Config.standard file
    let found := match parseSource text file folder.config.maxDepth with
      | .ok tree => tree.importedFiles (Path.normalize path)
      | .error _ => []
    return diskOf (← readImports folder [(file, text)] found)

end ShapeCheck.CommandLine

def main (args : List String) : IO UInt32 := do
  let disk ← match args with
    | [file] => ShapeCheck.CommandLine.readProgram file
    | _ => pure (ShapeCheck.CommandLine.diskOf [])
  let outcome := ShapeCheck.CommandLine.run disk args
  for line in outcome.output do IO.println line
  for line in outcome.diagnostics do IO.eprintln line
  return outcome.exitCode
