import ShapeCheck.Check.Program
import ShapeCheck.Error.Excerpt
import ShapeCheck.Prelude

/-!
# The command line

`checker <file>` checks the file and all that it imports. It prints the errors with their lines
and how many they are or, if there are none, what the file exports.
-/

namespace ShapeCheck.CommandLine

structure Outcome where
  exitCode : UInt32
  output : List String
  diagnostics : List String

def usage : Outcome :=
  ⟨2, [], ["usage: checker <file>"]⟩

def showErrors (disk : Disk) (file : String) (errors : List Error) : List String :=
  match disk.read? file with
  | some content => errors.flatMap fun e => e.render file content ++ [""]
  | none => errors.map fun e => "Error: " ++ e.cause.name ++ " (" ++ e.cause.message ++ ")"

def showExport (v : Variable) : String :=
  "export " ++ v.name ++ ": " ++ v.type.render

def locate (disk : Disk) (config : Config) (file : String) : Folder × String :=
  (⟨disk, Path.parent file, config.sourceSuffix, config⟩,
    Path.dropSuffix config.sourceSuffix (Path.fileName file))

def checkFile (disk : Disk) (file : String) : Outcome :=
  let config := Config.standard
  match disk.read? file with
  | none => ⟨2, [], []⟩
  | some source =>
    match parseSource source (Path.fileName file) config.maxDepth with
    | .error e => ⟨1, e.render file source, []⟩
    | .ok tree =>
      let (folder, path) := locate disk config file
      let (report, ws) :=
        (Workspace.ofSources folder.sources).check ⟨Prelude.globals, config⟩ path tree
      let count := report.errors.length + (ws.reports.flatMap fun r => r.2.errors).length
      if count = 0 then ⟨0, report.exports.map showExport, []⟩
      else
        let imported := ws.reports.flatMap fun (path, r) =>
          showErrors disk (folder.filePath path) r.errors
        ⟨1, showErrors disk file report.errors ++ imported ++ [Nat.repr count ++ " error(s)"], []⟩

def run (disk : Disk) : List String → Outcome
  | [file] => checkFile disk file
  | _ => usage

end ShapeCheck.CommandLine
