import ShapeCheck.Check.Terms

/-!
# Checking files

An import has the type of a record of what the imported file exports. The file is checked in a
context of its own, unless the workspace has a report on it, and no file is checked while it is
being checked. So every file that is opened is a new one on the import stack, and the number of
files bounds how deep imports go.
-/

namespace ShapeCheck

open CheckM

/-- Checks the tree of the file at `path`, which is imported by the files of `importStack`. -/
def checkFile (imports : Importer) (environment : Environment) (path : String)
    (importStack : List String) (tree : Stmt) (ws : Workspace) : Report × Workspace :=
  let start := Context.start environment path (importStack ++ [path])
  let s := (tree.check imports ⟨start, ws.note ⟨.started, start⟩⟩).2
  (⟨s.context.errors, s.context.exports, false⟩, s.workspace)

def exportRecord (exports : List Variable) : Ty :=
  .record true (Entries.ofList (exports.map fun v => (v.name, v.type)))

def checkReport (path : String) (span : Span) : Option Report → CheckM Ty
  | none => fail .fileNotFound span
  | some report =>
    if report.unparsable then fail (.unparsableImport path) span
    else do return exportRecord (← onContext .imported (Context.instantiate report.exports))

/-- Checks an import. `open?` checks the tree of a file that is opened for it. -/
def importWith (open? : Context → String → Stmt → Workspace → Option Report × Workspace) :
    Importer := fun requested span => do
  let c ← context
  if !Path.isRelative requested then
    return ← fail (.invalidImportPath requested) span
  match Path.resolve? c.path requested with
  | none => fail (.invalidImportPath requested) span
  | some path =>
    if path ∈ c.importStack then
      return ← fail (.cyclicImport path) span
    checkReport path span (← onWorkspace (Workspace.report? (open? c path) path))

/-- Checks imports that open at most `files` files inside one another. -/
def importer : (files : Nat) → Importer
  | 0 => importWith fun _ _ _ ws => (none, ws)
  | files + 1 => importWith fun c path tree ws =>
    let (report, ws) := checkFile (importer files) c.environment path c.importStack tree ws
    (some report, ws)

def Workspace.importer (ws : Workspace) : Importer :=
  ShapeCheck.importer ws.sources.capacity

def Workspace.check (environment : Environment) (path : String) (tree : Stmt) (ws : Workspace) :
    Report × Workspace :=
  checkFile ws.importer environment (Path.normalize path) [] tree ws.startTrail

end ShapeCheck
