import ShapeCheck.Entries
import ShapeCheck.Parse.Program
import ShapeCheck.Path
import ShapeCheck.Scope
import ShapeCheck.Trail

/-!
# Files and what is known about them

A workspace serves the files of a project to the checker and keeps the report on each file that
was checked. It also keeps a journal of what was asked of it and the trail of the latest run.
-/

namespace ShapeCheck

structure Report where
  errors : List Error
  exports : List Variable
  /-- The file could not be parsed; `errors` holds the reason. -/
  unparsable : Bool

def Report.ofSyntaxError (error : Error) : Report :=
  ⟨[error], [], true⟩

/-! ## Sources -/

/-- Where the text of a file comes from, given its normalized path. -/
structure Sources where
  text? : String → Option String
  label : String → String
  maxDepth : Nat
  /-- No more paths than these have a text. -/
  capacity : Nat

def Sources.parse? (sources : Sources) (path : String) : Option (Except Error Stmt) :=
  (sources.text? path).map fun text => parseSource text (sources.label path) sources.maxDepth

def Sources.ofFiles (files : Entries String) : Sources where
  text? := files.get?
  label := id
  maxDepth := Config.standard.maxDepth
  capacity := files.length

/-- A file system: the text of the file at a path, with a bound on the number of its files and
directories. -/
structure Disk where
  read? : String → Option String
  capacity : Nat

/-- The files below a directory, whose names are their paths with `suffix` added. -/
structure Folder where
  disk : Disk
  root : String
  suffix : String
  config : Config

namespace Folder

def filePath (path : String) (folder : Folder) : String :=
  Path.within folder.root (path ++ folder.suffix)

def sources (folder : Folder) : Sources where
  text? path := folder.disk.read? (folder.filePath path)
  label path := path ++ folder.suffix
  maxDepth := folder.config.maxDepth
  capacity := folder.disk.capacity

end Folder

/-! ## Workspaces -/

inductive Request where
  | lookup (path : String)
  | load (path : String)
  | save (path : String)
deriving Repr, DecidableEq

structure Workspace where
  sources : Sources
  reports : Entries Report
  /-- The requests so far, latest first. -/
  journal : List Request
  /-- The moments of the latest run, latest first. -/
  trail : List Moment

namespace Workspace

def ofSources (sources : Sources) : Workspace :=
  ⟨sources, [], [], []⟩

def record (request : Request) (ws : Workspace) : Workspace :=
  { ws with journal := request :: ws.journal }

def note (moment : Moment) (ws : Workspace) : Workspace :=
  { ws with trail := moment :: ws.trail }

def startTrail (ws : Workspace) : Workspace :=
  { ws with trail := [] }

def lookup (path : String) (ws : Workspace) : Option Report × Workspace :=
  (ws.reports.get? path, ws.record (.lookup path))

def save (path : String) (report : Report) (ws : Workspace) : Workspace :=
  { ws with reports := ws.reports.insert path report }.record (.save path)

def load (path : String) (ws : Workspace) : Option (Except Error Stmt) × Workspace :=
  (ws.sources.parse? path, ws.record (.load path))

def loads (ws : Workspace) : Nat :=
  ws.journal.countP fun
    | .load _ => true
    | _ => false

/-- The report on a file: the one that is kept or, if there is none, the one that `check` makes of
its tree, which is then kept. Nothing if there is no such file. -/
def report? (check : Stmt → Workspace → Option Report × Workspace) (path : String)
    (ws : Workspace) : Option Report × Workspace :=
  match ws.lookup path with
  | (some report, ws) => (some report, ws)
  | (none, ws) =>
    match ws.load path with
    | (none, ws) => (none, ws)
    | (some (.error e), ws) =>
      let report := Report.ofSyntaxError e
      (some report, ws.save path report)
    | (some (.ok tree), ws) =>
      match check tree ws with
      | (none, ws) => (none, ws)
      | (some report, ws) => (some report, ws.save path report)

end Workspace

end ShapeCheck
