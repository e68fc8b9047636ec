import ShapeCheck.Check.Program
import ShapeCheck.Tree.Imports

/-!
# The steps of a check as changes of its state

Every step of a check moves the state to a new context and adds the moment to the trail. The
equations below say so for each step, so that later proofs open neither the monad nor the do
blocks. `nested` and `importWith` get one equation for each way they can go.
-/

namespace ShapeCheck

def Checking.move (event : Event) (context : Context) (s : Checking) : Checking :=
  ⟨context, s.workspace.note ⟨event, context⟩⟩

@[simp] theorem Checking.context_move (event : Event) (c : Context) (s : Checking) :
    (s.move event c).context = c := rfl

@[simp] theorem Workspace.reports_save (path : String) (r : Report) (ws : Workspace) :
    (ws.save path r).reports = ws.reports.insert path r := rfl

/-! ## Single steps -/

namespace CheckM

variable {α β : Type}

theorem bind_run (m : CheckM α) (f : α → CheckM β) (s : Checking) :
    (m >>= f) s = f (m s).1 (m s).2 := rfl

theorem read_run (f : Context → α) (s : Checking) : read f s = (f s.context, s) := rfl

theorem context_run (s : Checking) : context s = (s.context, s) := rfl

theorem onContext_run (event : α → Event) (f : Context → α × Context) (s : Checking) :
    onContext event f s =
      ((f s.context).1, s.move (event (f s.context).1) (f s.context).2) := rfl

theorem report_run (cause : Cause) (span : Span) (s : Checking) :
    report cause span s = ((), s.move .changed (s.context.report cause span)) := rfl

/-! ## Nesting -/

theorem nested_none {s : Checking} (h : s.context.enter? = none) (span : Span) (check : CheckM Ty) :
    nested span check s =
      let c := s.context.report (.nestingTooDeep s.context.environment.config.maxDepth) span
      (.ignore, (s.move .changed c).move (.typed .ignore) c) := by
  unfold nested
  simp only [bind_run, context_run]
  rw [h]
  rfl

theorem nested_some {s : Checking} {inner : Context} (h : s.context.enter? = some inner)
    (span : Span) (check : CheckM Ty) :
    nested span check s =
      let r := check (s.move .changed inner)
      (r.1, (r.2.move .changed r.2.context.leave).move (.typed r.1) r.2.context.leave) := by
  unfold nested
  simp only [bind_run, context_run]
  rw [h]
  rfl

theorem enter?_eq_some {c inner : Context} (h : c.enter? = some inner) :
    inner = { c with depth := c.depth + 1 } := by
  unfold Context.enter? at h
  split at h
  · cases h
  · exact (Option.some.inj h).symm

end CheckM

theorem Parameter.names_checkEach : ∀ (ps : List Parameter) (s : Checking),
    (Parameter.checkEach ps s).1.map Variable.name = ps.map Parameter.name
  | [], _ => rfl
  | p :: ps, s => congrArg (p.name :: ·) (Parameter.names_checkEach ps (p.check s).2)

/-! ## Imports -/

theorem Stmt.mem_importedFiles {path b : String} {tree : Stmt} :
    b ∈ tree.importedFiles path ↔ ∃ r ∈ tree.imports, Path.target? path r = some b :=
  List.mem_filterMap

/-- An import whose file is reported on by `answer`. -/
def importThrough (answer : Context → String → Workspace → Option Report × Workspace) :
    Importer := fun requested span => do
  let c ← CheckM.context
  if !Path.isRelative requested then
    return ← CheckM.fail (.invalidImportPath requested) span
  match Path.resolve? c.path requested with
  | none => CheckM.fail (.invalidImportPath requested) span
  | some path =>
    if path ∈ c.importStack then
      return ← CheckM.fail (.cyclicImport path) span
    checkReport path span (← CheckM.onWorkspace (answer c path))

section
variable (answer : Context → String → Workspace → Option Report × Workspace)
variable (open? : Context → String → Stmt → Workspace → Option Report × Workspace)
variable {requested : String} (span : Span) {s : Checking}

open CheckM

theorem importWith_eq :
    importWith open? = importThrough fun c path => Workspace.report? (open? c path) path := rfl

theorem importThrough_invalid (h : Path.target? s.context.path requested = none) :
    importThrough answer requested span s = fail (.invalidImportPath requested) span s := by
  unfold importThrough
  unfold Path.target? at h
  simp only [bind_run, context_run]
  by_cases hr : Path.isRelative requested = true
  · simp only [hr, ite_true] at h
    simp only [hr, Bool.not_true, Bool.false_eq_true, ite_false, h]
  · simp only [hr]
    rfl

theorem importThrough_cyclic {b : String} (h : Path.target? s.context.path requested = some b)
    (hb : b ∈ s.context.importStack) :
    importThrough answer requested span s = fail (.cyclicImport b) span s := by
  unfold importThrough
  unfold Path.target? at h
  simp only [bind_run, context_run]
  split at h
  · rename_i hr
    simp only [hr, Bool.not_true, Bool.false_eq_true, ite_false, h, hb, ite_true]
  · cases h

/-- An import of a file that is not being checked is answered. -/
theorem importThrough_answer {b : String} (h : Path.target? s.context.path requested = some b)
    (hb : b ∉ s.context.importStack) :
    importThrough answer requested span s =
      let r := answer s.context b s.workspace
      checkReport b span r.1 ⟨s.context, r.2⟩ := by
  unfold importThrough
  unfold Path.target? at h
  simp only [bind_run, context_run]
  split at h
  · rename_i hr
    simp only [hr, Bool.not_true, Bool.false_eq_true, ite_false, h, hb]
    rfl
  · cases h

theorem importWith_invalid (h : Path.target? s.context.path requested = none) :
    importWith open? requested span s = fail (.invalidImportPath requested) span s := by
  rw [importWith_eq, importThrough_invalid _ span h]

theorem importWith_cyclic {b : String} (h : Path.target? s.context.path requested = some b)
    (hb : b ∈ s.context.importStack) :
    importWith open? requested span s = fail (.cyclicImport b) span s := by
  rw [importWith_eq, importThrough_cyclic _ span h hb]

theorem importWith_report {b : String} (h : Path.target? s.context.path requested = some b)
    (hb : b ∉ s.context.importStack) :
    importWith open? requested span s =
      let r := s.workspace.report? (open? s.context b) b
      checkReport b span r.1 ⟨s.context, r.2⟩ := by
  rw [importWith_eq, importThrough_answer _ span h hb]

end

def opener : Nat → Context → String → Stmt → Workspace → Option Report × Workspace
  | 0, _, _, _, ws => (none, ws)
  | n + 1, c, path, tree, ws =>
    let (report, ws) := checkFile (importer n) c.environment path c.importStack tree ws
    (some report, ws)

theorem opener_succ (n : Nat) (c : Context) (path : String) (tree : Stmt) (ws : Workspace) :
    opener (n + 1) c path tree ws =
      let r := checkFile (importer n) c.environment path c.importStack tree ws
      (some r.1, r.2) := rfl

theorem importer_eq (n : Nat) : importer n = importWith (opener n) := by
  cases n <;> rfl

/-! ## Files -/

def Checking.start (env : Environment) (path : String) (stack : List String) (ws : Workspace) :
    Checking :=
  let context := Context.start env path (stack ++ [path])
  ⟨context, ws.note ⟨.started, context⟩⟩

theorem checkFile_run (imports : Importer) (env : Environment) (path : String)
    (stack : List String) (tree : Stmt) (ws : Workspace) :
    checkFile imports env path stack tree ws =
      let s := (tree.check imports (.start env path stack ws)).2
      (⟨s.context.errors, s.context.exports, false⟩, s.workspace) := rfl

namespace Workspace

variable {check : Stmt → Workspace → Option Report × Workspace} {path : String} {ws : Workspace}

/-- The workspace when a file is opened: its report was looked up and its text was read. -/
def opening (path : String) (ws : Workspace) : Workspace :=
  (ws.record (.lookup path)).record (.load path)

/-- How a request for the report on a file may go. -/
inductive Reported (check : Stmt → Workspace → Option Report × Workspace) (path : String)
    (ws : Workspace) : Option Report × Workspace → Prop
  | kept {r : Report} : ws.reports.get? path = some r →
    Reported check path ws (some r, ws.record (.lookup path))
  | missing : ws.reports.get? path = none → ws.sources.parse? path = none →
    Reported check path ws (none, ws.opening path)
  | unparsable {e : Error} : ws.reports.get? path = none →
    ws.sources.parse? path = some (.error e) →
    Reported check path ws (some (.ofSyntaxError e), (ws.opening path).save path (.ofSyntaxError e))
  | unopened {tree : Stmt} {ws' : Workspace} : ws.reports.get? path = none →
    ws.sources.parse? path = some (.ok tree) → check tree (ws.opening path) = (none, ws') →
    Reported check path ws (none, ws')
  | opened {tree : Stmt} {r : Report} {ws' : Workspace} : ws.reports.get? path = none →
    ws.sources.parse? path = some (.ok tree) → check tree (ws.opening path) = (some r, ws') →
    Reported check path ws (some r, ws'.save path r)

theorem reported_report? (check : Stmt → Workspace → Option Report × Workspace) (path : String)
    (ws : Workspace) : Reported check path ws (ws.report? check path) := by
  unfold report? lookup
  cases hget : ws.reports.get? path with
  | some r => exact .kept hget
  | none =>
    have hload : (ws.record (.lookup path)).load path = (ws.sources.parse? path, ws.opening path) :=
      rfl
    dsimp only
    rw [hload]
    cases hparse : ws.sources.parse? path with
    | none => exact .missing hget hparse
    | some parsed =>
      cases parsed with
      | error e => exact .unparsable hget hparse
      | ok tree =>
        dsimp only
        cases hcheck : check tree (ws.opening path) with
        | mk o ws' =>
          cases o with
          | none => exact .unopened hget hparse hcheck
          | some r => exact .opened hget hparse hcheck

/-- The report that is given on a file is kept. -/
theorem get?_report? {r : Report} (h : (ws.report? check path).1 = some r) :
    (ws.report? check path).2.reports.get? path = some r := by
  have hsaved : ∀ (ws : Workspace), (ws.save path r).reports.get? path = some r := by
    intro ws
    rw [reports_save, Entries.get?_insert, if_pos rfl]
  have hcases := reported_report? check path ws
  generalize ws.report? check path = o at h hcases ⊢
  cases hcases with
  | kept hget =>
    cases h
    exact hget
  | missing _ _ => cases h
  | unparsable _ _ =>
    cases h
    exact hsaved _
  | unopened _ _ _ => cases h
  | opened _ _ _ =>
    cases h
    exact hsaved _

end Workspace

end ShapeCheck
