import Mathlib.Algebra.BigOperators.Group.Finset.Basic
import ShapeCheck.Proofs.Once
import ShapeCheck.Proofs.Parsed
import ShapeCheck.Proofs.Places

/-!
# The errors of all files, each counted once

The command line counts the errors of the file that it is given and of every report that the check
leaves. There is one report on each file that imports lead to, so the total has the errors of each
of them once.
-/

namespace ShapeCheck

open Relation

/-! ## Checks -/

/-- The requests of a check that starts with the reports `known`. -/
structure RequestsOnce (P : Program) (known : Entries Report) (requests : List Request) : Prop where
  loads : ∀ q, (P.sources.text? q).isSome → requests.count (.load q) ≤ 1
  entry : .load P.path ∉ requests
  saves : ∀ q, requests.count (.save q) ≤ 1
  saved : ∀ q, .save q ∈ requests → known.get? q = none

/-- The check of a program looks at each file once and leaves none out. -/
structure CheckedOnce (P : Program) (env : Environment) (ws : Workspace)
    (outcome : Report × Workspace) : Prop where
  /-- No file is opened below as many levels as there are files, so the check ends. -/
  ends : ∀ base n, P.sources.capacity ≤ n →
    checkFile (importerOver base n) env P.path [] P.tree ws.startTrail = outcome
  requests : ∃ requests, outcome.2.journal = requests ++ ws.journal ∧
    RequestsOnce P ws.reports requests
  kept : ∀ q r, ws.reports.get? q = some r → outcome.2.reports.get? q = some r
  complete : ws.reports = [] → ¬ Recorded Cause.IsTooDeep outcome → ∀ q,
    (outcome.2.reports.get? q).isSome ↔
      q ≠ P.path ∧ (P.sources.text? q).isSome ∧ ReflTransGen P.Imports P.path q

theorem checkedOnce_of_fits {P : Program} (hP : P.Fits) (env : Environment) {ws : Workspace}
    (hs : ws.sources = P.sources) :
    CheckedOnce P env ws
      (checkFile (importer P.sources.capacity) env P.path [] P.tree ws.startTrail) := by
  have hclosed := check_closed hP env hs
  obtain ⟨requests, hjournal, hv⟩ := hclosed.toured
  constructor
  · exact fun base n hn => checkFile_levels hP base hn env hs
  · exact ⟨requests, hjournal, hv.loads, hv.entry, hv.saves, fun q hq => (hv.saved q hq).2⟩
  · exact hv.kept
  · exact fun hnone hdeep q => hclosed.reports_iff hnone hdeep q

/-! ## Counting -/

def Entries.errorCount (es : Entries Report) (q : String) : Nat :=
  ((es.get? q).map fun r => r.errors.length).getD 0

theorem Entries.length_errors {es : Entries Report} (h : es.names.Nodup) :
    (es.flatMap fun r => r.2.errors).length = ∑ q ∈ es.names.toFinset, es.errorCount q := by
  induction es with
  | nil => rfl
  | cons e es ih =>
    obtain ⟨name, r⟩ := e
    have hnames : names ((name, r) :: es) = name :: names es := rfl
    rw [hnames] at h ⊢
    obtain ⟨hnew, hrest⟩ := List.nodup_cons.mp h
    have hsum : ∑ q ∈ (names es).toFinset, errorCount ((name, r) :: es) q =
        ∑ q ∈ (names es).toFinset, errorCount es q := by
      refine Finset.sum_congr rfl fun q hq => ?_
      have hne : name ≠ q := fun e => hnew (e ▸ List.mem_toFinset.mp hq)
      simp [errorCount, get?, hne]
    have hself : errorCount ((name, r) :: es) name = r.errors.length := by
      simp [errorCount, get?]
    rw [List.toFinset_cons, Finset.sum_insert (mt List.mem_toFinset.mp hnew), hsum, hself,
      List.flatMap_cons, List.length_append, ih hrest]

theorem check_reports_sorted {P : Program} (hP : P.Fits) (env : Environment) {ws : Workspace}
    (hs : ws.sources = P.sources) (hsorted : ws.reports.Sorted) :
    let outcome := checkFile (importer P.sources.capacity) env P.path [] P.tree ws.startTrail
    outcome.2.reports.Sorted := by
  obtain ⟨requests, -, hv⟩ := (check_closed hP env hs).toured
  exact hv.sorted hsorted

/-! ## The command line -/

namespace CommandLine

def checked (disk : Disk) (file : String) (tree : Stmt) : Report × Workspace :=
  let (folder, path) := locate disk Config.standard file
  (Workspace.ofSources folder.sources).check ⟨Prelude.globals, Config.standard⟩ path tree

structure Outcome.Tells (outcome : Outcome) (total : Nat) : Prop where
  clean : total = 0 → outcome.exitCode = 0
  failed : total ≠ 0 →
    outcome.exitCode = 1 ∧ outcome.output.getLast? = some (Nat.repr total ++ " error(s)")

/-- The total has the errors of the file and of the files of `reached`, which are all that imports
lead to, each once. -/
structure CountedOnce (disk : Disk) (file : String) (tree : Stmt) (reached : Finset String) :
    Prop where
  once : CheckedOnce (program disk file tree) ⟨Prelude.globals, Config.standard⟩
    (.ofSources (program disk file tree).sources) (checked disk file tree)
  mem_iff : ∀ q, q ∈ reached ↔ q ≠ (program disk file tree).path ∧
    (disk.read? (fileAt disk file q)).isSome ∧
      ReflTransGen (program disk file tree).Imports (program disk file tree).path q
  reported : ∀ q ∈ reached, ((checked disk file tree).2.reports.get? q).isSome
  total : (run disk [file]).Tells ((checked disk file tree).1.errors.length +
    ∑ q ∈ reached, (checked disk file tree).2.reports.errorCount q)

/-- No two of the paths stand for one file of the directory, and none for the one on the command
line. -/
structure StandApart (d : Directory) (file : String) (reached : Finset String) : Prop where
  different : Set.InjOn (fun q => d.file? (fileAt d.disk file q)) reached
  others : ∀ q ∈ reached, d.file? (fileAt d.disk file q) ≠ d.file? file

theorem run_tells {disk : Disk} {file source : String} {tree : Stmt}
    (hread : disk.read? file = some source)
    (hparse : parseSource source (Path.fileName file) Config.standard.maxDepth = .ok tree) :
    (run disk [file]).Tells ((checked disk file tree).1.errors.length +
      ((checked disk file tree).2.reports.flatMap fun r => r.2.errors).length) := by
  unfold run CommandLine.checkFile checked
  simp only [hread, hparse]
  constructor
  · intro hzero
    rw [if_pos hzero]
  · intro hne
    rw [if_neg hne]
    simp

section
variable {file source : String} {tree : Stmt}
  (hparse : parseSource source (Path.fileName file) Config.standard.maxDepth = .ok tree)
include hparse

theorem countedOnce {disk : Disk} (hread : disk.read? file = some source)
    (hfits : (program disk file tree).Fits)
    (hdeep : ¬ Recorded Cause.IsTooDeep (checked disk file tree)) :
    ∃ reached, CountedOnce disk file tree reached := by
  let P := program disk file tree
  have honce : CheckedOnce P ⟨Prelude.globals, Config.standard⟩ (.ofSources P.sources)
      (checked disk file tree) := checkedOnce_of_fits hfits _ rfl
  have hsorted : (checked disk file tree).2.reports.Sorted :=
    check_reports_sorted hfits _ rfl List.Pairwise.nil
  have hnodup : (checked disk file tree).2.reports.names.Nodup := hsorted.nodup
  refine ⟨(checked disk file tree).2.reports.names.toFinset, honce, ?_, ?_, ?_⟩
  · intro q
    rw [List.mem_toFinset, Entries.mem_names_iff]
    exact honce.complete rfl hdeep q
  · intro q hq
    exact Entries.mem_names_iff.mp (List.mem_toFinset.mp hq)
  · rw [← Entries.length_errors hnodup]
    exact run_tells hread hparse

omit hparse in
theorem CountedOnce.standApart {d : Directory} {reached : Finset String}
    (h : CountedOnce d.disk file tree reached) (hread : d.read? file = some source) :
    StandApart d file reached := by
  have hfile : ∀ path, (d.read? path).isSome → ∃ f, d.file? path = some f := by
    intro path h
    rw [d.read?_eq] at h
    exact Option.isSome_iff_exists.mp (Option.isSome_of_isSome_bind h)
  constructor
  · intro q hq q' hq' he
    obtain ⟨-, htext, hreach⟩ := (h.mem_iff q).mp hq
    obtain ⟨-, -, hreach'⟩ := (h.mem_iff q').mp hq'
    obtain ⟨f, hf⟩ := hfile _ htext
    exact fileAt_inj (descends_of_reach hreach) (descends_of_reach hreach') hf (he.symm.trans hf)
  · intro q hq he
    obtain ⟨hne, -, hreach⟩ := (h.mem_iff q).mp hq
    obtain ⟨f, hf⟩ := hfile file (by simp [hread])
    exact hne (eq_path_of_fileAt (descends_of_reach hreach) (he.trans hf) hf)

end

end CommandLine

/-- **Every file once.** This holds for files in memory, whatever reports there are before, and for
the files around the one on the command line, whose total is as it should be. In a directory no file
is counted under two paths. -/
theorem files_checked_once :
    (∀ (files : Entries String) (reports : Entries Report) (journal : List Request)
        (trail : List Moment) (env : Environment) (path : String) (tree : Stmt),
      let ws : Workspace := ⟨.ofFiles files, reports, journal, trail⟩
      CheckedOnce ⟨ws.sources, Path.normalize path, tree⟩ env ws (ws.check env path tree)) ∧
    (∀ (disk : Disk) (file source : String) (tree : Stmt), disk.read? file = some source →
      parseSource source (Path.fileName file) Config.standard.maxDepth = .ok tree →
      (CommandLine.program disk file tree).Fits →
      ¬ Recorded Cause.IsTooDeep (CommandLine.checked disk file tree) →
        ∃ reached, CommandLine.CountedOnce disk file tree reached) ∧
    ∀ (d : Directory) (file source : String) (tree : Stmt), d.read? file = some source →
      parseSource source (Path.fileName file) Config.standard.maxDepth = .ok tree →
      ¬ Recorded Cause.IsTooDeep (CommandLine.checked d.disk file tree) →
        ∃ reached, CommandLine.CountedOnce d.disk file tree reached ∧
          CommandLine.StandApart d file reached := by
  refine ⟨?_, ?_, ?_⟩
  · intro files reports journal trail env path tree ws
    have hfits : Program.Fits ⟨ws.sources, Path.normalize path, tree⟩ :=
      Program.fits_ofFiles files (Path.normalize path) tree
    exact checkedOnce_of_fits hfits env rfl
  · intro disk file source tree hread hparse hfits hdeep
    exact CommandLine.countedOnce hparse hread hfits hdeep
  · intro d file source tree hread hparse hdeep
    have hfits := CommandLine.program_fits d file tree
    obtain ⟨reached, h⟩ := CommandLine.countedOnce hparse hread hfits hdeep
    exact ⟨reached, h, h.standApart hread⟩

section

-- The runs below are evaluated as a whole and not unfolded.
attribute [local irreducible] Workspace.check

def tangledMain : String := "import(\"./a\") import(\"./b\") x"

def tangled : Directory :=
  .ofFiles [("main.lang", tangledMain.toUTF8), ("a.lang", "import(\"./b\") x".toUTF8),
    ("b.lang", "import(\"./a\") x".toUTF8)]

def tangledTree : Stmt :=
  treeOf (parseSource tangledMain "main.lang" 256)

def tangledAbove : Disk where
  read? path := tangled.read? (Path.fileName path)
  capacity := 3

theorem tangledAbove_fits : (CommandLine.program tangledAbove "../main.lang" tangledTree).Fits := by
  let P := CommandLine.program tangledAbove "../main.lang" tangledTree
  have hclosed : ∀ a ∈ ["main", "a", "b"], ∀ tree ∈ P.tree? a, ∀ b ∈ tree.importedFiles a,
      b ∈ ["main", "a", "b"] := by decide +kernel
  refine Program.fits_of_closed (F := ["main", "a", "b"].toFinset) (List.toFinset_card_le _) ?_ ?_
  · have hpath : P.path ∈ ["main", "a", "b"] := by decide +kernel
    exact List.mem_toFinset.mpr hpath
  · rintro a ha b ⟨tree, htree, hb⟩
    exact List.mem_toFinset.mpr (hclosed a (List.mem_toFinset.mp ha) tree htree b hb)

theorem tangled_checked_once :
    (∃ reached, CommandLine.CountedOnce tangled.disk "main.lang" tangledTree reached ∧
      CommandLine.StandApart tangled "main.lang" reached) ∧
      (CommandLine.run tangled.disk ["main.lang"]).output.getLast? = some "4 error(s)" ∧
      ∃ reached, CommandLine.CountedOnce tangledAbove "../main.lang" tangledTree reached := by
  have hread : tangled.read? "main.lang" = some tangledMain := by decide +kernel
  have hparse : parseSource tangledMain "main.lang" 256 = .ok tangledTree :=
    eq_ok_treeOf (by decide +kernel)
  have hname : Path.fileName "main.lang" = "main.lang" := by decide +kernel
  have hdeep : ¬ Recorded Cause.IsTooDeep
      (CommandLine.checked tangled.disk "main.lang" tangledTree) := by
    decide +kernel
  have hreadAbove : tangledAbove.read? "../main.lang" = some tangledMain := by decide +kernel
  have hnameAbove : Path.fileName "../main.lang" = "main.lang" := by decide +kernel
  have hdeepAbove : ¬ Recorded Cause.IsTooDeep
      (CommandLine.checked tangledAbove "../main.lang" tangledTree) := by
    decide +kernel
  refine ⟨?_, by decide +kernel, ?_⟩
  · exact files_checked_once.2.2 tangled "main.lang" tangledMain tangledTree hread (hname ▸ hparse)
      hdeep
  · exact files_checked_once.2.1 tangledAbove "../main.lang" tangledMain tangledTree hreadAbove
      (hnameAbove ▸ hparse) tangledAbove_fits hdeepAbove

end

end ShapeCheck
