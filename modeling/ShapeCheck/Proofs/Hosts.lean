import ShapeCheck.Proofs.Confinement
import ShapeCheck.Proofs.Levels
import ShapeCheck.Proofs.MatchingTokens
import ShapeCheck.Proofs.Tandem

/-!
# Files in memory and files on disk

A program whose files are kept in memory is checked like one whose files lie in a folder, if reading
the folder gives those files. The only difference is the name under which errors in imported files
are reported: in memory it is the path of the file, in a folder it is the path with the suffix.
-/

namespace ShapeCheck

open Relation

/-- Where `q` leads inside the root, the folder has the file that `files` has at `q`, and the disk
counts at least as many files. -/
structure Folder.Holds (folder : Folder) (files : Entries String) : Prop where
  read : ∀ q, Path.Inside q → folder.disk.read? (folder.filePath q) = files.get? q
  room : files.names.toFinset.card ≤ folder.disk.capacity

/-! ## Names of files in errors -/

def Error.inFile (file : String) (e : Error) : Error :=
  ⟨e.cause, ⟨e.position.offset, file⟩⟩

def Report.inFile (file : String) (r : Report) : Report :=
  { r with errors := r.errors.map (Error.inFile file) }

structure Error.Renamed (file file' : String) (e e' : Error) : Prop where
  file_eq : e.position.file = file
  eq_inFile : e' = e.inFile file'

theorem Error.renamed_at (file file' : String) (n : Nat) :
    placesOf (Error.Renamed file file') (.at n file) (.at n file') :=
  fun _ => ⟨rfl, rfl⟩

theorem Report.Matches.renamed {file file' : String} {r r' : Report}
    (h : r.Matches (Error.Renamed file file') r') :
    r' = r.inFile file' ∧ ∀ e ∈ r.errors, e.position.file = file := by
  obtain ⟨errors, exports, unparsable⟩ := r
  obtain ⟨errors', exports', unparsable'⟩ := r'
  obtain ⟨herrors, hexports, hunparsable⟩ := h
  dsimp only at herrors hexports hunparsable
  subst hexports hunparsable
  have hmap : errors' = errors.map (Error.inFile file') ∧ ∀ e ∈ errors, e.position.file = file := by
    induction herrors with
    | nil => exact ⟨rfl, by simp⟩
    | cons he _ ih => exact ⟨by rw [he.eq_inFile, ih.1, List.map_cons],
        List.forall_mem_cons.mpr ⟨he.file_eq, ih.2⟩⟩
  exact ⟨congrArg (Report.mk · exports unparsable) hmap.1, hmap.2⟩

theorem Entries.renamed_of_matches {suffix : String} {es es' : Entries Report}
    (h : List.Forall₂ (fun e e' => e.1 = e'.1 ∧
      e.2.Matches (Error.Renamed e.1 (e.1 ++ suffix)) e'.2) es es') :
    es' = es.map (fun e => (e.1, e.2.inFile (e.1 ++ suffix))) ∧
      ∀ e ∈ es, ∀ error ∈ e.2.errors, error.position.file = e.1 := by
  induction h with
  | nil => exact ⟨rfl, by simp⟩
  | @cons e e' _ _ he _ ih =>
    obtain ⟨hreport, hfiles⟩ := he.2.renamed
    have hentry : e' = (e.1, e.2.inFile (e.1 ++ suffix)) := Prod.ext he.1.symm hreport
    exact ⟨by rw [List.map_cons, hentry, ih.1], List.forall_mem_cons.mpr ⟨hfiles, ih.2⟩⟩

/-! ## Files that are held -/

theorem Program.inside_of_reach {P : Program} (hpath : Path.Inside P.path) {q : String}
    (h : ReflTransGen P.Imports P.path q) : Path.Inside q := by
  induction h with
  | refl => exact hpath
  | tail _ hstep ih =>
    obtain ⟨tree, -, hmem⟩ := hstep
    obtain ⟨r, -, htarget⟩ := Stmt.mem_importedFiles.mp hmem
    exact ih.target htarget

section
variable {folder : Folder} {files : Entries String} (h : folder.Holds files)
  (hdepth : folder.config.maxDepth = Config.standard.maxDepth)

def Folder.Holds.correspondence : Correspondence where
  left := .ofFiles files
  right := folder.sources
  paths := Path.Inside
  seen := anyName
  errors q := Error.Renamed q (q ++ folder.suffix)
  target := Path.Inside.target
  parse := by
    intro q hq
    have hread : folder.sources.text? q = files.get? q := h.read q hq
    unfold Sources.parse?
    rw [hread]
    show ParsedAlike _ _ ((files.get? q).map _) ((files.get? q).map _)
    cases files.get? q with
    | none => exact .missing
    | some text =>
      have hcut := tokensAt_alike (Error.renamed_at q (q ++ folder.suffix)) 0 text.toList
      rw [show folder.sources.maxDepth = Config.standard.maxDepth from hdepth]
      exact parseSource_alike hcut (Error.renamed_at _ _ 0) Config.standard.maxDepth

include h

theorem Folder.Holds.fits {path : String} (hpath : Path.Inside path) (tree : Stmt) :
    Program.Fits ⟨folder.sources, path, tree⟩ := by
  refine ⟨files.names.toFinset, h.room, fun q hq htext => ?_⟩
  rw [show folder.sources.text? q = files.get? q from h.read q (Program.inside_of_reach hpath hq)]
    at htext
  exact List.mem_toFinset.mpr (Entries.mem_names_iff.mpr htext)

end

/-! ## A folder that holds given files -/

theorem Path.isAbsolute_append {q suffix : String} (hq : isAbsolute q = false)
    (hsuffix : isAbsolute suffix = false) : isAbsolute (q ++ suffix) = false := by
  unfold isAbsolute at hq hsuffix ⊢
  rw [String.toList_append, List.head?_append]
  cases hhead : q.toList.head? with
  | none => exact hsuffix
  | some c => rwa [hhead] at hq

theorem Path.within_inj {root a b : String} (ha : isAbsolute a = false) (hb : isAbsolute b = false)
    (h : within root a = within root b) : a = b := by
  unfold within at h
  by_cases hroot : root = ""
  · simpa [hroot] using h
  · by_cases hslash : root.toList.getLast? = some '/'
    · simpa [ha, hb, hroot, hslash] using h
    · simpa [ha, hb, hroot, hslash] using h

theorem Entries.get?_map_fst {α : Type} (f : String → String) {q : String} {es : Entries α}
    (h : ∀ name ∈ es.names, f name = f q → name = q) :
    Entries.get? (f q) (es.map fun e => (f e.1, e.2)) = es.get? q := by
  induction es with
  | nil => rfl
  | cons e es ih =>
    rw [List.map_cons, Entries.get?, Entries.get?]
    by_cases hname : e.1 = q
    · rw [if_pos hname, if_pos (congrArg f hname)]
    · have hf : f e.1 ≠ f q := fun hf => hname (h e.1 (by simp [Entries.names]) hf)
      rw [if_neg hname, if_neg hf]
      exact ih fun name hmem => h name (List.mem_cons_of_mem _ hmem)

def Folder.ofFiles (files : Entries String) (root suffix : String) (config : Config) : Folder where
  disk :=
    { read? path := Entries.get? path (files.map fun e => (Path.within root (e.1 ++ suffix), e.2))
      capacity := files.length }
  root
  suffix
  config

theorem Folder.holds_ofFiles {files : Entries String} {suffix : String}
    (hfiles : ∀ q ∈ files.names, Path.Inside q) (hsuffix : Path.isAbsolute suffix = false)
    (root : String) (config : Config) : (Folder.ofFiles files root suffix config).Holds files where
  read q hq := by
    refine Entries.get?_map_fst (fun q => Path.within root (q ++ suffix)) fun name hmem h => ?_
    have hname := Path.isAbsolute_append (hfiles name hmem).relative hsuffix
    have := Path.within_inj hname (Path.isAbsolute_append hq.relative hsuffix) h
    simpa using this
  room := Sources.card_names_le files

/-! ## Levels -/

theorem importerOver_none (n : Nat) : importerOver (fun _ _ _ ws => (none, ws)) n = importer n := by
  induction n with
  | zero => rfl
  | succ n ih =>
    unfold importerOver
    rw [ih]
    rfl

/-- More levels than the files need change nothing. -/
theorem check_eq_of_fits {sources : Sources} {path : String} {tree : Stmt}
    (h : Program.Fits ⟨sources, Path.normalize path, tree⟩) {n : Nat} (hn : sources.capacity ≤ n)
    (env : Environment) :
    (Workspace.ofSources sources).check env path tree =
      checkFile (importer n) env (Path.normalize path) [] tree (.ofSources sources) := by
  rw [← importerOver_none n]
  exact (checkFile_levels h _ hn env rfl).symm

/-- **The two hosts agree.** With the files in memory and with a folder that holds them a program gets
the same report, and reports are kept on the same files. They are equal but for the file that their
errors name, which is the path of the file in memory and its path with the suffix in the folder. -/
theorem hosts_agree {folder : Folder} {files : Entries String} (h : folder.Holds files)
    (hdepth : folder.config.maxDepth = Config.standard.maxDepth) {path : String}
    (hrelative : Path.isAbsolute (Path.normalize path) = false)
    (hup : ".." ∉ Path.segments (Path.normalize path)) (env : Environment) (tree : Stmt) :
    let memory := (Workspace.ofSources (.ofFiles files)).check env path tree
    let onDisk := (Workspace.ofSources folder.sources).check env path tree
    onDisk.1 = memory.1 ∧
      onDisk.2.reports = memory.2.reports.map (fun e => (e.1, e.2.inFile (e.1 ++ folder.suffix))) ∧
      ∀ e ∈ memory.2.reports, ∀ error ∈ e.2.errors, error.position.file = e.1 := by
  intro memory onDisk
  let K := h.correspondence hdepth
  let n := max files.length folder.disk.capacity
  have hpath := Path.inside_normalize hrelative hup
  have hmemory : memory = checkFile (importer n) env (Path.normalize path) [] tree
      (.ofSources (.ofFiles files)) :=
    check_eq_of_fits (Program.fits_ofFiles files _ tree) (Nat.le_max_left _ _) env
  have honDisk : onDisk = checkFile (importer n) env (Path.normalize path) [] tree
      (.ofSources folder.sources) :=
    check_eq_of_fits (h.fits hpath tree) (Nat.le_max_right _ _) env
  have hself : tree.Matches (placesOf Eq) K.seen tree :=
    Stmt.matches_self (fun _ _ => rfl) tree fun _ _ => rfl
  obtain ⟨hreport, hend⟩ := checkFile_matches (importer_inStep n Eq) hself hpath (.refl env) []
    (Workspace.ofSources_matches K)
  rw [hmemory, honDisk]
  exact ⟨hreport.eq.symm, Entries.renamed_of_matches hend.reports⟩

section

-- The runs below are evaluated as a whole and not unfolded.
attribute [local irreducible] Workspace.check

def flawedFiles : Entries String :=
  [("a", "b = import(\"./lib/b\") b.x nope"), ("lib/b", "x = (1")]

theorem flawedFiles_agree :
    let folder := Folder.ofFiles flawedFiles "src" ".lang" .standard
    let tree := importing ["./a", "./missing"]
    let memory := (Workspace.ofSources (.ofFiles flawedFiles)).check ⟨[], .standard⟩ "main" tree
    let onDisk := (Workspace.ofSources folder.sources).check ⟨[], .standard⟩ "main" tree
    folder.Holds flawedFiles ∧
      (onDisk.1 = memory.1 ∧
        onDisk.2.reports =
          memory.2.reports.map (fun e => (e.1, e.2.inFile (e.1 ++ folder.suffix))) ∧
        ∀ e ∈ memory.2.reports, ∀ error ∈ e.2.errors, error.position.file = e.1) ∧
      (onDisk.2.reports.flatMap fun e => e.2.errors.map (·.position.file)) =
        ["a.lang", "a.lang", "lib/b.lang"] := by
  intro folder tree memory onDisk
  have hfiles : ∀ q ∈ flawedFiles.names, Path.Inside q := by decide +kernel
  have hholds : folder.Holds flawedFiles :=
    Folder.holds_ofFiles hfiles (by decide +kernel) "src" .standard
  refine ⟨hholds, ?_, by decide +kernel⟩
  exact hosts_agree hholds rfl (by decide +kernel) (by decide +kernel) ⟨[], .standard⟩ tree

end

end ShapeCheck
