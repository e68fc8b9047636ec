import ShapeCheck.Proofs.Cycles
import ShapeCheck.Proofs.Tandem

/-!
# Variables that no file names

A variable of the environment matters only to files that name it. If none does, neither the one that
is checked nor one that it imports, then a run with the variable and a run without it go in step, and
whatever they report and keep is the same.
-/

namespace ShapeCheck

/-! ## The same files -/

def Sources.beside (S : Sources) (seen : String → Bool)
    (h : ∀ q, ∀ tree ∈ S.tree? q, AllSeen seen tree.names) : Correspondence where
  left := S
  right := S
  paths _ := True
  seen
  errors _ := Eq
  target _ _ := trivial
  parse := by
    intro q _
    cases hparse : S.parse? q with
    | none => exact .missing
    | some parsed =>
      cases parsed with
      | error e => exact .unparsable rfl
      | ok tree =>
        have hseen := h q tree (Sources.tree?_eq_some.mpr hparse)
        exact .parsed (Stmt.matches_self (fun _ _ => rfl) tree hseen)

theorem Scope.seenBy_insert {seen : String → Bool} {v : Variable} (hv : seen v.name = false)
    (before after : List Variable) :
    Scope.seenBy seen (before ++ v :: after) = Scope.seenBy seen (before ++ after) := by
  unfold seenBy
  rw [List.filter_append, List.filter_append, List.filter_cons_of_neg (by simp [hv])]

theorem allSeen_of_not_mem {x : String} {xs : List String} (h : x ∉ xs) :
    AllSeen (fun y => decide (y ≠ x)) xs :=
  fun _ hy => decide_eq_true fun e => h (e ▸ hy)

/-- **Unrelated variables do not interfere.** A variable that neither the tree nor any file names
can be added to the environment at any place, and nothing that is reported or kept changes. -/
theorem unnamed_variable_inert {v : Variable} {tree : Stmt} {ws : Workspace}
    (htree : v.name ∉ tree.names) (hfiles : ∀ q, ∀ t ∈ ws.sources.tree? q, v.name ∉ t.names)
    (before after : List Variable) (config : Config) (path : String) :
    let without := ws.check ⟨before ++ after, config⟩ path tree
    let withIt := ws.check ⟨before ++ v :: after, config⟩ path tree
    withIt.1 = without.1 ∧ withIt.2.reports = without.2.reports ∧
      withIt.2.journal = without.2.journal := by
  intro without withIt
  let seen (y : String) : Bool := decide (y ≠ v.name)
  let K := ws.sources.beside seen fun q t ht => allSeen_of_not_mem (hfiles q t ht)
  have henv : Environment.Matches K.seen ⟨before ++ v :: after, config⟩ ⟨before ++ after, config⟩ :=
    ⟨rfl, Scope.seenBy_insert (by simp [K, seen, Sources.beside]) before after⟩
  have hself : tree.Matches (placesOf Eq) K.seen tree :=
    Stmt.matches_self (fun _ _ => rfl) tree (allSeen_of_not_mem htree)
  have hws : ws.startTrail.Matches K ws.startTrail :=
    Workspace.matches_self rfl rfl fun e _ => e.2.matches_self
  have hpath : K.paths (Path.normalize path) := trivial
  obtain ⟨hreport, hend⟩ :=
    checkFile_matches (importer_inStep ws.sources.capacity Eq) hself hpath henv [] hws
  exact ⟨hreport.eq, Entries.eq_of_matches hend.reports, hend.journal_eq⟩

section

-- The runs below are evaluated as a whole and not unfolded.
attribute [local irreducible] Workspace.check

def namingFiles : Entries String :=
  [("lib", "id = (x: t) x export pair = [id(n), number]")]

theorem namingFiles_ignore_x1 :
    let ws := Workspace.ofSources (.ofFiles namingFiles)
    let v : Variable := ⟨"x1", .placeholder true 0⟩
    let t : Variable := ⟨"t", .number false⟩
    let n : Variable := ⟨"n", .number true⟩
    let tree := importing ["./lib", "./x1"]
    let without := ws.check ⟨[t] ++ [n], .standard⟩ "main" tree
    let withIt := ws.check ⟨[t] ++ v :: [n], .standard⟩ "main" tree
    (v.name ∉ tree.names ∧ ∀ q, ∀ t ∈ ws.sources.tree? q, v.name ∉ t.names) ∧
      withIt.1 = without.1 ∧ withIt.2.reports = without.2.reports ∧
        withIt.2.journal = without.2.journal := by
  intro ws v t n tree without withIt
  have htree : v.name ∉ tree.names := by decide +kernel
  have hfiles : ∀ q, ∀ t ∈ ws.sources.tree? q, v.name ∉ t.names := by
    intro q t ht
    have hmem : q ∈ namingFiles.names.toFinset :=
      (Sources.ofFiles_covers namingFiles).mem_of_parse? (Sources.tree?_eq_some.mp ht)
    have hq : q = "lib" := by simpa [namingFiles, Entries.names] using hmem
    subst hq
    revert t
    decide +kernel
  exact ⟨⟨htree, hfiles⟩, unnamed_variable_inert htree hfiles [t] [n] .standard "main"⟩

end

end ShapeCheck
