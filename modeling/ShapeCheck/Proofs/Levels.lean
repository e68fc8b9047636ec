import ShapeCheck.Proofs.Cycles

/-!
# The levels of an importer suffice

An importer opens files inside one another down to some level. Below that level something else has
to answer, and here it may be anything. No file is opened while it is on the import stack, so if
there are as many levels as files that can be opened, nothing below is ever asked: the check unfolds
to the end, and its outcome depends neither on the number of levels nor on what lies below.
-/

namespace ShapeCheck

open Relation

def importerOver (base : Context → String → Stmt → Workspace → Option Report × Workspace) :
    Nat → Importer
  | 0 => importWith base
  | n + 1 => importWith fun c path tree ws =>
    let (report, ws) := checkFile (importerOver base n) c.environment path c.importStack tree ws
    (some report, ws)

/-! ## The same steps -/

structure Checking.At (P : Program) (q : String) (stack : List String) (s : Checking) : Prop where
  path : s.outline.path = q
  importStack : s.outline.importStack = stack
  sources : s.outline.sources = P.sources

theorem Checking.At.extends {P : Program} {q : String} {stack : List String} {s s' : Checking}
    (h : s.At P q stack) (he : s.outline.Extends s'.outline) : s'.At P q stack :=
  ⟨he.path.trans h.path, he.importStack.trans h.importStack, he.sources.trans h.sources⟩

/-- The checks take the same steps in all such states. -/
def Same (P : Program) (q : String) (stack : List String) (α : Type) (_ : List String)
    (m₁ m₂ : CheckM α) : Prop :=
  ∀ s, s.At P q stack → m₁ s = m₂ s ∧ (m₂ s).2.At P q stack

section
variable {P : Program} {q : String} {stack : List String}

theorem Same.of_outline {α : Type} {m : CheckM α} (h : ∀ s, (m s).2.outline = s.outline)
    (rs : List String) : Same P q stack α rs m m := by
  intro s hs
  refine ⟨rfl, ?_⟩
  constructor <;> rw [h s]
  exacts [hs.path, hs.importStack, hs.sources]

theorem Same.nested {rs : List String} {m₁ m₂ : CheckM Ty} (span : Span)
    (h : Same P q stack Ty rs m₁ m₂) :
    Same P q stack Ty rs (CheckM.nested span m₁) (CheckM.nested span m₂) := by
  intro s hs
  cases he : s.context.enter? with
  | none =>
    rw [CheckM.nested_none he, CheckM.nested_none he]
    exact ⟨rfl, hs.path, hs.importStack, hs.sources⟩
  | some inner =>
    have hinner : (s.move .changed inner).At P q stack := by
      obtain rfl := CheckM.enter?_eq_some he
      exact ⟨hs.path, hs.importStack, hs.sources⟩
    obtain ⟨hrun, hend⟩ := h _ hinner
    rw [CheckM.nested_some he, CheckM.nested_some he, hrun]
    exact ⟨rfl, hend.path, hend.importStack, hend.sources⟩

theorem Same.congruence : Congruence (Same P q stack) where
  pure _ := Same.of_outline (fun _ => rfl) _
  bind hm hf s hs := by
    obtain ⟨hrun, hs'⟩ := hm s hs
    rw [CheckM.bind_run, CheckM.bind_run, hrun]
    exact hf _ _ hs'
  read _ := Same.of_outline (fun _ => rfl) _
  step event hf _ := Same.of_outline (hf.outline_run event) _
  report _ _ _ hs := ⟨rfl, hs.path, hs.importStack, hs.sources⟩
  nested := Same.nested

end

/-! ## Imports and files -/

theorem Workspace.report?_congr {check₁ check₂ : Stmt → Workspace → Option Report × Workspace}
    {b : String} {ws : Workspace}
    (h : ∀ tree, ws.sources.parse? b = some (.ok tree) →
      check₁ tree (ws.opening b) = check₂ tree (ws.opening b)) :
    ws.report? check₁ b = ws.report? check₂ b := by
  unfold report? lookup
  cases ws.reports.get? b with
  | some r => rfl
  | none =>
    have hload : (ws.record (.lookup b)).load b = (ws.sources.parse? b, ws.opening b) := rfl
    dsimp only
    rw [hload]
    cases hparse : ws.sources.parse? b with
    | none => rfl
    | some parsed =>
      cases parsed with
      | error e => rfl
      | ok tree =>
        dsimp only
        rw [h tree hparse]

section
variable {P : Program} {q : String} {stack : List String} {tree : Stmt} {imports : Importer}

/-- Importers that open files alike take the same steps. -/
theorem importWith_same {n : Nat} (htree : P.tree? q = some tree) (hentry : P.path ∈ stack)
    {open₁ : Context → String → Stmt → Workspace → Option Report × Workspace}
    (hopen : ∀ (c : Context) (b : String) (tree : Stmt) (ws : Workspace), c.importStack = stack →
      b ∉ stack → P.Imports q b → P.tree? b = some tree → ws.sources = P.sources →
        open₁ c b tree ws = opener n c b tree ws) :
    Importers (Same P q stack) (importWith open₁) (importer n) tree.imports := by
  intro requested hrequested span s hs
  refine ⟨?_, hs.extends (importer_extends n requested span s)⟩
  have hpath : s.context.path = q := hs.path
  have hstack : s.context.importStack = stack := hs.importStack
  rw [importer_eq]
  cases ht : Path.target? q requested with
  | none =>
    rw [importWith_invalid _ span (hpath ▸ ht), importWith_invalid _ span (hpath ▸ ht)]
  | some b =>
    by_cases hb : b ∈ stack
    · rw [importWith_cyclic _ span (hpath ▸ ht) (hstack ▸ hb),
        importWith_cyclic _ span (hpath ▸ ht) (hstack ▸ hb)]
    · have hqb : P.Imports q b :=
        ⟨tree, htree, Stmt.mem_importedFiles.mpr ⟨requested, hrequested, ht⟩⟩
      have hne : b ≠ P.path := fun h => hb (h ▸ hentry)
      have hreport : s.workspace.report? (open₁ s.context b) b =
          s.workspace.report? (opener n s.context b) b := by
        refine Workspace.report?_congr fun tree' hparse => ?_
        refine hopen s.context b tree' _ hstack hb hqb ?_ hs.sources
        rw [Program.tree?_of_ne hne, Sources.tree?_eq_some, ← hs.sources]
        exact hparse
      rw [importWith_report _ span (hpath ▸ ht) (hstack ▸ hb),
        importWith_report _ span (hpath ▸ ht) (hstack ▸ hb), hreport]

theorem checkFile_same {m : Nat}
    (h : Importers (Same P q (stack ++ [q])) imports (importer m) tree.imports) (env : Environment)
    {ws : Workspace} (hs : ws.sources = P.sources) :
    checkFile imports env q stack tree ws = checkFile (importer m) env q stack tree ws := by
  have hstart : (Checking.start env q stack ws).At P q (stack ++ [q]) := ⟨rfl, rfl, hs⟩
  obtain ⟨hrun, -⟩ := Stmt.check_congr Same.congruence tree h _ hstart
  rw [checkFile_run, checkFile_run, hrun]

end

theorem importerOver_same {P : Program} {F : Finset String} (hF : P.Covered F)
    (base : Context → String → Stmt → Workspace → Option Report × Workspace) :
    ∀ (n m : Nat) {q : String} {stack : List String} {tree : Stmt}, Situation P F q stack n →
      Room F stack m → P.tree? q = some tree →
        Importers (Same P q stack) (importerOver base n) (importer m) tree.imports
  | 0, m, q, stack, tree, sit, _, htree => by
    refine importWith_same htree sit.entry fun c b tree' ws _ hb hqb htree' _ => ?_
    exact absurd (sit.mem_of_tree? hF hqb htree') hb
  | n + 1, m, q, stack, tree, sit, hroom, htree => by
    refine importWith_same htree sit.entry fun c b tree' ws hstack hb hqb htree' hs => ?_
    obtain ⟨k, rfl, hk⟩ := hroom.open (sit.mem hF hb hqb htree') hb
    have himports := importerOver_same hF base n k (sit.open hF hb hqb htree') hk htree'
    rw [opener_succ, hstack, checkFile_same himports c.environment hs]

def Program.Fits (P : Program) : Prop :=
  ∃ F : Finset String, F.card ≤ P.sources.capacity ∧ P.Covered F

theorem Program.fits_ofFiles (files : Entries String) (path : String) (tree : Stmt) :
    Program.Fits ⟨.ofFiles files, path, tree⟩ :=
  ⟨_, Sources.card_names_le files, (Sources.ofFiles_covers files).covered⟩

/-- It is enough that the files fit which are closed under imports. -/
theorem Program.fits_of_closed {P : Program} {F : Finset String} (hcard : F.card ≤ P.sources.capacity)
    (hpath : P.path ∈ F) (hclosed : ∀ a ∈ F, ∀ b, P.Imports a b → b ∈ F) : P.Fits := by
  have hreached : ∀ q, ReflTransGen P.Imports P.path q → q ∈ F := by
    intro q hreach
    induction hreach with
    | refl => exact hpath
    | tail _ himports ih => exact hclosed _ ih _ himports
  exact ⟨F, hcard, fun q hreach _ => hreached q hreach⟩

theorem checkFile_levels {P : Program} (hP : P.Fits)
    (base : Context → String → Stmt → Workspace → Option Report × Workspace) {n : Nat}
    (hn : P.sources.capacity ≤ n) (env : Environment) {ws : Workspace}
    (hs : ws.sources = P.sources) :
    checkFile (importerOver base n) env P.path [] P.tree ws =
      checkFile (importer P.sources.capacity) env P.path [] P.tree ws := by
  obtain ⟨F, hcard, hF⟩ := hP
  refine checkFile_same ?_ env hs
  exact importerOver_same hF base n _ (.start (hcard.trans hn)) (Room.of_card_le hcard _)
    Program.tree?_path

end ShapeCheck
