import ShapeCheck.Proofs.Cycles
import ShapeCheck.Proofs.Paths

/-!
# Kept reports are those of fresh checks

The report on a file does not depend on who imports it, on the files that are open at that time or
on the reports that are there already, as long as no chain of imports from the file leads back to an
open one. By induction along the chains of imports, each import is answered by the report that a
check of the imported file alone would give, and two checks of one file whose imports are answered
alike give the same report.
-/

namespace ShapeCheck

open Relation

/-! ## Two checks of one file -/

def Context.under (c : Context) (stack : List String) : Context :=
  { c with importStack := stack }

theorem Local.under {α : Type} {f : Context → α × Context} (hf : Local f) (c : Context)
    (stack : List String) : f (c.under stack) = ((f c).1, (f c).2.under stack) := by
  have h : f (c.under stack) = ((f c).1, (f c).2.within (c.under stack)) := hf (c.under stack) c
  rw [h, hf.within_self]
  rfl

theorem Context.enter?_under (c : Context) (stack : List String) :
    (c.under stack).enter? = c.enter?.map fun inner => inner.under stack := by
  unfold Context.enter? Context.under
  dsimp only
  split <;> rfl

section
variable (W : Workspace → Prop) (env : Environment) (path : String) (left right : List String)

/-- Two states in which the same was found out about the file at `path`. -/
structure Alike (s₁ s₂ : Checking) : Prop where
  contexts : ∃ c : Context, c.environment = env ∧ c.path = path ∧
    s₁.context = c.under left ∧ s₂.context = c.under right
  left : W s₁.workspace
  right : W s₂.workspace

def Agree (α : Type) (_ : List String) (m₁ m₂ : CheckM α) : Prop :=
  ∀ s₁ s₂, Alike W env path left right s₁ s₂ →
    (m₁ s₁).1 = (m₂ s₂).1 ∧ Alike W env path left right (m₁ s₁).2 (m₂ s₂).2

end

section
variable {W : Workspace → Prop} {env : Environment} {path : String} {left right : List String}
variable (hW : ∀ (ws : Workspace) (m : Moment), W ws → W (ws.note m))
include hW

theorem Alike.move {s₁ s₂ : Checking} (h : Alike W env path left right s₁ s₂) {c : Context}
    (henv : c.environment = env) (hpath : c.path = path) (event₁ event₂ : Event) :
    Alike W env path left right (s₁.move event₁ (c.under left)) (s₂.move event₂ (c.under right)) :=
  ⟨⟨c, henv, hpath, rfl, rfl⟩, hW _ _ h.left, hW _ _ h.right⟩

theorem Agree.nested {m₁ m₂ : CheckM Ty} {rs : List String} (span : Span)
    (hm : Agree W env path left right Ty rs m₁ m₂) :
    Agree W env path left right Ty rs (CheckM.nested span m₁) (CheckM.nested span m₂) := by
  intro s₁ s₂ h
  obtain ⟨c, henv, hpath, h₁, h₂⟩ := h.contexts
  cases he : c.enter? with
  | none =>
    have he₁ : s₁.context.enter? = none := by rw [h₁, Context.enter?_under, he]; rfl
    have he₂ : s₂.context.enter? = none := by rw [h₂, Context.enter?_under, he]; rfl
    let c' := c.report (.nestingTooDeep c.environment.config.maxDepth) span
    have h' := h.move hW (c := c') henv hpath .changed .changed
    rw [CheckM.nested_none he₁, CheckM.nested_none he₂, h₁, h₂]
    exact ⟨rfl, h'.move hW (c := c') henv hpath _ _⟩
  | some inner =>
    have he₁ : s₁.context.enter? = some (inner.under left) := by
      rw [h₁, Context.enter?_under, he]; rfl
    have he₂ : s₂.context.enter? = some (inner.under right) := by
      rw [h₂, Context.enter?_under, he]; rfl
    have hin := CheckM.enter?_eq_some he
    have hinner := h.move hW (c := inner) (hin ▸ henv) (hin ▸ hpath) .changed .changed
    obtain ⟨hr, h'⟩ := hm _ _ hinner
    obtain ⟨c', henv', hpath', h₁', h₂'⟩ := h'.contexts
    rw [CheckM.nested_some he₁, CheckM.nested_some he₂]
    dsimp only
    rw [h₁', h₂']
    have hleave := h'.move hW (c := c'.leave) henv' hpath' .changed .changed
    exact ⟨hr, hleave.move hW (c := c'.leave) henv' hpath' _ _⟩

theorem Agree.congruence : Congruence (Agree W env path left right) where
  pure _ _ _ h := ⟨rfl, h⟩
  bind hm hf s₁ s₂ h := by
    obtain ⟨he, h'⟩ := hm s₁ s₂ h
    rw [CheckM.bind_run, CheckM.bind_run, he]
    exact hf _ _ _ h'
  read f s₁ s₂ h := by
    obtain ⟨c, -, -, h₁, h₂⟩ := h.contexts
    rw [CheckM.read_run, CheckM.read_run, h₁, h₂]
    exact ⟨rfl, h⟩
  step event hf _ s₁ s₂ h := by
    obtain ⟨c, henv, hpath, h₁, h₂⟩ := h.contexts
    rw [CheckM.onContext_run, CheckM.onContext_run, h₁, h₂, hf.under, hf.under]
    refine ⟨rfl, h.move hW ?_ ?_ _ _⟩
    · rw [hf.within_self]
      exact henv
    · rw [hf.within_self]
      exact hpath
  report span _ s₁ s₂ h := by
    obtain ⟨c, henv, hpath, h₁, h₂⟩ := h.contexts
    rw [CheckM.report_run, CheckM.report_run, h₁, h₂]
    exact ⟨rfl, h.move hW (c := c.report _ span) henv hpath _ _⟩
  nested := Agree.nested hW

end

/-! ## Faithful reports -/

/-- The report of a check of the file at `q` by itself, when nothing is known of any file. -/
def Sources.freshReport? (S : Sources) (env : Environment) (q : String) : Option Report :=
  (S.parse? q).map fun
    | .error e => .ofSyntaxError e
    | .ok tree => ((Workspace.ofSources S).check env q tree).1

structure Faithful (S : Sources) (env : Environment) (ws : Workspace) : Prop where
  sources : ws.sources = S
  reports : ∀ q r, ws.reports.get? q = some r → S.freshReport? env q = some r

def Clear (S : Sources) (b : String) (stack : List String) : Prop :=
  ∀ a, ReflTransGen S.Imports b a → a ∉ stack

/-- Wherever the file at `b` is imported, its fresh report is the answer. -/
def Served (S : Sources) (env : Environment) (F : Finset String) (b : String) : Prop :=
  ∀ (n : Nat) (c : Context) (ws : Workspace), c.environment = env → Clear S b c.importStack →
    Room F c.importStack n → Faithful S env ws →
      (ws.report? (opener n c b) b).1 = S.freshReport? env b ∧
        Faithful S env (ws.report? (opener n c b) b).2

section
variable {S : Sources} {env : Environment} {ws : Workspace}

theorem Faithful.ofSources : Faithful S env (Workspace.ofSources S) := by
  refine ⟨rfl, fun q r h => ?_⟩
  cases h

theorem Faithful.note (h : Faithful S env ws) (m : Moment) : Faithful S env (ws.note m) :=
  ⟨h.sources, h.reports⟩

theorem Faithful.save (h : Faithful S env ws) {q : String} {r : Report}
    (hr : S.freshReport? env q = some r) : Faithful S env (ws.save q r) := by
  refine ⟨h.sources, fun q' r' h' => ?_⟩
  rw [Workspace.reports_save, Entries.get?_insert] at h'
  split at h'
  · rename_i hq
    rw [← hq, hr, ← h']
  · exact h.reports q' r' h'

variable {F : Finset String} {path : String} {tree : Stmt} {left right : List String} {n m : Nat}

theorem Served.importer_run {b requested : String} (hb : Served S env F b) (span : Span)
    {s : Checking} (henv : s.context.environment = env)
    (htarget : Path.target? s.context.path requested = some b)
    (hclear : Clear S b s.context.importStack) (hroom : Room F s.context.importStack n)
    (hfaithful : Faithful S env s.workspace) :
    ∃ ws', Faithful S env ws' ∧
      importer n requested span s = checkReport b span (S.freshReport? env b) ⟨s.context, ws'⟩ := by
  obtain ⟨hr, hf⟩ := hb n s.context s.workspace henv hclear hroom hfaithful
  refine ⟨_, hf, ?_⟩
  rw [importer_eq, importWith_report (opener n) span htarget (hclear b .refl), ← hr]

/-- Importers agree when every import is answered by a fresh report. -/
theorem importers_agree (hserved : ∀ b ∈ tree.importedFiles path, Served S env F b)
    (hleft : ∀ b ∈ tree.importedFiles path, Clear S b left)
    (hright : ∀ b ∈ tree.importedFiles path, Clear S b right)
    (hn : Room F left n) (hm : Room F right m) :
    Importers (Agree (Faithful S env) env path left right) (importer n) (importer m)
      tree.imports := by
  have hcongr : Congruence (Agree (Faithful S env) env path left right) :=
    Agree.congruence fun _ m h => h.note m
  intro requested hrequested span s₁ s₂ h
  obtain ⟨c, henv, hpath, h₁, h₂⟩ := h.contexts
  have hpath₁ : s₁.context.path = path := by rw [h₁]; exact hpath
  have hpath₂ : s₂.context.path = path := by rw [h₂]; exact hpath
  cases ht : Path.target? path requested with
  | none =>
    rw [importer_eq, importer_eq, importWith_invalid _ span (hpath₁ ▸ ht),
      importWith_invalid _ span (hpath₂ ▸ ht)]
    exact hcongr.fail span (by simp) s₁ s₂ h
  | some b =>
    have hb : b ∈ tree.importedFiles path := Stmt.mem_importedFiles.mpr ⟨requested, hrequested, ht⟩
    have hstack₁ : s₁.context.importStack = left := by rw [h₁]; rfl
    have hstack₂ : s₂.context.importStack = right := by rw [h₂]; rfl
    obtain ⟨ws₁, hf₁, hrun₁⟩ := (hserved b hb).importer_run span (h₁ ▸ henv) (hpath₁ ▸ ht)
      (hstack₁ ▸ hleft b hb) (hstack₁ ▸ hn) h.left
    obtain ⟨ws₂, hf₂, hrun₂⟩ := (hserved b hb).importer_run span (h₂ ▸ henv) (hpath₂ ▸ ht)
      (hstack₂ ▸ hright b hb) (hstack₂ ▸ hm) h.right
    rw [hrun₁, hrun₂]
    exact hcongr.checkReport b span _ _ _ ⟨⟨c, henv, hpath, h₁, h₂⟩, hf₁, hf₂⟩

theorem checkFile_agree (hserved : ∀ b ∈ tree.importedFiles path, Served S env F b)
    (hleft : ∀ b ∈ tree.importedFiles path, Clear S b (left ++ [path]))
    (hright : ∀ b ∈ tree.importedFiles path, Clear S b (right ++ [path]))
    (hn : Room F (left ++ [path]) n) (hm : Room F (right ++ [path]) m) {ws₁ ws₂ : Workspace}
    (h₁ : Faithful S env ws₁) (h₂ : Faithful S env ws₂) :
    (checkFile (importer n) env path left tree ws₁).1
        = (checkFile (importer m) env path right tree ws₂).1 ∧
      Faithful S env (checkFile (importer n) env path left tree ws₁).2 := by
  have hcongr : Congruence (Agree (Faithful S env) env path (left ++ [path]) (right ++ [path])) :=
    Agree.congruence fun _ m h => h.note m
  have hagree := Stmt.check_congr hcongr tree (importers_agree hserved hleft hright hn hm)
  have hstart : Alike (Faithful S env) env path (left ++ [path]) (right ++ [path])
      (.start env path left ws₁) (.start env path right ws₂) :=
    ⟨⟨Context.start env path [], rfl, rfl, rfl, rfl⟩, h₁.note _, h₂.note _⟩
  obtain ⟨-, h⟩ := hagree _ _ hstart
  obtain ⟨c, -, -, hc₁, hc₂⟩ := h.contexts
  refine ⟨?_, h.left⟩
  rw [checkFile_run, checkFile_run]
  dsimp only
  rw [hc₁, hc₂]
  rfl

/-- Imports of a file from which no chain of imports leads back stay clear of it. -/
theorem Clear.of_imports {stack : List String} {a b : String} (ha : Acc (flip S.Imports) a)
    (h : Clear S a stack) (hab : S.Imports a b) : Clear S b (stack ++ [a]) := by
  intro x hx hmem
  rcases List.mem_append.mp hmem with hmem | hmem
  · exact h x (hx.head hab) hmem
  · rw [List.mem_singleton.mp hmem] at hx
    exact not_transGen_of_acc ha (TransGen.head' hab hx)

/-- The report of a check that is answered by fresh reports is fresh. -/
theorem checkFile_fresh (hcap : F.card ≤ S.capacity) {b : String} (hb : Acc (flip S.Imports) b)
    (hnormal : Path.normalize b = b) (htree : S.parse? b = some (.ok tree))
    (hserved : ∀ a ∈ tree.importedFiles b, Served S env F a) {stack : List String}
    (hclear : Clear S b stack) (hn : Room F (stack ++ [b]) n) (hws : Faithful S env ws) :
    some (checkFile (importer n) env b stack tree ws).1 = S.freshReport? env b ∧
      Faithful S env (checkFile (importer n) env b stack tree ws).2 := by
  have himports : ∀ a ∈ tree.importedFiles b, S.Imports b a :=
    fun a ha => ⟨tree, Sources.tree?_eq_some.mpr htree, ha⟩
  have hfresh : Faithful S env (Workspace.ofSources S).startTrail := .ofSources
  obtain ⟨hrun, hf⟩ := checkFile_agree hserved
    (fun a ha => hclear.of_imports hb (himports a ha))
    (fun a ha => Clear.of_imports hb (fun _ _ => List.not_mem_nil) (himports a ha))
    hn (Room.of_card_le hcap ([] ++ [b])) hws hfresh
  refine ⟨?_, hf⟩
  rw [hrun, Sources.freshReport?, htree, Option.map_some]
  unfold Workspace.check
  rw [hnormal]
  rfl

theorem served_of_acc (hF : S.Covers F) (hcap : F.card ≤ S.capacity) {b : String}
    (hb : Acc (flip S.Imports) b) (hnormal : Path.normalize b = b) : Served S env F b := by
  induction hb with
  | intro b hacc ih =>
    intro n c ws henv hclear hroom hws
    have hopening : Faithful S env (ws.opening b) := ⟨hws.sources, hws.reports⟩
    have hcases := Workspace.reported_report? (opener n c b) b ws
    generalize ws.report? (opener n c b) b = o at hcases ⊢
    cases hcases with
    | kept hget => exact ⟨(hws.reports b _ hget).symm, hws.sources, hws.reports⟩
    | missing _ hparse =>
      rw [hws.sources] at hparse
      have hfresh : S.freshReport? env b = none := by
        rw [Sources.freshReport?, hparse]
        rfl
      exact ⟨hfresh.symm, hopening⟩
    | @unparsable e _ hparse =>
      rw [hws.sources] at hparse
      have hfresh : S.freshReport? env b = some (.ofSyntaxError e) := by
        rw [Sources.freshReport?, hparse]
        rfl
      exact ⟨hfresh.symm, hopening.save hfresh⟩
    | unopened _ hparse hrun =>
      rw [hws.sources] at hparse
      obtain ⟨k, rfl, -⟩ := hroom.open (hF.mem_of_parse? hparse) (hclear b .refl)
      cases hrun
    | @opened tree r ws' _ hparse hrun =>
      rw [hws.sources] at hparse
      have hserved : ∀ a ∈ tree.importedFiles b, Served S env F a := by
        intro a ha
        obtain ⟨requested, -, ht⟩ := Stmt.mem_importedFiles.mp ha
        exact ih a ⟨tree, Sources.tree?_eq_some.mpr hparse, ha⟩ (Path.normalize_target ht)
      obtain ⟨k, rfl, hk⟩ := hroom.open (hF.mem_of_parse? hparse) (hclear b .refl)
      obtain ⟨hfresh, hf⟩ :=
        checkFile_fresh hcap ⟨b, hacc⟩ hnormal hparse hserved hclear hk hopening
      rw [opener_succ, henv] at hrun
      cases hrun
      exact ⟨hfresh, hf.save hfresh.symm⟩

end

/-! ## Programs -/

section
variable {P : Program}

/-- From an import of a program without cycles, only files of the sources can be reached. -/
theorem Program.ne_path_of_reach (hP : ¬ P.HasCycle) {a b : String} (hb : P.Imports P.path b)
    (hab : ReflTransGen P.sources.Imports b a) : a ≠ P.path ∧ ReflTransGen P.Imports b a := by
  have hne : ∀ a, ReflTransGen P.Imports b a → a ≠ P.path := by
    rintro a ha rfl
    exact hP ⟨P.path, .refl, TransGen.head' hb ha⟩
  induction hab with
  | refl => exact ⟨hne b .refl, .refl⟩
  | tail _ hac ih =>
    have hreach := ih.2.tail ((Program.imports_of_ne ih.1).mpr hac)
    exact ⟨hne _ hreach, hreach⟩

theorem Program.acc_of_grounded (hP : ¬ P.HasCycle) {a b : String} (hb : P.Imports P.path b)
    (ha : P.Grounded a) (hab : ReflTransGen P.sources.Imports b a) :
    Acc (flip P.sources.Imports) a := by
  induction ha with
  | intro a _ ih =>
    constructor
    intro c hac
    have hne := (Program.ne_path_of_reach hP hb hab).1
    exact ih c ((Program.imports_of_ne hne).mpr hac) (hab.tail hac)

/-- A program without cycles gets the report that it gets when nothing is known of any file. -/
theorem check_faithful {files : Entries String} {env : Environment} {path : String} {tree : Stmt}
    (hP : ¬ Program.HasCycle ⟨.ofFiles files, Path.normalize path, tree⟩) {ws : Workspace}
    (hws : Faithful (.ofFiles files) env ws) :
    (ws.check env path tree).1 = ((Workspace.ofSources (.ofFiles files)).check env path tree).1 ∧
      Faithful (.ofFiles files) env (ws.check env path tree).2 := by
  let P : Program := ⟨.ofFiles files, Path.normalize path, tree⟩
  have hF : P.sources.Covers files.names.toFinset := Sources.ofFiles_covers files
  have hcap := Sources.card_names_le files
  have hgrounded : P.Grounded P.path := Program.grounded_of_not_hasCycle hF hP
  have himports : ∀ b ∈ tree.importedFiles P.path, P.Imports P.path b :=
    fun b hb => Program.imports_path.mpr hb
  have hserved : ∀ b ∈ tree.importedFiles P.path, Served P.sources env files.names.toFinset b := by
    intro b hb
    obtain ⟨requested, -, ht⟩ := Stmt.mem_importedFiles.mp hb
    have hacc := Program.acc_of_grounded hP (himports b hb) (hgrounded.inv (himports b hb)) .refl
    exact served_of_acc hF hcap hacc (Path.normalize_target ht)
  have hclear : ∀ b ∈ tree.importedFiles P.path, Clear P.sources b ([] ++ [P.path]) := by
    intro b hb a ha hmem
    exact (Program.ne_path_of_reach hP (himports b hb) ha).1 (List.mem_singleton.mp hmem)
  have hroom := Room.of_card_le hcap ([] ++ [P.path])
  unfold Workspace.check Workspace.importer
  rw [hws.sources]
  exact checkFile_agree hserved hclear hclear hroom hroom ⟨hws.sources, hws.reports⟩ .ofSources

def Workspace.checkAll (env : Environment) (runs : List (String × Stmt)) (ws : Workspace) :
    Workspace :=
  runs.foldl (fun ws run => (ws.check env run.1 run.2).2) ws

theorem checkAll_faithful {files : Entries String} {env : Environment}
    {runs : List (String × Stmt)}
    (hruns : ∀ run ∈ runs, ¬ Program.HasCycle ⟨.ofFiles files, Path.normalize run.1, run.2⟩)
    {ws : Workspace} (hws : Faithful (.ofFiles files) env ws) :
    Faithful (.ofFiles files) env (ws.checkAll env runs) := by
  induction runs generalizing ws with
  | nil => exact hws
  | cons run runs ih =>
    have hrun := (check_faithful (hruns run List.mem_cons_self) hws).2
    exact ih (fun r hr => hruns r (List.mem_cons_of_mem _ hr)) hrun

theorem kept_reports_fresh (files : Entries String) (env : Environment)
    (earlier : List (String × Stmt)) (path : String) (tree : Stmt)
    (hearlier : ∀ run ∈ earlier, ¬ Program.HasCycle ⟨.ofFiles files, Path.normalize run.1, run.2⟩)
    (hprogram : ¬ Program.HasCycle ⟨.ofFiles files, Path.normalize path, tree⟩) :
    let fresh := Workspace.ofSources (.ofFiles files)
    let outcome := (fresh.checkAll env earlier).check env path tree
    outcome.1 = (fresh.check env path tree).1 ∧
      (∀ q r, outcome.2.reports.get? q = some r →
        (Sources.ofFiles files).freshReport? env q = some r) ∧
      ∀ others : List (String × Stmt),
        (∀ run ∈ others, ¬ Program.HasCycle ⟨.ofFiles files, Path.normalize run.1, run.2⟩) →
          ∀ q r r', outcome.2.reports.get? q = some r →
            (fresh.checkAll env others).reports.get? q = some r' → r = r' := by
  intro fresh outcome
  obtain ⟨hreport, hkept⟩ := check_faithful hprogram (checkAll_faithful hearlier .ofSources)
  refine ⟨hreport, hkept.reports, fun others hothers q r r' hr hr' => ?_⟩
  have hq : (Sources.ofFiles files).freshReport? env q = some r := hkept.reports q r hr
  have hq' : (Sources.ofFiles files).freshReport? env q = some r' :=
    (checkAll_faithful hothers .ofSources).reports q r' hr'
  rw [hq] at hq'
  exact Option.some.inj hq'

def sharedFiles : Entries String :=
  [("b", "export b = import(\"./d\").d"), ("c", "export c = import(\"./d\").d"),
    ("d", "export d = (x) x")]

-- The runs below are evaluated as a whole and not unfolded.
attribute [local irreducible] Workspace.check Workspace.checkAll

/-- Two files import a third, which was checked for another program before. -/
theorem shared_import_fresh :
    let env : Environment := ⟨[], .standard⟩
    let fresh := Workspace.ofSources (.ofFiles sharedFiles)
    let outcome := (fresh.checkAll env [("e", importing ["./c", "./none"])]).check env "a"
      (importing ["./b", "./c"])
    (outcome.2.reports.get? "d").isSome ∧
      outcome.1 = (fresh.check env "a" (importing ["./b", "./c"])).1 ∧
      ∀ q r, outcome.2.reports.get? q = some r →
        (Sources.ofFiles sharedFiles).freshReport? env q = some r := by
  intro env fresh outcome
  have hearlier : ∀ run ∈ [("e", importing ["./c", "./none"])],
      ¬ Program.HasCycle ⟨.ofFiles sharedFiles, Path.normalize run.1, run.2⟩ := by
    intro run hrun
    rw [List.mem_singleton.mp hrun]
    exact not_hasCycle_of_not_recorded env (by decide +kernel)
  have hprogram :
      ¬ Program.HasCycle ⟨.ofFiles sharedFiles, Path.normalize "a", importing ["./b", "./c"]⟩ :=
    not_hasCycle_of_not_recorded env (by decide +kernel)
  have hd : (outcome.2.reports.get? "d").isSome := by decide +kernel
  have h := kept_reports_fresh sharedFiles env _ "a" _ hearlier hprogram
  exact ⟨hd, h.1, h.2.1⟩

end

end ShapeCheck
