import ShapeCheck.Proofs.Graph
import ShapeCheck.Proofs.Growth
import ShapeCheck.Proofs.Parsed

/-!
# Cyclic imports are found

A check follows imports depth first: the import stack holds the files that are open, the reports
those that are finished. An error about a cycle closes a chain of imports on the stack, so there is
a cycle. Conversely, as long as no such error is recorded, every finished file has only chains of
imports that end, and when the program itself is finished the same holds of it. A phrase that is
nested too deep hides the imports in it, so it counts like an error about a cycle until the end.
-/

namespace ShapeCheck

open Relation

def Cause.IsCyclic : Cause → Prop
  | .cyclicImport _ => True
  | _ => False

def Cause.IsTooDeep : Cause → Prop
  | .nestingTooDeep _ => True
  | _ => False

instance : DecidablePred Cause.IsCyclic := fun cause => by
  cases cause <;> first | exact isTrue trivial | exact isFalse id

instance : DecidablePred Cause.IsTooDeep := fun cause => by
  cases cause <;> first | exact isTrue trivial | exact isFalse id

def Cause.IsSuspicious (cause : Cause) : Prop :=
  cause.IsCyclic ∨ cause.IsTooDeep

instance : DecidablePred Cause.IsSuspicious := fun cause =>
  inferInstanceAs (Decidable (cause.IsCyclic ∨ cause.IsTooDeep))

theorem Cause.not_isCyclic_of_ne {cause : Cause} (h : ∀ p, cause ≠ .cyclicImport p) :
    ¬ cause.IsCyclic := by
  intro hc
  cases cause with
  | cyclicImport p => exact h p rfl
  | _ => exact hc

theorem Cause.not_isCyclic_of_syntactic {cause : Cause} (h : cause.Syntactic) :
    ¬ cause.IsCyclic := by
  cases cause with
  | cyclicImport p => exact fun _ => h
  | _ => exact fun hc => hc

def Report.Records (kind : Cause → Prop) (r : Report) : Prop :=
  ∃ e ∈ r.errors, kind e.cause

def Entries.Record (kind : Cause → Prop) (es : Entries Report) : Prop :=
  ∃ q r, es.get? q = some r ∧ r.Records kind

def Recorded (kind : Cause → Prop) (outcome : Report × Workspace) : Prop :=
  outcome.1.Records kind ∨ outcome.2.reports.Record kind

section
variable (kind : Cause → Prop) [DecidablePred kind]

instance (r : Report) : Decidable (r.Records kind) :=
  inferInstanceAs (Decidable (∃ e ∈ r.errors, kind e.cause))

instance (es : Entries Report) : Decidable (es.Record kind) :=
  decidable_of_iff (∃ q ∈ es.names, ∃ r ∈ es.get? q, r.Records kind)
    ⟨fun ⟨q, _, r, hq, hr⟩ => ⟨q, r, hq, hr⟩,
      fun ⟨q, r, hq, hr⟩ => ⟨q, Entries.mem_names_iff.mpr (by simp [hq]), r, hq, hr⟩⟩

instance (outcome : Report × Workspace) : Decidable (Recorded kind outcome) :=
  inferInstanceAs (Decidable (_ ∨ _))

end

theorem Report.Records.cyclic_or_tooDeep {r : Report} (h : r.Records Cause.IsSuspicious) :
    r.Records Cause.IsCyclic ∨ r.Records Cause.IsTooDeep := by
  obtain ⟨e, he, hc | hd⟩ := h
  · exact Or.inl ⟨e, he, hc⟩
  · exact Or.inr ⟨e, he, hd⟩

theorem Recorded.cyclic_or_tooDeep {outcome : Report × Workspace}
    (h : Recorded Cause.IsSuspicious outcome) :
    Recorded Cause.IsCyclic outcome ∨ Recorded Cause.IsTooDeep outcome := by
  rcases h with h | ⟨q, r, hq, h⟩
  · exact h.cyclic_or_tooDeep.imp Or.inl Or.inl
  · exact h.cyclic_or_tooDeep.imp (fun hc => Or.inr ⟨q, r, hq, hc⟩) fun hd => Or.inr ⟨q, r, hq, hd⟩

theorem Entries.Record.grows {kind : Cause → Prop} {stack : List String} {es es' : Entries Report}
    (h : es.Record kind) (hg : Entries.Grows stack es es') : es'.Record kind := by
  obtain ⟨q, r, hq, hr⟩ := h
  exact ⟨q, r, hg.kept q r hq, hr⟩

/-! ## What is known of finished files -/

section
variable (P : Program)

structure Reliable (es : Entries Report) : Prop where
  sound : es.Record Cause.IsCyclic → P.HasCycle
  complete : ∀ q r, es.get? q = some r → es.Record Cause.IsSuspicious ∨ P.Grounded q

structure Exploring (q : String) (stack : List String) (o : Outline) : Prop where
  path : o.path = q
  importStack : o.importStack = stack
  sources : o.sources = P.sources
  errors : (∃ e ∈ o.errors, e.cause.IsCyclic) → P.HasCycle
  reports : Reliable P o.reports

def Explored (q requested : String) (o : Outline) : Prop :=
  ∀ b, Path.target? q requested = some b →
    (∃ e ∈ o.errors, e.cause.IsSuspicious) ∨ o.reports.Record Cause.IsSuspicious ∨ P.Grounded b

/-- The stack is a chain of imports from the program to `q`, and `n` levels suffice above it. -/
structure Situation (F : Finset String) (q : String) (stack : List String) (n : Nat) : Prop where
  reached : ∀ a ∈ stack, ReflTransGen P.Imports P.path a
  reaches : ∀ a ∈ stack, ReflTransGen P.Imports a q
  entry : P.path ∈ stack
  self : q ∈ stack
  room : Room F stack n

end

section
variable {P : Program}

theorem Reliable.nil : Reliable P [] where
  sound := by
    rintro ⟨q, r, hq, -⟩
    cases hq
  complete := by
    intro q r hq
    cases hq

/-- A report may be added if it keeps what is known of finished files. -/
theorem Reliable.insert {es : Entries Report} {path : String} {r : Report} (h : Reliable P es)
    (hnew : es.get? path = none) (hsound : r.Records Cause.IsCyclic → P.HasCycle)
    (hcomplete : r.Records Cause.IsSuspicious ∨ es.Record Cause.IsSuspicious ∨ P.Grounded path) :
    Reliable P (es.insert path r) := by
  have hget : (es.insert path r).get? path = some r := by
    rw [Entries.get?_insert, if_pos rfl]
  have hgrows : Entries.Grows [] es (es.insert path r) :=
    Entries.Grows.refl.insert hnew (by simp) r
  constructor
  · rintro ⟨q, r', hq, hr'⟩
    rw [Entries.get?_insert] at hq
    split at hq
    · cases hq
      exact hsound hr'
    · exact h.sound ⟨q, r', hq, hr'⟩
  · intro q r' hq
    rw [Entries.get?_insert] at hq
    split at hq
    · rename_i heq
      subst heq
      rcases hcomplete with hr | hes | hg
      · exact Or.inl ⟨path, r, hget, hr⟩
      · exact Or.inl (hes.grows hgrows)
      · exact Or.inr hg
    · rcases h.complete q r' hq with hes | hg
      · exact Or.inl (hes.grows hgrows)
      · exact Or.inr hg

theorem Explored.extends {q requested : String} {o o' : Outline} (h : Explored P q requested o)
    (he : o.Extends o') : Explored P q requested o' := by
  intro b hb
  rcases h b hb with ⟨e, he', hs⟩ | hr | hg
  · exact Or.inl ⟨e, he.errors.subset he', hs⟩
  · exact Or.inr (Or.inl (hr.grows he.reports))
  · exact Or.inr (Or.inr hg)

theorem Exploring.report {q : String} {stack : List String} {o : Outline}
    (h : Exploring P q stack o) (cause : Cause) (span : Span)
    (hcause : cause.IsCyclic → P.HasCycle) : Exploring P q stack (o.report cause span) where
  path := h.path
  importStack := h.importStack
  sources := h.sources
  reports := h.reports
  errors := by
    rintro ⟨e, he, hc⟩
    rcases List.mem_append.mp he with he | he
    · exact h.errors ⟨e, he, hc⟩
    · rw [List.mem_singleton.mp he] at hc
      exact hcause hc

theorem exploring_walkable (q : String) (stack : List String) :
    Walkable (Exploring P q stack) (Explored P q) where
  report o cause span hcause h :=
    ⟨h.report cause span fun hc => absurd hc (Cause.not_isCyclic_of_ne hcause.1),
      fun _ hV => hV.extends (.report cause span)⟩
  tooDeep o limit span _ requested := by
    intro b _
    refine Or.inl ⟨⟨.nestingTooDeep limit, span.start⟩, ?_, Or.inr trivial⟩
    exact List.mem_append_right _ (List.mem_singleton_self _)

/-! ## Imports -/

structure Finished (P : Program) (b : String) (ws : Workspace) (r : Report) (ws' : Workspace) :
    Prop where
  sources : ws'.sources = ws.sources
  grows : Entries.Grows [b] ws.reports ws'.reports
  reliable : Reliable P ws'.reports
  sound : r.Records Cause.IsCyclic → P.HasCycle
  complete : r.Records Cause.IsSuspicious ∨ ws'.reports.Record Cause.IsSuspicious ∨ P.Grounded b

theorem Sources.parse?_syntactic {S : Sources} {path : String} {e : Error}
    (h : S.parse? path = some (.error e)) : e.cause.Syntactic := by
  unfold Sources.parse? at h
  rw [Option.map_eq_some_iff] at h
  obtain ⟨text, -, htext⟩ := h
  exact parseSource_syntactic htext

theorem Program.grounded_of_parse? {b : String} {parsed : Option (Except Error Stmt)}
    (hb : b ≠ P.path) (h : P.sources.parse? b = parsed)
    (hparsed : ∀ tree, parsed ≠ some (.ok tree)) : P.Grounded b := by
  apply grounded_of_tree?_eq_none
  rw [tree?_of_ne hb]
  cases ht : P.sources.tree? b with
  | none => rfl
  | some tree =>
    rw [Sources.tree?_eq_some, h] at ht
    exact absurd ht (hparsed tree)

section
variable (check : Stmt → Workspace → Option Report × Workspace) {b : String} {ws : Workspace}

theorem Workspace.report?_explores (hs : ws.sources = P.sources) (hr : Reliable P ws.reports)
    (hb : b ≠ P.path)
    (hcheck : ∀ tree, P.tree? b = some tree → ∃ r ws',
      check tree (ws.opening b) = (some r, ws') ∧ Finished P b (ws.opening b) r ws') :
    (ws.report? check b).2.sources = P.sources ∧ Reliable P (ws.report? check b).2.reports ∧
      ((ws.report? check b).2.reports.Record Cause.IsSuspicious ∨ P.Grounded b) := by
  have htree : ∀ tree, ws.sources.parse? b = some (.ok tree) → P.tree? b = some tree := by
    intro tree hparse
    rw [Program.tree?_of_ne hb, Sources.tree?_eq_some, ← hs]
    exact hparse
  have hcases := reported_report? check b ws
  generalize ws.report? check b = o at hcases ⊢
  cases hcases with
  | kept hget => exact ⟨hs, hr, hr.complete b _ hget⟩
  | missing _ hparse =>
    rw [hs] at hparse
    exact ⟨hs, hr, Or.inr (Program.grounded_of_parse? hb hparse (by simp))⟩
  | unparsable hget hparse =>
    rw [hs] at hparse
    have hgrounded : P.Grounded b := Program.grounded_of_parse? hb hparse (by simp)
    refine ⟨hs, hr.insert hget ?_ (Or.inr (Or.inr hgrounded)), Or.inr hgrounded⟩
    rintro ⟨e', he', hc⟩
    rw [List.mem_singleton.mp he'] at hc
    exact absurd hc (Cause.not_isCyclic_of_syntactic (Sources.parse?_syntactic hparse))
  | unopened _ hparse hrun =>
    obtain ⟨r, ws', hrun', -⟩ := hcheck _ (htree _ hparse)
    rw [hrun] at hrun'
    cases hrun'
  | @opened tree r ws' hget hparse hrun =>
    obtain ⟨_, _, hrun', hfin⟩ := hcheck tree (htree tree hparse)
    rw [hrun] at hrun'
    cases hrun'
    have hnew : ws'.reports.get? b = none := by
      rw [hfin.grows.unfinished b (List.mem_singleton_self b)]
      exact hget
    have hrel : Reliable P (ws'.reports.insert b r) :=
      hfin.reliable.insert hnew hfin.sound hfin.complete
    refine ⟨hfin.sources.trans hs, hrel, hrel.complete b r ?_⟩
    rw [Entries.get?_insert, if_pos rfl]

end

section
variable {F : Finset String} {q : String} {stack : List String} {n : Nat}

/-- At first only the program is open. -/
theorem Situation.start (h : F.card ≤ n) : Situation P F P.path ([] ++ [P.path]) n := by
  have hroom : Room F [P.path] n := Room.of_card_le h [P.path]
  constructor <;> simp [ReflTransGen.refl, hroom]

theorem Situation.hasCycle (sit : Situation P F q stack n) {b : String} (hb : b ∈ stack)
    (hqb : P.Imports q b) : P.HasCycle :=
  ⟨b, sit.reached b hb, TransGen.tail' (sit.reaches b hb) hqb⟩

theorem Situation.reach (sit : Situation P F q stack n) {b : String} (hqb : P.Imports q b) :
    ReflTransGen P.Imports P.path b :=
  (sit.reached q sit.self).tail hqb

theorem Situation.mem (sit : Situation P F q stack n) (hF : P.Covered F) {b : String} {tree : Stmt}
    (hb : b ∉ stack) (hqb : P.Imports q b) (htree : P.tree? b = some tree) : b ∈ F := by
  have hpath : b ≠ P.path := fun h => hb (h ▸ sit.entry)
  rw [Program.tree?_of_ne hpath, Sources.tree?_eq_some] at htree
  exact hF b (sit.reach hqb) (Sources.isSome_text? htree)

theorem Situation.open (sit : Situation P F q stack (n + 1)) (hF : P.Covered F)
    {b : String} {tree : Stmt} (hb : b ∉ stack) (hqb : P.Imports q b)
    (htree : P.tree? b = some tree) : Situation P F b (stack ++ [b]) n := by
  obtain ⟨m, hm, hroom⟩ := sit.room.open (sit.mem hF hb hqb htree) hb
  obtain rfl : n = m := by omega
  constructor
  · intro a ha
    rcases List.mem_append.mp ha with ha | ha
    · exact sit.reached a ha
    · rw [List.mem_singleton.mp ha]
      exact sit.reach hqb
  · intro a ha
    rcases List.mem_append.mp ha with ha | ha
    · exact (sit.reaches a ha).tail hqb
    · rw [List.mem_singleton.mp ha]
  · exact List.mem_append_left _ sit.entry
  · exact List.mem_append_right _ (List.mem_singleton_self b)
  · exact hroom

/-- Without levels left, every file that can be opened is on the stack. -/
theorem Situation.mem_of_tree? (sit : Situation P F q stack 0) (hF : P.Covered F) {b : String}
    {tree : Stmt} (hqb : P.Imports q b) (htree : P.tree? b = some tree) : b ∈ stack := by
  by_contra hb
  obtain ⟨m, hm, -⟩ := sit.room.open (sit.mem hF hb hqb htree) hb
  cases hm

theorem importWith_explores (sit : Situation P F q stack n) {tree : Stmt}
    (htree : P.tree? q = some tree)
    {open? : Context → String → Stmt → Workspace → Option Report × Workspace} (hopens : Opens open?)
    (hopen : ∀ (c : Context) (b : String) (tree : Stmt) (ws : Workspace), c.importStack = stack →
      b ∉ stack → P.Imports q b → P.tree? b = some tree → ws.sources = P.sources →
      Reliable P ws.reports → ∃ r ws', open? c b tree ws = (some r, ws') ∧ Finished P b ws r ws') :
    Answers (importWith open?) (Exploring P q stack) (Explored P q) tree.imports := by
  have himports : ∀ requested ∈ tree.imports, ∀ b, Path.target? q requested = some b →
      P.Imports q b := fun requested hrequested b ht =>
    ⟨tree, htree, Stmt.mem_importedFiles.mpr ⟨requested, hrequested, ht⟩⟩
  refine importWith_answers hopens (exploring_walkable q stack) (fun r _ _ hV he => hV.extends he)
    (fun o hI => ⟨hI.path, hI.importStack⟩) (fun r o ht b hb => by simp [ht] at hb) ?_ ?_
  · -- The import closes a cycle on the stack.
    intro requested hrequested b hb ht o span hI
    refine ⟨hI.report _ span fun _ => sit.hasCycle hb (himports requested hrequested b ht), ?_⟩
    refine fun _ _ => Or.inl ⟨⟨.cyclicImport b, span.start⟩, ?_, Or.inl trivial⟩
    exact List.mem_append_right _ (List.mem_singleton_self _)
  · intro requested hrequested b hb ht s hI
    have hqb := himports requested hrequested b ht
    have hbpath : b ≠ P.path := fun h => hb (h ▸ sit.entry)
    obtain ⟨hs', hr', hdone⟩ := Workspace.report?_explores (open? s.context b) hI.sources
      hI.reports hbpath fun tree' htree' =>
        hopen s.context b tree' _ hI.importStack hb hqb htree' hI.sources hI.reports
    refine ⟨⟨hI.path, hI.importStack, hs', hI.errors, hr'⟩, fun b' hb' => ?_⟩
    rw [ht] at hb'
    cases hb'
    exact Or.inr hdone

/-! ## Files -/

theorem checkFile_finishes {tree : Stmt} (htree : P.tree? q = some tree)
    (hanswers : Answers (importer n) (Exploring P q (stack ++ [q])) (Explored P q) tree.imports)
    (env : Environment) (ws : Workspace) (hs : ws.sources = P.sources)
    (hr : Reliable P ws.reports) :
    Finished P q ws (checkFile (importer n) env q stack tree ws).1
      (checkFile (importer n) env q stack tree ws).2 := by
  let s := Checking.start env q stack ws
  have hstart : Exploring P q (stack ++ [q]) s.outline :=
    ⟨rfl, rfl, hs, fun ⟨_, he, _⟩ => absurd he List.not_mem_nil, hr⟩
  obtain ⟨hI, -, hV⟩ :=
    Stmt.check_walks (exploring_walkable q (stack ++ [q])) tree hanswers s hstart
  obtain ⟨hsources, hgrows⟩ := checkFile_grows (importer_extends n) env q stack tree ws
  refine ⟨hsources, hgrows.mono (List.subset_append_right _ _), hI.reports, hI.errors, ?_⟩
  by_cases herrors : ∃ e ∈ (tree.check (importer n) s).2.outline.errors, e.cause.IsSuspicious
  · exact Or.inl herrors
  by_cases hreports : (tree.check (importer n) s).2.outline.reports.Record Cause.IsSuspicious
  · exact Or.inr (Or.inl hreports)
  refine Or.inr (Or.inr (Program.grounded_of_importedFiles htree fun b hb => ?_))
  obtain ⟨requested, hrequested, ht⟩ := Stmt.mem_importedFiles.mp hb
  rcases hV requested hrequested b ht with h | h | h
  · exact absurd h herrors
  · exact absurd h hreports
  · exact h

end

theorem importer_explores {F : Finset String} (hF : P.Covered F) :
    ∀ (n : Nat) {q : String} {stack : List String} {tree : Stmt}, Situation P F q stack n →
      P.tree? q = some tree →
      Answers (importer n) (Exploring P q stack) (Explored P q) tree.imports
  | 0, q, stack, tree, sit, htree => by
    rw [importer_eq]
    apply importWith_explores sit htree (opener_opens 0)
    intro c b tree' ws _ hb hqb htree' _ _
    exact absurd (sit.mem_of_tree? hF hqb htree') hb
  | n + 1, q, stack, tree, sit, htree => by
    rw [importer_eq]
    apply importWith_explores sit htree (opener_opens (n + 1))
    intro c b tree' ws hstack hb hqb htree' hs hr
    have sit' := sit.open hF hb hqb htree'
    have hanswers := importer_explores hF n sit' htree'
    rw [← hstack] at hanswers
    exact ⟨_, _, rfl, checkFile_finishes htree' hanswers c.environment ws hs hr⟩

end

/-! ## Programs -/

theorem check_finished (files : Entries String) (env : Environment) (path : String) (tree : Stmt) :
    let P : Program := ⟨.ofFiles files, Path.normalize path, tree⟩
    let ws := Workspace.ofSources P.sources
    Finished P P.path ws.startTrail (ws.check env path tree).1 (ws.check env path tree).2 := by
  intro P ws
  have hF : P.sources.Covers files.names.toFinset := Sources.ofFiles_covers files
  have hanswers := importer_explores hF.covered _ (.start (Sources.card_names_le files))
    Program.tree?_path
  exact checkFile_finishes Program.tree?_path hanswers env ws.startTrail rfl .nil

theorem not_hasCycle_of_not_recorded (env : Environment) {files : Entries String} {path : String}
    {tree : Stmt}
    (h : ¬ Recorded Cause.IsSuspicious
      ((Workspace.ofSources (.ofFiles files)).check env path tree)) :
    ¬ Program.HasCycle ⟨.ofFiles files, Path.normalize path, tree⟩ := by
  have hfin := check_finished files env path tree
  rcases or_assoc.mpr hfin.complete with hr | hg
  · exact absurd hr h
  · exact Program.not_hasCycle_of_grounded hg

theorem cyclicImport_recorded_iff_hasCycle (files : Entries String) (env : Environment)
    (path : String) (tree : Stmt) :
    let outcome := (Workspace.ofSources (.ofFiles files)).check env path tree
    ¬ Recorded Cause.IsTooDeep outcome →
      (Recorded Cause.IsCyclic outcome ↔
        Program.HasCycle ⟨.ofFiles files, Path.normalize path, tree⟩) := by
  intro outcome hdeep
  have hfin := check_finished files env path tree
  constructor
  · rintro (h | h)
    · exact hfin.sound h
    · exact hfin.reliable.sound h
  · intro hcycle
    by_contra hcyclic
    have hclean : ¬ Recorded Cause.IsSuspicious outcome :=
      fun h => h.cyclic_or_tooDeep.elim hcyclic hdeep
    exact not_hasCycle_of_not_recorded env hclean hcycle

def importing (requested : List String) : Stmt :=
  .block (requested.map fun r => .expr (.importFile r default)) default

/-- Two files that import each other. -/
theorem mutual_import_recorded :
    let files := [("lib/b", "a = import(\"../a\")")]
    let tree := importing ["./lib/b"]
    let outcome := (Workspace.ofSources (.ofFiles files)).check ⟨[], .standard⟩ "a" tree
    ¬ Recorded Cause.IsTooDeep outcome ∧ Recorded Cause.IsCyclic outcome ∧
      Program.HasCycle ⟨.ofFiles files, Path.normalize "a", tree⟩ := by
  intro files tree outcome
  have hdeep : ¬ Recorded Cause.IsTooDeep outcome := by decide +kernel
  have hcyclic : Recorded Cause.IsCyclic outcome := by decide +kernel
  exact ⟨hdeep, hcyclic,
    (cyclicImport_recorded_iff_hasCycle files ⟨[], .standard⟩ "a" tree hdeep).mp hcyclic⟩

end ShapeCheck
