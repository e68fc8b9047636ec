import ShapeCheck.Proofs.Walk

/-!
# Checks only add

A check never takes back an error and never replaces a report. The files on the import stack are
being checked, so no report on them is added either.
-/

namespace ShapeCheck

structure Entries.Grows (stack : List String) (es es' : Entries Report) : Prop where
  kept : ∀ q r, es.get? q = some r → es'.get? q = some r
  unfinished : ∀ q ∈ stack, es'.get? q = es.get? q

namespace Entries.Grows

variable {stack : List String} {es es₁ es₂ : Entries Report}

theorem refl : Grows stack es es :=
  ⟨fun _ _ h => h, fun _ _ => rfl⟩

theorem trans (h₁ : Grows stack es es₁) (h₂ : Grows stack es₁ es₂) : Grows stack es es₂ :=
  ⟨fun q r h => h₂.kept q r (h₁.kept q r h),
    fun q hq => (h₂.unfinished q hq).trans (h₁.unfinished q hq)⟩

theorem mono {stack' : List String} (h : Grows stack es es₁) (hs : stack' ⊆ stack) :
    Grows stack' es es₁ :=
  ⟨h.kept, fun q hq => h.unfinished q (hs hq)⟩

/-- The report on a file is added when the file leaves the stack. -/
theorem insert {path : String} (h : Grows (stack ++ [path]) es es₁) (hnew : es.get? path = none)
    (hpath : path ∉ stack) (r : Report) : Grows stack es (es₁.insert path r) := by
  constructor
  · intro q r' hq
    rw [Entries.get?_insert]
    by_cases hqp : path = q
    · subst hqp
      rw [hnew] at hq
      cases hq
    · rw [if_neg hqp]
      exact h.kept q r' hq
  · intro q hq
    have hqp : path ≠ q := fun e => hpath (e ▸ hq)
    rw [Entries.get?_insert, if_neg hqp]
    exact h.unfinished q (List.mem_append_left _ hq)

end Entries.Grows

structure Outline.Extends (o o' : Outline) : Prop where
  environment : o'.environment = o.environment
  path : o'.path = o.path
  importStack : o'.importStack = o.importStack
  sources : o'.sources = o.sources
  errors : o.errors <+: o'.errors
  reports : Entries.Grows o.importStack o.reports o'.reports

namespace Outline.Extends

variable {o o₁ o₂ : Outline}

theorem refl : Extends o o :=
  ⟨rfl, rfl, rfl, rfl, List.prefix_rfl, .refl⟩

theorem trans (h₁ : Extends o o₁) (h₂ : Extends o₁ o₂) : Extends o o₂ where
  environment := h₂.environment.trans h₁.environment
  path := h₂.path.trans h₁.path
  importStack := h₂.importStack.trans h₁.importStack
  sources := h₂.sources.trans h₁.sources
  errors := h₁.errors.trans h₂.errors
  reports := h₁.reports.trans (h₁.importStack ▸ h₂.reports)

theorem report (cause : Cause) (span : Span) : Extends o (o.report cause span) :=
  ⟨rfl, rfl, rfl, rfl, List.prefix_append _ _, .refl⟩

theorem walkable (o : Outline) : Walkable (Extends o) fun _ _ => True where
  report _ cause span _ h := ⟨h.trans (report cause span), fun _ _ => trivial⟩
  tooDeep _ _ _ _ _ := trivial

end Outline.Extends

/-! ## Imports and files -/

/-- Opening a file leaves the sources, keeps the reports and adds none on the files of the stack or
on itself. -/
def Opens (open? : Context → String → Stmt → Workspace → Option Report × Workspace) : Prop :=
  ∀ (c : Context) (path : String) (tree : Stmt) (ws : Workspace),
    (open? c path tree ws).2.sources = ws.sources ∧
      Entries.Grows (c.importStack ++ [path]) ws.reports (open? c path tree ws).2.reports

section
variable {open? : Context → String → Stmt → Workspace → Option Report × Workspace}
variable (hopen : Opens open?)
include hopen

theorem Workspace.report?_grows {c : Context} {path : String} (hpath : path ∉ c.importStack)
    (ws : Workspace) :
    (ws.report? (open? c path) path).2.sources = ws.sources ∧
      Entries.Grows c.importStack ws.reports (ws.report? (open? c path) path).2.reports := by
  have hcases := Workspace.reported_report? (open? c path) path ws
  generalize ws.report? (open? c path) path = o at hcases ⊢
  cases hcases with
  | kept _ => exact ⟨rfl, .refl⟩
  | missing _ _ => exact ⟨rfl, .refl⟩
  | unparsable hget _ => exact ⟨rfl, Entries.Grows.refl.insert hget hpath _⟩
  | unopened _ _ hrun =>
    obtain ⟨hs, hg⟩ := hopen c path _ (ws.opening path)
    rw [hrun] at hs hg
    exact ⟨hs, hg.mono (List.subset_append_left _ _)⟩
  | opened hget _ hrun =>
    obtain ⟨hs, hg⟩ := hopen c path _ (ws.opening path)
    rw [hrun] at hs hg
    exact ⟨hs, hg.insert hget hpath _⟩

theorem importWith_extends (requested : String) (span : Span) (s : Checking) :
    s.outline.Extends (importWith open? requested span s).2.outline := by
  cases ht : Path.target? s.context.path requested with
  | none =>
    rw [importWith_invalid open? span ht]
    exact .report _ _
  | some b =>
    by_cases hb : b ∈ s.context.importStack
    · rw [importWith_cyclic open? span ht hb]
      exact .report _ _
    · obtain ⟨hs, hg⟩ := Workspace.report?_grows hopen hb s.workspace
      have h : s.outline.Extends
          (⟨s.context, (s.workspace.report? (open? s.context b) b).2⟩ : Checking).outline :=
        ⟨rfl, rfl, rfl, hs, List.prefix_rfl, hg⟩
      rw [importWith_report open? span ht hb]
      have hwalks := (Walks.congruence (Outline.Extends.walkable s.outline)).checkReport b span
      exact (hwalks _ _ h).1

/-- An importer does what a walk asks for if each import does that closes a cycle on the stack, and
each that the workspace answers. -/
theorem importWith_answers {I : Outline → Prop} {V : String → Outline → Prop} {q : String}
    {stack rs : List String} (hW : Walkable I V)
    (hV : ∀ r {o o' : Outline}, V r o → o.Extends o' → V r o')
    (hfile : ∀ o, I o → o.path = q ∧ o.importStack = stack)
    (hinvalid : ∀ r o, Path.target? q r = none → V r o)
    (hcyclic : ∀ r ∈ rs, ∀ b ∈ stack, Path.target? q r = some b → ∀ o span, I o →
      I (o.report (.cyclicImport b) span) ∧ V r (o.report (.cyclicImport b) span))
    (hreport : ∀ r ∈ rs, ∀ b ∉ stack, Path.target? q r = some b → ∀ s : Checking, I s.outline →
      let s' : Checking := ⟨s.context, (s.workspace.report? (open? s.context b) b).2⟩
      I s'.outline ∧ V r s'.outline) :
    Answers (importWith open?) I V rs := by
  intro requested hrequested span s hI
  have hext := importWith_extends hopen requested span s
  suffices h : I (importWith open? requested span s).2.outline ∧
      V requested (importWith open? requested span s).2.outline by
    refine ⟨h.1, fun r hr => hV r hr hext, fun r hr => ?_⟩
    rw [List.mem_singleton.mp hr]
    exact h.2
  obtain ⟨hpath, hstack⟩ := hfile s.outline hI
  change s.context.path = q at hpath
  change s.context.importStack = stack at hstack
  cases ht : Path.target? q requested with
  | none =>
    refine ⟨?_, hinvalid requested _ ht⟩
    rw [importWith_invalid open? span (hpath ▸ ht)]
    exact (hW.report s.outline (.invalidImportPath requested) span (by simp) hI).1
  | some b =>
    by_cases hb : b ∈ stack
    · rw [importWith_cyclic open? span (hpath ▸ ht) (hstack ▸ hb)]
      exact hcyclic requested hrequested b hb ht s.outline span hI
    · obtain ⟨hI', hV'⟩ := hreport requested hrequested b hb ht s hI
      rw [importWith_report open? span (hpath ▸ ht) (hstack ▸ hb)]
      obtain ⟨hI'', hkept, -⟩ := (Walks.congruence hW).checkReport b span _ _ hI'
      exact ⟨hI'', hkept requested hV'⟩

end

theorem checkFile_grows {imports : Importer}
    (himports : ∀ requested span (s : Checking),
      s.outline.Extends (imports requested span s).2.outline)
    (env : Environment) (path : String) (stack : List String) (tree : Stmt) (ws : Workspace) :
    (checkFile imports env path stack tree ws).2.sources = ws.sources ∧
      Entries.Grows (stack ++ [path]) ws.reports
        (checkFile imports env path stack tree ws).2.reports := by
  let s := Checking.start env path stack ws
  have hanswers : Answers imports (s.outline.Extends) (fun _ _ => True) tree.imports := by
    intro r _ span s' hs'
    exact ⟨hs'.trans (himports r span s'), fun _ _ => trivial, fun _ _ => trivial⟩
  have h := (Stmt.check_walks (Outline.Extends.walkable s.outline) tree hanswers s .refl).1
  exact ⟨h.sources, h.reports⟩

theorem opener_opens : ∀ n : Nat, Opens (opener n)
  | 0 => fun _ _ _ _ => ⟨rfl, .refl⟩
  | n + 1 => by
    intro c path tree ws
    rw [opener_succ]
    refine checkFile_grows (fun requested span s => ?_) c.environment path c.importStack tree ws
    rw [importer_eq]
    exact importWith_extends (opener_opens n) requested span s

theorem importer_extends (n : Nat) (requested : String) (span : Span) (s : Checking) :
    s.outline.Extends (importer n requested span s).2.outline := by
  rw [importer_eq]
  exact importWith_extends (opener_opens n) requested span s

end ShapeCheck
