import ShapeCheck.Proofs.Congruence

/-!
# Checks as walks over the imports of a tree

Of the state of a check, imports read and change only its outline. `Walks I V rs m` says that `m`
keeps a property `I` of the outline, keeps every `V r` once it holds, and makes `V r` hold for each
request `r` of `rs`. The check of a tree walks over all imports that stand in the tree, as soon as
its importer does what is asked for each single one.
-/

namespace ShapeCheck

/-- The part of a state that matters to imports. -/
structure Outline where
  environment : Environment
  path : String
  importStack : List String
  errors : List Error
  sources : Sources
  reports : Entries Report
  journal : List Request

def Outline.report (cause : Cause) (span : Span) (o : Outline) : Outline :=
  { o with errors := o.errors ++ [⟨cause, span.start⟩] }

def Checking.outline (s : Checking) : Outline where
  environment := s.context.environment
  path := s.context.path
  importStack := s.context.importStack
  errors := s.context.errors
  sources := s.workspace.sources
  reports := s.workspace.reports
  journal := s.workspace.journal

theorem Checking.outline_report (s : Checking) (cause : Cause) (span : Span) :
    (s.move .changed (s.context.report cause span)).outline = s.outline.report cause span := rfl

/-- A local step is silent. -/
theorem Local.outline_run {α : Type} {f : Context → α × Context} (hf : Local f)
    (event : α → Event) (s : Checking) : (CheckM.onContext event f s).2.outline = s.outline := by
  rw [CheckM.onContext_run, hf.within_self]
  rfl

/-! ## Walks -/

section
variable (I : Outline → Prop) (V : String → Outline → Prop)

def Walks {α : Type} (rs : List String) (m : CheckM α) : Prop :=
  ∀ s : Checking, I s.outline →
    I (m s).2.outline ∧ (∀ r, V r s.outline → V r (m s).2.outline) ∧
      ∀ r ∈ rs, V r (m s).2.outline

/-- What a check needs to know of the properties that it keeps: they survive every error but one
about a cycle, and an error about nesting excuses every request that is not looked at. -/
structure Walkable : Prop where
  report : ∀ (o : Outline) (cause : Cause) (span : Span), cause.Arises →
    I o → I (o.report cause span) ∧ ∀ r, V r o → V r (o.report cause span)
  tooDeep : ∀ (o : Outline) (limit : Nat) (span : Span), I o → ∀ r,
    V r (o.report (.nestingTooDeep limit) span)

end

def Answers (imports : Importer) (I : Outline → Prop) (V : String → Outline → Prop)
    (rs : List String) : Prop :=
  ∀ r ∈ rs, ∀ span, Walks I V [r] (imports r span)

section
variable {I : Outline → Prop} {V : String → Outline → Prop} {α β : Type} {rs ss : List String}

namespace Walks

theorem of_outline {m : CheckM α} (h : ∀ s, (m s).2.outline = s.outline) : Walks I V [] m := by
  intro s hI
  rw [h s]
  exact ⟨hI, fun _ hV => hV, by simp⟩

theorem bind {m : CheckM α} {f : α → CheckM β} (hm : Walks I V rs m)
    (hf : ∀ a, Walks I V ss (f a)) : Walks I V (rs ++ ss) (m >>= f) := by
  intro s hI
  obtain ⟨hI₁, hk₁, hv₁⟩ := hm s hI
  obtain ⟨hI₂, hk₂, hv₂⟩ := hf (m s).1 (m s).2 hI₁
  rw [CheckM.bind_run]
  refine ⟨hI₂, fun r hr => hk₂ r (hk₁ r hr), fun r hr => ?_⟩
  rcases List.mem_append.mp hr with hr | hr
  · exact hk₂ r (hv₁ r hr)
  · exact hv₂ r hr

variable (hW : Walkable I V)
include hW

theorem report {cause : Cause} (span : Span) (h : cause.Arises) :
    Walks I V [] (CheckM.report cause span) := by
  intro s hI
  obtain ⟨hI', hk⟩ := hW.report s.outline cause span h hI
  rw [CheckM.report_run, Checking.outline_report]
  exact ⟨hI', hk, by simp⟩

theorem nested {check : CheckM Ty} (span : Span) (h : Walks I V rs check) :
    Walks I V rs (CheckM.nested span check) := by
  intro s hI
  cases he : s.context.enter? with
  | none =>
    rw [CheckM.nested_none he]
    obtain ⟨hI', hk⟩ := hW.report s.outline
      (.nestingTooDeep s.context.environment.config.maxDepth) span (by simp) hI
    exact ⟨hI', hk, fun r _ => hW.tooDeep s.outline _ span hI r⟩
  | some inner =>
    -- Entering and leaving only count levels, which the outline does not show.
    have hin : (s.move .changed inner).outline = s.outline := by
      rw [CheckM.enter?_eq_some he]
      rfl
    rw [CheckM.nested_some he]
    rw [← hin] at hI ⊢
    exact h _ hI

theorem congruence : Congruence fun _ rs m _ => Walks I V rs m where
  pure _ := of_outline fun _ => rfl
  bind := bind
  read _ := of_outline fun _ => rfl
  step event hf _ := of_outline (hf.outline_run event)
  report := report hW
  nested := nested hW

end Walks

theorem Stmt.check_walks (hW : Walkable I V) {imports : Importer} (tree : Stmt)
    (h : Answers imports I V tree.imports) : Walks I V tree.imports (tree.check imports) := by
  have himports : Importers (fun _ rs m _ => Walks I V rs m) imports imports tree.imports := h
  exact Stmt.check_congr (Walks.congruence hW) tree himports

end

end ShapeCheck
