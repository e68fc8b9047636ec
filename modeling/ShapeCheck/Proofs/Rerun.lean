import ShapeCheck.Proofs.Once

/-!
# A check that is run again

The reports that a check leaves are all that it was told about other files: each import was answered
by a report that is never replaced, or by none because there is no such file. So a second check finds
the same answers in the reports, file by file and without opening any, and takes the same steps.
-/

namespace ShapeCheck

/-! ## Both checks step by step -/

/-- Requests that change nothing and open no file. -/
structure Idle (S : Sources) (requests : List Request) : Prop where
  loads : ∀ q, .load q ∈ requests → S.text? q = none
  saves : ∀ q, .save q ∉ requests

namespace Idle

variable {S : Sources} {requests : List Request} {b : String}

theorem nil : Idle S [] :=
  ⟨fun _ h => absurd h List.not_mem_nil, fun _ => List.not_mem_nil⟩

theorem lookup (h : Idle S requests) : Idle S (.lookup b :: requests) where
  loads q hq := h.loads q (by simpa using hq)
  saves q := by simpa using h.saves q

theorem load (h : Idle S requests) (hb : S.text? b = none) : Idle S (.load b :: requests) where
  loads q hq := by
    rcases List.mem_cons.mp hq with e | hq
    · cases e
      exact hb
    · exact h.loads q hq
  saves q := by simpa using h.saves q

end Idle

def Workspace.Below (final ws : Workspace) : Prop :=
  ∀ q r, ws.reports.get? q = some r → final.reports.get? q = some r

section
variable (start : Checking) (final : Workspace)

/-- A state of the first check, which began at `start`, and the state of the second check at the same
place. The second check found the workspace `final`. -/
structure Abreast (s₁ s₂ : Checking) : Prop where
  since : start.outline.Extends s₁.outline
  context : s₂.context = s₁.context
  sources : s₂.workspace.sources = start.workspace.sources
  reports : s₂.workspace.reports = final.reports
  requests : ∃ requests, s₂.workspace.journal = requests ++ final.journal ∧
    Idle start.workspace.sources requests

/-- As long as the first check stays below `final`, the second one does the same. -/
def Repeats (α : Type) (_ : List String) (m₁ m₂ : CheckM α) : Prop :=
  (∀ s : Checking, s.outline.Extends (m₁ s).2.outline) ∧
    ∀ s₁ s₂, Abreast start final s₁ s₂ → final.Below (m₁ s₁).2.workspace →
      (m₂ s₂).1 = (m₁ s₁).1 ∧ Abreast start final (m₁ s₁).2 (m₂ s₂).2

end

section
variable {start : Checking} {final : Workspace}

theorem Workspace.Below.of_extends {s s' : Checking} (h : final.Below s'.workspace)
    (he : s.outline.Extends s'.outline) : final.Below s.workspace :=
  fun q r hr => h q r (he.reports.kept q r hr)

theorem Abreast.move {s₁ s₂ : Checking} (h : Abreast start final s₁ s₂) {c : Context}
    (event : Event) (he : s₁.outline.Extends (s₁.move event c).outline) :
    Abreast start final (s₁.move event c) (s₂.move event c) :=
  ⟨h.since.trans he, rfl, h.sources, h.reports, h.requests⟩

namespace Repeats

theorem step {α : Type} {f : Context → α × Context} (event : α → Event)
    (hf : ∀ s : Checking, s.outline.Extends (CheckM.onContext event f s).2.outline) :
    Repeats start final α [] (CheckM.onContext event f) (CheckM.onContext event f) := by
  refine ⟨hf, fun s₁ s₂ h _ => ?_⟩
  have he := hf s₁
  rw [CheckM.onContext_run] at he
  rw [CheckM.onContext_run, CheckM.onContext_run, h.context]
  exact ⟨rfl, h.move _ he⟩

theorem report (cause : Cause) (span : Span) :
    Repeats start final Unit [] (CheckM.report cause span) (CheckM.report cause span) :=
  step (f := fun c => ((), c.report cause span)) (fun _ => .changed) fun _ => .report cause span

theorem nested {rs : List String} {m₁ m₂ : CheckM Ty} (span : Span)
    (hm : Repeats start final Ty rs m₁ m₂) :
    Repeats start final Ty rs (CheckM.nested span m₁) (CheckM.nested span m₂) := by
  constructor
  · intro s
    have hanswer : Walks s.outline.Extends (fun _ _ => True) [] m₁ :=
      fun s' hs' => ⟨hs'.trans (hm.1 s'), fun _ _ => trivial, fun _ _ => trivial⟩
    exact (Walks.nested (Outline.Extends.walkable s.outline) span hanswer s .refl).1
  · intro s₁ s₂ h hbelow
    cases he : s₁.context.enter? with
    | none =>
      rw [CheckM.nested_none he, CheckM.nested_none (h.context ▸ he), h.context]
      exact ⟨rfl, (h.move .changed (.report _ span)).move _ .refl⟩
    | some inner =>
      have hinner : s₁.outline.Extends (s₁.move .changed inner).outline := by
        obtain rfl := CheckM.enter?_eq_some he
        exact .refl
      rw [CheckM.nested_some he] at hbelow ⊢
      rw [CheckM.nested_some (h.context ▸ he)]
      obtain ⟨hvalue, h'⟩ := hm.2 _ _ (h.move .changed hinner) hbelow
      dsimp only
      rw [hvalue, h'.context]
      have hleave := h'.move (c := (m₁ (s₁.move .changed inner)).2.context.leave) .changed .refl
      exact ⟨rfl, hleave.move _ .refl⟩

theorem congruence : Congruence (Repeats start final) where
  pure _ := ⟨fun _ => .refl, fun _ _ h _ => ⟨rfl, h⟩⟩
  bind {_ _ _ _ m₁ m₂ f₁ f₂} hm hf := by
    refine ⟨fun s => (hm.1 s).trans ((hf _).1 _), fun s₁ s₂ h hbelow => ?_⟩
    -- What the first part leaves is below `final` since the second part only adds to it.
    obtain ⟨hvalue, h'⟩ := hm.2 s₁ s₂ h (hbelow.of_extends ((hf (m₁ s₁).1).1 (m₁ s₁).2))
    rw [CheckM.bind_run, CheckM.bind_run, hvalue]
    exact (hf _).2 _ _ h' hbelow
  read f := by
    refine ⟨fun _ => .refl, fun s₁ s₂ h _ => ?_⟩
    rw [CheckM.read_run, CheckM.read_run, h.context]
    exact ⟨rfl, h⟩
  step event hf _ := step event fun s => by
    rw [hf.outline_run event s]
    exact .refl
  report span _ := report _ span
  nested := nested

end Repeats

end

/-! ## Imports -/

section
variable {start : Checking} {final : Workspace} {n : Nat}

/-- The first check is answered by the report on `b` that it leaves, or by none if there is no such
file and no report on it is left. -/
theorem Workspace.report?_of_below {check : Stmt → Workspace → Option Report × Workspace}
    {b : String} {ws : Workspace} (hbelow : final.Below (ws.report? check b).2)
    (hfound : ws.reports.get? b = none → ws.sources.text? b = none → final.reports.get? b = none)
    (hopens : ∀ tree, ws.sources.parse? b = some (.ok tree) → (check tree (ws.opening b)).1 ≠ none) :
    (ws.report? check b).1 = final.reports.get? b ∧
      (final.reports.get? b = none → ws.sources.text? b = none) := by
  have hkept : ∀ r, (ws.report? check b).1 = some r → final.reports.get? b = some r :=
    fun r hr => hbelow b r (get?_report? hr)
  have hcases := reported_report? check b ws
  generalize ws.report? check b = o at hcases hkept ⊢
  cases hcases with
  | kept _ => rw [hkept _ rfl]; simp
  | missing hget hparse =>
    have htext : ws.sources.text? b = none := Option.map_eq_none_iff.mp hparse
    exact ⟨(hfound hget htext).symm, fun _ => htext⟩
  | unparsable _ _ => rw [hkept _ rfl]; simp
  | @unopened tree _ _ hparse hrun =>
    have hnone := hopens tree hparse
    rw [hrun] at hnone
    exact absurd rfl hnone
  | opened _ _ _ => rw [hkept _ rfl]; simp

/-- The second check is answered without a look into any file. -/
theorem Abreast.report? {s₁ s₂ : Checking} (h : Abreast start final s₁ s₂) {b : String}
    (check : Stmt → Workspace → Option Report × Workspace)
    (hmissing : final.reports.get? b = none → start.workspace.sources.text? b = none) {ws : Workspace}
    (hws : start.outline.Extends (⟨s₁.context, ws⟩ : Checking).outline) :
    (s₂.workspace.report? check b).1 = final.reports.get? b ∧
      Abreast start final ⟨s₁.context, ws⟩ ⟨s₂.context, (s₂.workspace.report? check b).2⟩ := by
  obtain ⟨requests, hjournal, hidle⟩ := h.requests
  have hparse : final.reports.get? b = none → s₂.workspace.sources.parse? b = none := by
    intro hnone
    rw [h.sources, Sources.parse?, hmissing hnone]
    rfl
  have hcases := Workspace.reported_report? check b s₂.workspace
  generalize s₂.workspace.report? check b = o at hcases ⊢
  cases hcases with
  | kept hget =>
    rw [h.reports] at hget
    refine ⟨hget.symm, hws, h.context, h.sources, h.reports, .lookup b :: requests, ?_, hidle.lookup⟩
    simp [Workspace.record, hjournal]
  | missing hget _ =>
    rw [h.reports] at hget
    refine ⟨hget.symm, hws, h.context, h.sources, h.reports, .load b :: .lookup b :: requests, ?_,
      hidle.lookup.load (hmissing hget)⟩
    simp [Workspace.opening, Workspace.record, hjournal]
  | unparsable hget hp | unopened hget hp _ | opened hget hp _ =>
    rw [hparse (h.reports ▸ hget)] at hp
    cases hp

theorem importer_repeats
    (hfound : ∀ b, start.workspace.reports.get? b = none → start.workspace.sources.text? b = none →
      final.reports.get? b = none)
    (hlevels : ∀ b, (start.workspace.sources.text? b).isSome → n ≠ 0) (rs : List String) :
    Importers (Repeats start final) (importer n) (importer n) rs := by
  intro requested _ span
  have hfail : ∀ cause, Repeats start final Ty [] (CheckM.fail cause span) (CheckM.fail cause span) :=
    fun cause => Repeats.congruence.andThen (Repeats.report cause span)
      fun _ => Repeats.congruence.pure _
  refine ⟨importer_extends n requested span, fun s₁ s₂ h hbelow => ?_⟩
  have hcontext := h.context
  rw [importer_eq] at hbelow ⊢
  cases ht : Path.target? s₁.context.path requested with
  | none =>
    rw [importWith_invalid _ span ht] at hbelow ⊢
    rw [importWith_invalid _ span (hcontext ▸ ht)]
    exact (hfail _).2 s₁ s₂ h hbelow
  | some b =>
    by_cases hb : b ∈ s₁.context.importStack
    · rw [importWith_cyclic _ span ht hb] at hbelow ⊢
      rw [importWith_cyclic _ span (hcontext ▸ ht) (hcontext ▸ hb)]
      exact (hfail _).2 s₁ s₂ h hbelow
    · have hs : s₁.workspace.sources = start.workspace.sources := h.since.sources
      obtain ⟨hsources, hgrows⟩ := Workspace.report?_grows (opener_opens n) hb s₁.workspace
      have hws : start.outline.Extends
          (⟨s₁.context, (s₁.workspace.report? (opener n s₁.context b) b).2⟩ : Checking).outline :=
        h.since.trans ⟨rfl, rfl, rfl, hsources, List.prefix_rfl, hgrows⟩
      have hunknown : s₁.workspace.reports.get? b = none → start.workspace.reports.get? b = none := by
        intro hget
        cases hstart : start.workspace.reports.get? b with
        | none => rfl
        | some r => exact (Option.some_ne_none r (h.since.reports.kept b r hstart ▸ hget)).elim
      have hopens : ∀ tree, s₁.workspace.sources.parse? b = some (.ok tree) →
          (opener n s₁.context b tree (s₁.workspace.opening b)).1 ≠ none := by
        intro tree hparse
        obtain ⟨k, rfl⟩ := Nat.exists_eq_succ_of_ne_zero
          (hlevels b (hs ▸ Sources.isSome_text? hparse))
        simp [opener_succ]
      have hchecked := Repeats.congruence.checkReport (J := Repeats start final) b span
      rw [importWith_report _ span ht hb] at hbelow ⊢
      rw [importWith_report _ span (hcontext ▸ ht) (hcontext ▸ hb)]
      obtain ⟨hfirst, hmissing⟩ := Workspace.report?_of_below (hbelow.of_extends ((hchecked _).1 _))
        (fun hget htext => hfound b (hunknown hget) (hs ▸ htext)) hopens
      obtain ⟨hsecond, h'⟩ := h.report? (opener n s₂.context b) (hs ▸ hmissing) hws
      dsimp only at hbelow ⊢
      rw [hfirst] at hbelow ⊢
      rw [hsecond]
      exact (hchecked _).2 _ _ h' hbelow

end

/-! ## Programs -/

/-- **Checks can be run again.** A second check finds what the first one found. It changes no report
and opens no file, but may ask again for those that are not there. -/
theorem check_again (files : Entries String) (reports : Entries Report) (journal : List Request)
    (trail : List Moment) (env : Environment) (path : String) (tree : Stmt) :
    let ws : Workspace := ⟨.ofFiles files, reports, journal, trail⟩
    let first := ws.check env path tree
    let second := first.2.check env path tree
    second.1 = first.1 ∧ second.2.reports = first.2.reports ∧
      ∃ requests, second.2.journal = requests ++ first.2.journal ∧
        (∀ q, .load q ∈ requests → files.get? q = none) ∧ ∀ q, .save q ∉ requests := by
  intro ws first second
  let start := Checking.start env (Path.normalize path) [] ws.startTrail
  have hclosed : Closed ⟨ws.sources, Path.normalize path, tree⟩ ws (Path.normalize path) []
      ws.startTrail first.1 first.2 :=
    check_closed (Program.fits_ofFiles files (Path.normalize path) tree) env rfl
  obtain ⟨_, -, hvisited⟩ := hclosed.toured
  have hfound : ∀ b, ws.reports.get? b = none → ws.sources.text? b = none →
      first.2.reports.get? b = none := by
    intro b hnew htext
    cases hb : first.2.reports.get? b with
    | none => rfl
    | some r =>
      rcases hvisited.found b (by simp [hb]) with h | ⟨-, h, -⟩
      · simp [hnew] at h
      · simp [htext] at h
  have hlevels : ∀ b, (ws.sources.text? b).isSome → ws.sources.capacity ≠ 0 := by
    rintro b hb hzero
    rw [show ws.sources.text? b = Entries.get? b [] by
      rw [← List.eq_nil_of_length_eq_zero hzero]; rfl] at hb
    cases hb
  have himports : Importers (Repeats start first.2) (importer ws.sources.capacity)
      (importer ws.sources.capacity) tree.imports := importer_repeats hfound hlevels _
  have hstart : Abreast start first.2 start
      (.start env (Path.normalize path) [] first.2.startTrail) :=
    ⟨.refl, rfl, hclosed.sources, rfl, [], rfl, .nil⟩
  obtain ⟨-, hend⟩ := (Stmt.check_congr Repeats.congruence tree himports).2 _ _ hstart
    fun _ _ hr => hr
  have hsecond : second = checkFile (importer ws.sources.capacity) env (Path.normalize path) [] tree
      first.2.startTrail := by
    have hsources : first.2.sources = ws.sources := hclosed.sources
    rw [← hsources]
    rfl
  obtain ⟨requests, hjournal, hidle⟩ := hend.requests
  rw [hsecond, checkFile_run]
  refine ⟨?_, hend.reports, requests, hjournal, hidle.loads, hidle.saves⟩
  dsimp only
  rw [hend.context]
  rfl

end ShapeCheck
