import ShapeCheck.Proofs.Congruence

/-!
# What a check adds, and what imports see

A check adds moments to the trail and errors to those of its file, and takes back neither. No step
ever looks at the trail or at the journal, so an import is answered alike in any two states that have
the same reports, and stand at the same place of a file with the same number of placeholders.
-/

namespace ShapeCheck

/-! ## Additions -/

/-- From `s` the check of the file came to `t`. -/
structure Checking.Leads (s t : Checking) : Prop where
  path : t.context.path = s.context.path
  trail : s.workspace.trail <:+ t.workspace.trail
  errors : s.context.errors <+: t.context.errors

def Checking.momentsTo (s t : Checking) : List Moment :=
  t.workspace.trail.take (t.workspace.trail.length - s.workspace.trail.length)

def Checking.errorsTo (s t : Checking) : List Error :=
  t.context.errors.drop s.context.errors.length

namespace Checking

variable {s t u : Checking}

theorem momentsTo_eq {added : List Moment}
    (h : t.workspace.trail = added ++ s.workspace.trail) : s.momentsTo t = added := by
  rw [momentsTo, h, List.length_append, Nat.add_sub_cancel, List.take_left]

theorem errorsTo_eq {added : List Error} (h : t.context.errors = s.context.errors ++ added) :
    s.errorsTo t = added := by
  rw [errorsTo, h, List.drop_left]

namespace Leads

theorem refl (s : Checking) : s.Leads s :=
  ⟨rfl, List.suffix_rfl, List.prefix_rfl⟩

theorem trans (h : s.Leads t) (h' : t.Leads u) : s.Leads u :=
  ⟨h'.path.trans h.path, h.trail.trans h'.trail, h.errors.trans h'.errors⟩

theorem move (event : Event) {c : Context} (hpath : c.path = s.context.path)
    (herrors : s.context.errors <+: c.errors) : s.Leads (s.move event c) :=
  ⟨hpath, List.suffix_cons _ _, herrors⟩

theorem enter {inner : Context} (h : s.context.enter? = some inner) :
    s.Leads (s.move .changed inner) := by
  rw [CheckM.enter?_eq_some h]
  exact .move .changed rfl List.prefix_rfl

theorem leave (s : Checking) (event : Event) :
    s.Leads ((s.move .changed s.context.leave).move event s.context.leave) := by
  have hleave : s.Leads (s.move .changed s.context.leave) := .move .changed rfl List.prefix_rfl
  exact hleave.trans (.move event rfl List.prefix_rfl)

theorem trail_eq (h : s.Leads t) : t.workspace.trail = s.momentsTo t ++ s.workspace.trail := by
  obtain ⟨added, hadded⟩ := h.trail
  rw [momentsTo_eq hadded.symm, hadded]

theorem errors_eq (h : s.Leads t) : t.context.errors = s.context.errors ++ s.errorsTo t := by
  obtain ⟨added, hadded⟩ := h.errors
  rw [errorsTo_eq hadded.symm, hadded]

theorem momentsTo (h : s.Leads t) (h' : t.Leads u) :
    s.momentsTo u = t.momentsTo u ++ s.momentsTo t := by
  apply momentsTo_eq
  rw [h'.trail_eq, h.trail_eq, List.append_assoc]

theorem errorsTo (h : s.Leads t) (h' : t.Leads u) :
    s.errorsTo u = s.errorsTo t ++ t.errorsTo u := by
  apply errorsTo_eq
  rw [h'.errors_eq, h.errors_eq, List.append_assoc]

end Leads

end Checking

def CheckM.Adds {α : Type} (m : CheckM α) : Prop :=
  ∀ s : Checking, s.Leads (m s).2

namespace CheckM.Adds

variable {α : Type}

theorem step {f : Context → α × Context} (event : α → Event) (hf : Local f) :
    Adds (onContext event f) := by
  intro s
  rw [onContext_run]
  refine .move _ ?_ ?_
  · rw [hf.within_self]
    rfl
  · rw [hf.within_self]
    exact List.prefix_rfl

theorem report (cause : Cause) (span : Span) : Adds (report cause span) :=
  fun _ => .move .changed rfl (List.prefix_append _ _)

theorem fail (cause : Cause) (span : Span) : Adds (fail cause span) :=
  report cause span

theorem nested {m : CheckM Ty} (span : Span) (hm : Adds m) : Adds (nested span m) := by
  intro s
  cases he : s.context.enter? with
  | none =>
    rw [nested_none he]
    exact (report _ span s).trans (.move _ rfl List.prefix_rfl)
  | some inner =>
    rw [nested_some he]
    exact ((Checking.Leads.enter he).trans (hm _)).trans (.leave _ _)

theorem congruence : Congruence fun _ _ m _ => Adds m where
  pure _ s := .refl s
  bind hm hf s := (hm s).trans (hf _ _)
  read _ s := .refl s
  step event hf _ := step event hf
  report span _ := report _ span
  nested := nested

end CheckM.Adds

open CheckM (Adds)

section
variable {open? : Context → String → Stmt → Workspace → Option Report × Workspace}

theorem Workspace.report?_trail {check : Stmt → Workspace → Option Report × Workspace}
    (hcheck : ∀ tree ws, ws.trail <:+ (check tree ws).2.trail) (path : String) (ws : Workspace) :
    ws.trail <:+ (ws.report? check path).2.trail := by
  have hcases := reported_report? check path ws
  generalize ws.report? check path = o at hcases ⊢
  cases hcases with
  | kept _ | missing _ _ | unparsable _ _ => exact List.suffix_rfl
  | @unopened tree _ _ _ hrun | @opened tree _ _ _ _ hrun =>
    have htrail := hcheck tree (ws.opening path)
    rw [hrun] at htrail
    exact htrail

theorem Checking.Leads.report?
    (hopen : ∀ c path tree ws, ws.trail <:+ (open? c path tree ws).2.trail) (s : Checking)
    (b : String) : s.Leads ⟨s.context, (s.workspace.report? (open? s.context b) b).2⟩ :=
  ⟨rfl, Workspace.report?_trail (hopen s.context b) b s.workspace, List.prefix_rfl⟩

theorem importWith_adds
    (hopen : ∀ c path tree ws, ws.trail <:+ (open? c path tree ws).2.trail) (requested : String)
    (span : Span) : Adds (importWith open? requested span) := by
  intro s
  cases ht : Path.target? s.context.path requested with
  | none =>
    rw [importWith_invalid open? span ht]
    exact Adds.fail _ span s
  | some b =>
    by_cases hb : b ∈ s.context.importStack
    · rw [importWith_cyclic open? span ht hb]
      exact Adds.fail _ span s
    · rw [importWith_report open? span ht hb]
      exact (Checking.Leads.report? hopen s b).trans (Adds.congruence.checkReport b span _ _)

end

theorem Stmt.check_adds {imports : Importer} (himports : ∀ path span, Adds (imports path span))
    (stmt : Stmt) : Adds (stmt.check imports) := by
  have hrequests : Importers (fun _ _ m _ => Adds m) imports imports stmt.imports :=
    fun path _ span => himports path span
  exact Stmt.check_congr Adds.congruence stmt hrequests

theorem opener_trail : ∀ n c path tree ws, ws.trail <:+ (opener n c path tree ws).2.trail
  | 0, _, _, _, _ => List.suffix_rfl
  | n + 1, c, path, tree, ws => by
    rw [opener_succ, checkFile_run]
    have himports : ∀ requested span, Adds (importer n requested span) := by
      rw [importer_eq]
      exact importWith_adds (opener_trail n)
    have hchecked := tree.check_adds himports (.start c.environment path c.importStack ws)
    exact (List.suffix_cons _ _).trans hchecked.trail

theorem importer_adds (n : Nat) (requested : String) (span : Span) :
    Adds (importer n requested span) := by
  rw [importer_eq]
  exact importWith_adds (opener_trail n) requested span

/-! ## Twins -/

structure Workspace.Twin (ws ws' : Workspace) : Prop where
  sources : ws'.sources = ws.sources
  reports : ws'.reports = ws.reports

namespace Workspace.Twin

variable {ws ws' : Workspace}

theorem refl (ws : Workspace) : ws.Twin ws :=
  ⟨rfl, rfl⟩

theorem note (h : ws.Twin ws') (m m' : Moment) : (ws.note m).Twin (ws'.note m') :=
  ⟨h.sources, h.reports⟩

theorem note_left (h : ws.Twin ws') (m : Moment) : (ws.note m).Twin ws' :=
  ⟨h.sources, h.reports⟩

theorem opening (h : ws.Twin ws') (path : String) : (ws.opening path).Twin (ws'.opening path) :=
  ⟨h.sources, h.reports⟩

theorem save (h : ws.Twin ws') (path : String) (r : Report) :
    (ws.save path r).Twin (ws'.save path r) :=
  ⟨h.sources, by rw [reports_save, reports_save, h.reports]⟩

/-- Twins give the same report, if they do so for the tree that they open. -/
theorem report? (h : ws.Twin ws') (check check' : Stmt → Workspace → Option Report × Workspace)
    (path : String)
    (hcheck : ∀ tree, ws.reports.get? path = none → ws.sources.parse? path = some (.ok tree) →
      (check' tree (ws'.opening path)).1 = (check tree (ws.opening path)).1 ∧
        (check tree (ws.opening path)).2.Twin (check' tree (ws'.opening path)).2) :
    (ws'.report? check' path).1 = (ws.report? check path).1 ∧
      (ws.report? check path).2.Twin (ws'.report? check' path).2 := by
  have hlookup : ∀ ws : Workspace, ws.lookup path = (ws.reports.get? path, ws.record (.lookup path)) :=
    fun _ => rfl
  have hload : ∀ ws : Workspace, (ws.record (.lookup path)).load path =
      (ws.sources.parse? path, ws.opening path) := fun _ => rfl
  unfold Workspace.report?
  rw [hlookup, hlookup, h.reports]
  cases hget : ws.reports.get? path with
  | some r => exact ⟨rfl, h.sources, h.reports⟩
  | none =>
    dsimp only
    rw [hload, hload, h.sources]
    cases hparse : ws.sources.parse? path with
    | none => exact ⟨rfl, h.opening path⟩
    | some parsed =>
      cases parsed with
      | error e => exact ⟨rfl, (h.opening path).save path _⟩
      | ok tree =>
        obtain ⟨hreport, htwin⟩ := hcheck tree hget hparse
        dsimp only
        cases hrun : check tree (ws.opening path) with
        | mk o ws₁ =>
          cases hrun' : check' tree (ws'.opening path) with
          | mk o' ws₁' =>
            rw [hrun, hrun'] at hreport htwin
            obtain rfl : o' = o := hreport
            cases o' with
            | none => exact ⟨rfl, htwin⟩
            | some r => exact ⟨rfl, htwin.save path r⟩

end Workspace.Twin

structure Checking.Twin (s s' : Checking) : Prop where
  context : s'.context = s.context
  workspace : s.workspace.Twin s'.workspace

theorem Checking.Twin.move {s s' : Checking} (h : s.Twin s') (event : Event) (c : Context) :
    (s.move event c).Twin (s'.move event c) :=
  ⟨rfl, h.workspace.note _ _⟩

def CheckM.Twins (α : Type) (_ : List String) (m m' : CheckM α) : Prop :=
  ∀ s s', s.Twin s' → (m' s').1 = (m s).1 ∧ (m s).2.Twin (m' s').2

namespace CheckM.Twins

theorem report (cause : Cause) (span : Span) :
    Twins Unit [] (report cause span) (report cause span) := by
  intro s s' h
  rw [report_run, report_run, h.context]
  exact ⟨rfl, h.move _ _⟩

theorem nested {rs : List String} {m m' : CheckM Ty} (span : Span) (hm : Twins Ty rs m m') :
    Twins Ty rs (nested span m) (nested span m') := by
  intro s s' h
  cases he : s.context.enter? with
  | none =>
    rw [nested_none he, nested_none (h.context ▸ he), h.context]
    exact ⟨rfl, (h.move .changed _).move _ _⟩
  | some inner =>
    rw [nested_some he, nested_some (h.context ▸ he)]
    obtain ⟨hvalue, h'⟩ := hm _ _ (h.move .changed inner)
    dsimp only
    rw [hvalue, h'.context]
    exact ⟨rfl, (h'.move .changed _).move _ _⟩

theorem congruence : Congruence Twins where
  pure _ _ _ h := ⟨rfl, h⟩
  bind hm hf s s' h := by
    obtain ⟨hvalue, h'⟩ := hm s s' h
    rw [bind_run, bind_run, hvalue]
    exact hf _ _ _ h'
  read f s s' h := by
    rw [read_run, read_run, h.context]
    exact ⟨rfl, h⟩
  step event _ _ s s' h := by
    rw [onContext_run, onContext_run, h.context]
    exact ⟨rfl, h.move _ _⟩
  report span _ := report _ span
  nested := nested

end CheckM.Twins

open CheckM (Twins)

/-- Files are opened alike. Of the context that opens a file only the environment and the import
stack matter. -/
def OpensAlike (open? : Context → String → Stmt → Workspace → Option Report × Workspace) : Prop :=
  ∀ (c c' : Context) (path : String) (tree : Stmt) {ws ws' : Workspace},
    c'.environment = c.environment → c'.importStack = c.importStack → ws.Twin ws' →
      (open? c' path tree ws').1 = (open? c path tree ws).1 ∧
        (open? c path tree ws).2.Twin (open? c' path tree ws').2

theorem importWith_twins
    {open? : Context → String → Stmt → Workspace → Option Report × Workspace}
    (hopen : OpensAlike open?) (requested : String) (span : Span) :
    Twins Ty [requested] (importWith open? requested span) (importWith open? requested span) := by
  intro s s' h
  cases ht : Path.target? s.context.path requested with
  | none =>
    rw [importWith_invalid open? span ht, importWith_invalid open? span (h.context ▸ ht)]
    exact ⟨rfl, (Twins.report _ span s s' h).2⟩
  | some b =>
    by_cases hb : b ∈ s.context.importStack
    · rw [importWith_cyclic open? span ht hb, importWith_cyclic open? span (h.context ▸ ht)
        (h.context ▸ hb)]
      exact ⟨rfl, (Twins.report _ span s s' h).2⟩
    · rw [importWith_report open? span ht hb, importWith_report open? span (h.context ▸ ht)
        (h.context ▸ hb)]
      obtain ⟨hreport, htwin⟩ := h.workspace.report? (open? s.context b) (open? s'.context b) b
        fun tree _ _ => hopen _ _ b tree (by rw [h.context]) (by rw [h.context])
          (h.workspace.opening b)
      dsimp only
      rw [hreport]
      exact Twins.congruence.checkReport b span _ _ _ ⟨h.context, htwin⟩

theorem opener_alike : ∀ n : Nat, OpensAlike (opener n)
  | 0, _, _, _, _, _, _, _, _, htwin => ⟨rfl, htwin⟩
  | n + 1, c, c', path, tree, ws, ws', henvironment, hstack, htwin => by
    have himports : Importers Twins (importer n) (importer n) tree.imports := by
      intro requested _ span
      rw [importer_eq]
      exact importWith_twins (opener_alike n) requested span
    have hstart : (Checking.start c.environment path c.importStack ws).Twin
        (.start c.environment path c.importStack ws') := ⟨rfl, htwin.note _ _⟩
    obtain ⟨-, hend⟩ := Stmt.check_congr Twins.congruence tree himports _ _ hstart
    rw [opener_succ, opener_succ, henvironment, hstack, checkFile_run, checkFile_run]
    dsimp only
    rw [hend.context]
    exact ⟨rfl, hend.workspace⟩

end ShapeCheck
