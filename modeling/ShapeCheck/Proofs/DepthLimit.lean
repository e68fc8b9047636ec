import ShapeCheck.Proofs.Answering
import ShapeCheck.Proofs.Cycles
import ShapeCheck.Proofs.Since

/-!
# The limit of nesting only cuts

A check of a file goes no deeper than the limit allows. What it finds out does not depend on the
limit in any other way: two runs with different limits take the same steps until the smaller limit
cuts a phrase off, and that is recorded. The error stays where it is recorded, so a run in which no
such error is left has the outcome of every run with a larger limit.
-/

namespace ShapeCheck

/-! ## Depths within the limit -/

structure Context.Within (env : Environment) (c : Context) : Prop where
  environment : c.environment = env
  depth : c.depth ≤ env.config.maxDepth

structure Checking.Within (env : Environment) (s : Checking) : Prop where
  context : s.context.Within env
  trail : ∀ m ∈ s.workspace.trail, m.context.Within env

section
variable {env : Environment}

theorem Checking.Within.move {s : Checking} (h : s.Within env) {c : Context} (hc : c.Within env)
    (event : Event) : (s.move event c).Within env :=
  ⟨hc, List.forall_mem_cons.mpr ⟨hc, h.trail⟩⟩

theorem Context.Within.enter {c inner : Context} (h : c.Within env) (he : c.enter? = some inner) :
    inner.Within env := by
  unfold Context.enter? at he
  split at he
  · cases he
  · rename_i hdepth
    cases he
    refine ⟨h.environment, ?_⟩
    rw [h.environment] at hdepth
    exact Nat.lt_of_not_le hdepth

theorem Context.Within.report {c : Context} (h : c.Within env) (cause : Cause) (span : Span) :
    (c.report cause span).Within env :=
  ⟨h.environment, h.depth⟩

theorem Context.Within.leave {c : Context} (h : c.Within env) : c.leave.Within env :=
  ⟨h.environment, (Nat.sub_le _ _).trans h.depth⟩

theorem Checking.Within.congruence (env : Environment) :
    Congruence fun _ _ m _ => m.Preserves (Checking.Within env) where
  pure _ _ h := h
  bind hm hf s h := hf _ _ (hm s h)
  read _ _ h := h
  step event hf _ s h := by
    rw [CheckM.onContext_run]
    refine h.move ?_ _
    rw [hf.within_self]
    exact ⟨h.context.environment, h.context.depth⟩
  report span _ s h := h.move (h.context.report _ span) .changed
  nested span hm s h := by
    cases he : s.context.enter? with
    | none =>
      rw [CheckM.nested_none he]
      have hc := h.context.report (.nestingTooDeep s.context.environment.config.maxDepth) span
      exact (h.move hc _).move hc _
    | some inner =>
      rw [CheckM.nested_some he]
      have hend := hm _ (h.move (h.context.enter he) .changed)
      exact (hend.move hend.context.leave _).move hend.context.leave _

theorem Host.keeps_within (host : Host) (env : Environment) :
    host.Keeps fun _ => Checking.Within env where
  steps _ := Checking.Within.congruence env
  cyclic b span h := h.move (h.context.report (.cyclicImport b) span) .changed
  lookup _ h := ⟨h.context, h.trail⟩
  load _ h := ⟨h.context, h.trail⟩
  refuse _ _ h := ⟨h.context, h.trail⟩
  start _ h := by
    rw [h.context.environment]
    exact h.move ⟨rfl, Nat.zero_le _⟩ _
  finish _ h hend := ⟨h.context, hend.trail⟩

theorem Host.check_within (host : Host) (n : Nat) (env : Environment) (path : String)
    (tree : Stmt) (ws : Workspace) :
    ∀ m ∈ (host.check n env path tree ws).2.trail, m.context.Within env := by
  have hstart : (Checking.start env (Path.normalize path) [] ws.startTrail).Within env :=
    ⟨⟨rfl, Nat.zero_le _⟩, List.forall_mem_singleton.mpr ⟨rfl, Nat.zero_le _⟩⟩
  obtain ⟨s, hs, hrun⟩ := (host.keeps_within env).check n env path tree ws hstart
  rw [hrun]
  exact hs.trail

end

/-! ## Two limits -/

def Context.limit (c : Context) : Nat :=
  c.environment.config.maxDepth

def Environment.withLimit (d : Nat) (env : Environment) : Environment :=
  { env with config := env.config.withMaxDepth d }

def Context.withLimit (d : Nat) (c : Context) : Context :=
  { c with environment := c.environment.withLimit d }

theorem Local.withLimit {α : Type} {f : Context → α × Context} (hf : Local f) (d : Nat)
    (c : Context) : f (c.withLimit d) = ((f c).1, (f c).2.withLimit d) := by
  have h : f (c.withLimit d) = ((f c).1, (f c).2.within (c.withLimit d)) := hf (c.withLimit d) c
  rw [h, hf.within_self]
  rfl

theorem Context.enter?_withLimit {d : Nat} {c inner : Context} (hd : c.limit ≤ d)
    (he : c.enter? = some inner) : (c.withLimit d).enter? = some (inner.withLimit d) := by
  unfold Context.enter? at he ⊢
  split at he
  · cases he
  · rename_i hdepth
    cases he
    have hdepth' : ¬ (c.withLimit d).environment.config.maxDepth ≤ (c.withLimit d).depth :=
      fun h => hdepth (hd.trans h)
    rw [if_neg hdepth']
    rfl

def Outline.Cut (o : Outline) : Prop :=
  (∃ e ∈ o.errors, e.cause.IsTooDeep) ∨ o.reports.Record Cause.IsTooDeep

theorem Outline.Cut.extends {o o' : Outline} (h : o.Cut) (he : o.Extends o') : o'.Cut :=
  h.imp (fun ⟨e, hmem, hc⟩ => ⟨e, he.errors.subset hmem, hc⟩) fun hr => hr.grows he.reports

theorem Outline.cut_report (o : Outline) (limit : Nat) (span : Span) :
    (o.report (.nestingTooDeep limit) span).Cut :=
  Or.inl ⟨⟨.nestingTooDeep limit, span.start⟩, by simp [Outline.report], trivial⟩

theorem cut_walkable : Walkable Outline.Cut fun _ _ => True where
  report _ cause span _ h := ⟨h.extends (.report cause span), fun _ _ => trivial⟩
  tooDeep _ _ _ _ _ := trivial

/-- The states differ only in their limits, of which that of the second is `d` and no smaller, and
in the journals and trails of their workspaces. -/
structure Checking.Raised (d : Nat) (s s' : Checking) : Prop where
  limit : s.context.limit ≤ d
  context : s'.context = s.context.withLimit d
  workspace : s.workspace.Twin s'.workspace

/-- What is cut stays cut, and as long as nothing is cut the checks find out the same. -/
structure CheckM.Raises (d : Nat) (α : Type) (rs : List String) (m m' : CheckM α) : Prop where
  stays : Walks Outline.Cut (fun _ _ => True) rs m
  run : ∀ s s', s.Raised d s' →
    (m s).2.outline.Cut ∨ (m' s').1 = (m s).1 ∧ (m s).2.Raised d (m' s').2

section
variable {d : Nat}

theorem Checking.Raised.move {s s' : Checking} (h : s.Raised d s') {c : Context}
    (hc : c.limit ≤ d) (event : Event) :
    (s.move event c).Raised d (s'.move event (c.withLimit d)) :=
  ⟨hc, rfl, h.workspace.note _ _⟩

theorem Checking.Raised.report {s s' : Checking} (h : s.Raised d s') (cause : Cause)
    (span : Span) : (CheckM.report cause span s).2.Raised d (CheckM.report cause span s').2 := by
  rw [CheckM.report_run, CheckM.report_run, h.context]
  exact h.move (c := s.context.report cause span) h.limit .changed

namespace CheckM.Raises

theorem nested {rs : List String} {m m' : CheckM Ty} (span : Span) (hm : Raises d Ty rs m m') :
    Raises d Ty rs (nested span m) (nested span m') := by
  refine ⟨Walks.nested cut_walkable span hm.stays, fun s s' h => ?_⟩
  cases he : s.context.enter? with
  | none =>
    rw [nested_none he]
    exact Or.inl (s.outline.cut_report _ span)
  | some inner =>
    have he' : s'.context.enter? = some (inner.withLimit d) := by
      rw [h.context]
      exact Context.enter?_withLimit h.limit he
    have hlimit : inner.limit ≤ d := by
      rw [enter?_eq_some he]
      exact h.limit
    rw [nested_some he, nested_some he']
    rcases hm.run _ _ (h.move hlimit .changed) with hcut | ⟨hvalue, hend⟩
    · exact Or.inl hcut
    · refine Or.inr ⟨hvalue, ?_⟩
      dsimp only
      rw [hvalue, hend.context]
      let c := (m (s.move .changed inner)).2.context.leave
      exact (hend.move (c := c) hend.limit .changed).move (c := c) hend.limit _

theorem congruence : Congruence (Raises d) where
  pure a := ⟨(Walks.congruence cut_walkable).pure a, fun _ _ h => Or.inr ⟨rfl, h⟩⟩
  bind hm hf := by
    refine ⟨hm.stays.bind fun a => (hf a).stays, fun s s' h => ?_⟩
    rw [bind_run, bind_run]
    rcases hm.run s s' h with hcut | ⟨hvalue, h'⟩
    · exact Or.inl ((hf _).stays _ hcut).1
    · rw [hvalue]
      exact (hf _).run _ _ h'
  read f := by
    refine ⟨(Walks.congruence cut_walkable).read f, fun s s' h => Or.inr ?_⟩
    rw [read_run, read_run, h.context]
    exact ⟨rfl, h⟩
  step event hf hsound := by
    refine ⟨(Walks.congruence cut_walkable).step event hf hsound, fun s s' h => Or.inr ?_⟩
    rw [onContext_run, onContext_run, h.context, hf.withLimit]
    refine ⟨rfl, h.move ?_ _⟩
    rw [hf.within_self]
    exact h.limit
  report span hcause := by
    refine ⟨(Walks.congruence cut_walkable).report span hcause, fun s s' h => Or.inr ?_⟩
    exact ⟨rfl, h.report _ span⟩
  nested := nested

end CheckM.Raises

/-! ## Imports -/

open CheckM (Raises)

/-- Files are opened alike under both limits, unless something in them is cut off. -/
def OpensRaised (d : Nat)
    (open? : Context → String → Stmt → Workspace → Option Report × Workspace) : Prop :=
  ∀ (c : Context) (path : String) (tree : Stmt) {ws ws' : Workspace}, c.limit ≤ d → ws.Twin ws' →
    ((∃ r, (open? c path tree ws).1 = some r ∧ r.Records Cause.IsTooDeep) ∨
      (open? c path tree ws).2.reports.Record Cause.IsTooDeep) ∨
    (open? (c.withLimit d) path tree ws').1 = (open? c path tree ws).1 ∧
      (open? c path tree ws).2.Twin (open? (c.withLimit d) path tree ws').2

/-- An error in an opened file is kept with the reports. -/
theorem Workspace.record_report? {kind : Cause → Prop}
    {open? : Context → String → Stmt → Workspace → Option Report × Workspace} (hopens : Opens open?)
    {c : Context} {b : String} {tree : Stmt} {ws : Workspace} (hget : ws.reports.get? b = none)
    (hparse : ws.sources.parse? b = some (.ok tree))
    (h : (∃ r, (open? c b tree (ws.opening b)).1 = some r ∧ r.Records kind) ∨
      (open? c b tree (ws.opening b)).2.reports.Record kind) :
    (ws.report? (open? c b) b).2.reports.Record kind := by
  have hnew := ((hopens c b tree (ws.opening b)).2.unfinished b (by simp)).trans hget
  have hcases := reported_report? (open? c b) b ws
  generalize ws.report? (open? c b) b = o at hcases ⊢
  cases hcases with
  | kept hget' => rw [hget] at hget'; cases hget'
  | missing _ hparse' => rw [hparse] at hparse'; cases hparse'
  | unparsable _ hparse' => rw [hparse] at hparse'; cases hparse'
  | unopened _ hparse' hrun =>
    rw [hparse] at hparse'
    cases hparse'
    rw [hrun] at h
    rcases h with ⟨r, hr, -⟩ | h
    · cases hr
    · exact h
  | @opened _ r ws' _ hparse' hrun =>
    rw [hparse] at hparse'
    cases hparse'
    rw [hrun] at h hnew
    rcases h with ⟨_, hr, hrecords⟩ | h
    · cases hr
      exact ⟨b, r, by rw [reports_save, Entries.get?_insert, if_pos rfl], hrecords⟩
    · exact h.grows (Entries.Grows.refl.insert hnew List.not_mem_nil r)

theorem importWith_raises
    {open? : Context → String → Stmt → Workspace → Option Report × Workspace} (hopens : Opens open?)
    (hopen : OpensRaised d open?) (requested : String) (span : Span) :
    Raises d Ty [requested] (importWith open? requested span)
      (importWith open? requested span) := by
  refine ⟨fun s hcut => ⟨?_, fun _ _ => trivial, fun _ _ => trivial⟩, fun s s' h => ?_⟩
  · exact Outline.Cut.extends hcut (importWith_extends hopens requested span s)
  have hpath : s'.context.path = s.context.path := by rw [h.context]; rfl
  have hstack : s'.context.importStack = s.context.importStack := by rw [h.context]; rfl
  cases ht : Path.target? s.context.path requested with
  | none =>
    rw [importWith_invalid open? span ht, importWith_invalid open? span (hpath ▸ ht)]
    exact (Raises.congruence.fail span (by simp)).run s s' h
  | some b =>
    by_cases hb : b ∈ s.context.importStack
    · rw [importWith_cyclic open? span ht hb, importWith_cyclic open? span (hpath ▸ ht)
        (hstack ▸ hb)]
      exact Or.inr ⟨rfl, h.report (.cyclicImport b) span⟩
    · rw [importWith_report open? span ht hb, importWith_report open? span (hpath ▸ ht)
        (hstack ▸ hb)]
      by_cases hrecord : (s.workspace.report? (open? s.context b) b).2.reports.Record Cause.IsTooDeep
      · have hchecked := (Walks.congruence cut_walkable).checkReport b span
          (s.workspace.report? (open? s.context b) b).1
        exact Or.inl (hchecked ⟨s.context, _⟩ (Or.inr hrecord)).1
      · obtain ⟨hreport, htwin⟩ := h.workspace.report? (open? s.context b) (open? s'.context b) b
          fun tree hget hparse => by
            rw [h.context]
            refine (hopen s.context b tree h.limit (h.workspace.opening b)).resolve_left ?_
            exact fun hcut => hrecord (Workspace.record_report? hopens hget hparse hcut)
        dsimp only
        rw [hreport]
        exact (Raises.congruence.checkReport b span _).run _ _ ⟨h.limit, h.context, htwin⟩

theorem checkFile_raises {imports : Importer} {tree : Stmt}
    (himports : Importers (Raises d) imports imports tree.imports) (env : Environment)
    (hlimit : env.config.maxDepth ≤ d) (path : String) (stack : List String) {ws ws' : Workspace}
    (htwin : ws.Twin ws') :
    let run := checkFile imports env path stack tree ws
    let run' := checkFile imports (env.withLimit d) path stack tree ws'
    Recorded Cause.IsTooDeep run ∨ run'.1 = run.1 ∧ run.2.Twin run'.2 := by
  intro run run'
  have hstart : (Checking.start env path stack ws).Raised d
      (.start (env.withLimit d) path stack ws') := ⟨hlimit, rfl, htwin.note _ _⟩
  rcases (Stmt.check_congr Raises.congruence tree himports).run _ _ hstart with hcut | ⟨-, hend⟩
  · exact Or.inl hcut
  · refine Or.inr ⟨?_, hend.workspace⟩
    simp only [run, run', checkFile_run]
    rw [hend.context]
    rfl

theorem opener_raises : ∀ n : Nat, OpensRaised d (opener n)
  | 0, _, _, _, _, _, _, htwin => Or.inr ⟨rfl, htwin⟩
  | n + 1, c, path, tree, ws, ws', hlimit, htwin => by
    have himports : Importers (Raises d) (importer n) (importer n) tree.imports :=
      fun requested _ span => by
        rw [importer_eq]
        exact importWith_raises (opener_opens n) (opener_raises n) requested span
    rw [opener_succ, opener_succ]
    have hfile := checkFile_raises himports c.environment hlimit path c.importStack htwin
    rcases hfile with hcut | ⟨hreport, hend⟩
    · exact Or.inl (hcut.imp_left fun hr => ⟨_, rfl, hr⟩)
    · exact Or.inr ⟨congrArg some hreport, hend⟩

theorem importer_raises (n : Nat) (requested : String) (span : Span) :
    Raises d Ty [requested] (importer n requested span) (importer n requested span) := by
  rw [importer_eq]
  exact importWith_raises (opener_opens n) (opener_raises n) requested span

end

/-! ## Programs -/

/-- **The limit only cuts.** A run that records no error about nesting has the outcome of every run
with a larger limit. While a program is checked no context is nested deeper than the limit, whoever
answers the imports. -/
theorem check_eq_of_larger_limit {d d' : Nat} (hd : d ≤ d') (globals : List Variable)
    (config : Config) (path : String) (tree : Stmt) (ws : Workspace) :
    let env (limit : Nat) : Environment := ⟨globals, config.withMaxDepth limit⟩
    (¬ Recorded Cause.IsTooDeep (ws.check (env d) path tree) →
      (ws.check (env d') path tree).1 = (ws.check (env d) path tree).1 ∧
        (ws.check (env d') path tree).2.reports = (ws.check (env d) path tree).2.reports) ∧
    (∀ m ∈ (ws.check (env d) path tree).2.trail,
      m.context.environment.config.maxDepth = d ∧ m.context.depth ≤ d) ∧
    ∀ (host : Host) (n : Nat), ∀ m ∈ (host.check n (env d) path tree ws).2.trail,
      m.context.environment.config.maxDepth = d ∧ m.context.depth ≤ d := by
  intro env
  have hhosts : ∀ (host : Host) (n : Nat), ∀ m ∈ (host.check n (env d) path tree ws).2.trail,
      m.context.environment.config.maxDepth = d ∧ m.context.depth ≤ d := by
    intro host n m hm
    have hwithin := host.check_within n (env d) path tree ws m hm
    exact ⟨by rw [hwithin.environment]; rfl, hwithin.depth⟩
  refine ⟨fun hclean => ?_, ?_, hhosts⟩
  · have himports : Importers (CheckM.Raises d') ws.importer ws.importer tree.imports :=
      fun requested _ span => importer_raises _ requested span
    have hraised := checkFile_raises himports (env d) hd (Path.normalize path) []
      (.refl ws.startTrail)
    obtain ⟨hreport, htwin⟩ := hraised.resolve_left hclean
    exact ⟨hreport, htwin.reports⟩
  · rw [← Host.check_own]
    exact hhosts .own _

section

-- The runs below are evaluated as a whole and not unfolded.
attribute [local irreducible] Workspace.check

def nestedFiles : Entries String :=
  [("lib", "export f = (x) [[x]]")]

def nestedSource : String :=
  "lib = import(\"./lib\")\nexport y = [[lib.f(1)]]\nz: string = y"

/-- With seven levels nothing is cut off, and all seven are used. -/
theorem nested_eq_of_larger_limit :
    let tree := treeOf (parseSource nestedSource "main" 256)
    let ws := Workspace.ofSources (.ofFiles nestedFiles)
    let run (limit : Nat) := ws.check ⟨[], Config.standard.withMaxDepth limit⟩ "main" tree
    Recorded Cause.IsTooDeep (run 6) ∧ ¬ Recorded Cause.IsTooDeep (run 7) ∧
      (run 256).1 = (run 7).1 ∧ (run 256).2.reports = (run 7).2.reports ∧
      (run 7).1.errors.map (·.cause.name) = ["VariableTypeMismatch"] ∧
      (∀ m ∈ (run 7).2.trail,
        m.context.environment.config.maxDepth = 7 ∧ m.context.depth ≤ 7) ∧
      7 ∈ (run 7).2.trail.map (·.context.depth) := by
  intro tree ws run
  have hcut : Recorded Cause.IsTooDeep (run 6) := by decide +kernel
  have hclean : ¬ Recorded Cause.IsTooDeep (run 7) := by decide +kernel
  have hd : 7 ≤ 256 := by decide
  obtain ⟨hsame, hwithin, -⟩ := check_eq_of_larger_limit hd [] .standard "main" tree ws
  obtain ⟨hreport, hreports⟩ := hsame hclean
  exact ⟨hcut, hclean, hreport, hreports, by decide +kernel, hwithin, by decide +kernel⟩

end

end ShapeCheck
