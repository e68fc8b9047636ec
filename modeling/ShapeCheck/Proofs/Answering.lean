import ShapeCheck.Proofs.Growth

/-!
# Whoever answers the imports

The reports and the trees that an import asks for may come from anywhere. What a check keeps of the
files that are open, of the reports and of the journal does not depend on where they come from, if
each single answer keeps it.
-/

namespace ShapeCheck

/-! ## Hosts -/

/-- Something that keeps reports and reads files for a check. Its answers may depend on all that
has happened before. -/
structure Host where
  report? : Workspace → String → Option Report
  tree? : Workspace → String → Option (Except Error Stmt)

namespace Host

def answer (host : Host) (check : Stmt → Workspace → Option Report × Workspace) (path : String)
    (ws : Workspace) : Option Report × Workspace :=
  match host.report? ws path with
  | some report => (some report, ws.record (.lookup path))
  | none =>
    match host.tree? (ws.record (.lookup path)) path with
    | none => (none, ws.opening path)
    | some (.error e) => (some (.ofSyntaxError e), (ws.opening path).save path (.ofSyntaxError e))
    | some (.ok tree) =>
      match check tree (ws.opening path) with
      | (none, ws) => (none, ws)
      | (some report, ws) => (some report, ws.save path report)

def importer (host : Host) : (n : Nat) → Importer
  | 0 => importThrough fun _ path => host.answer (fun _ ws => (none, ws)) path
  | n + 1 => importThrough fun c path => host.answer (fun tree ws =>
      let (report, ws) := checkFile (host.importer n) c.environment path c.importStack tree ws
      (some report, ws)) path

def opener (host : Host) (n : Nat) (c : Context) (path : String) (tree : Stmt) (ws : Workspace) :
    Option Report × Workspace :=
  match n with
  | 0 => (none, ws)
  | n + 1 =>
    let (report, ws) := checkFile (host.importer n) c.environment path c.importStack tree ws
    (some report, ws)

theorem importer_eq (host : Host) (n : Nat) :
    host.importer n = importThrough fun c path => host.answer (host.opener n c path) path := by
  cases n <;> rfl

def check (host : Host) (n : Nat) (environment : Environment) (path : String) (tree : Stmt)
    (ws : Workspace) : Report × Workspace :=
  checkFile (host.importer n) environment (Path.normalize path) [] tree ws.startTrail

def own : Host where
  report? ws path := ws.reports.get? path
  tree? ws path := ws.sources.parse? path

theorem answer_own (check : Stmt → Workspace → Option Report × Workspace) (path : String) :
    own.answer check path = Workspace.report? check path := by
  funext ws
  have hcases := Workspace.reported_report? check path ws
  unfold answer own
  dsimp only
  generalize ws.report? check path = o at hcases ⊢
  cases hcases with
  | kept hget => rw [hget]
  | missing hget hparse => rw [hget]; simp only [Workspace.record, hparse]
  | unparsable hget hparse => rw [hget]; simp only [Workspace.record, hparse]
  | unopened hget hparse hrun => rw [hget]; simp only [Workspace.record, hparse, hrun]
  | opened hget hparse hrun => rw [hget]; simp only [Workspace.record, hparse, hrun]

theorem importer_own : ∀ n : Nat, own.importer n = ShapeCheck.importer n
  | 0 => by
    unfold importer
    simp only [answer_own]
    rfl
  | n + 1 => by
    unfold importer
    simp only [answer_own, importer_own n]
    rfl

theorem check_own (environment : Environment) (path : String) (tree : Stmt) (ws : Workspace) :
    own.check ws.sources.capacity environment path tree ws = ws.check environment path tree := by
  unfold check
  rw [importer_own]
  rfl

end Host

/-! ## What imports keep -/

def CheckM.Preserves (I : Checking → Prop) {α : Type} (m : CheckM α) : Prop :=
  ∀ s, I s → I (m s).2

/-- What survives every error is kept by every step, if it is a property of the outline. -/
theorem Outline.congruence {I : Outline → Prop}
    (hreport : ∀ o cause span, cause.Founded → I o → I (o.report cause span)) :
    Congruence fun _ _ m _ => m.Preserves fun s => I s.outline := by
  have hW : Walkable I fun _ _ => True :=
    ⟨fun o cause span hcause h => ⟨hreport o cause span hcause.2 h, fun _ _ => trivial⟩,
      fun _ _ _ _ _ => trivial⟩
  have hsame : (fun (α : Type) rs (m _ : CheckM α) => Walks I (fun _ _ => True) rs m) =
      fun _ _ m _ => m.Preserves fun s => I s.outline := by
    funext α rs m _
    simp [Walks, CheckM.Preserves]
  exact hsame ▸ Walks.congruence hW

/-- `I q` is kept while the file at `q` is checked, if the host answers the imports. -/
structure Host.Keeps (host : Host) (I : String → Checking → Prop) : Prop where
  steps : ∀ q, Congruence fun _ _ m _ => m.Preserves (I q)
  cyclic : ∀ {q s} (b : String) (span : Span), I q s →
    I q (s.move .changed (s.context.report (.cyclicImport b) span))
  lookup : ∀ {q s r b}, Path.target? s.context.path r = some b → I q s →
    I q ⟨s.context, s.workspace.record (.lookup b)⟩
  load : ∀ {q s r b}, Path.target? s.context.path r = some b → I q s →
    I q ⟨s.context, s.workspace.record (.load b)⟩
  refuse : ∀ {q s r b ws e}, Path.target? s.context.path r = some b →
    host.tree? ws b = some (.error e) → I q s →
      I q ⟨s.context, s.workspace.save b (.ofSyntaxError e)⟩
  start : ∀ {q s r b}, Path.target? s.context.path r = some b → I q s →
    I b (.start s.context.environment b s.context.importStack s.workspace)
  finish : ∀ {q s r b} {t : Checking}, Path.target? s.context.path r = some b → I q s → I b t →
    I q ⟨s.context, t.workspace.save b ⟨t.context.errors, t.context.exports, false⟩⟩

namespace Host.Keeps

variable {host : Host} {I : String → Checking → Prop} (hK : host.Keeps I)
include hK

theorem answer {check : Stmt → Workspace → Option Report × Workspace} {q requested b : String}
    {s : Checking} (ht : Path.target? s.context.path requested = some b) (hs : I q s)
    (hcheck : ∀ tree ws, I q ⟨s.context, ws⟩ →
      ((check tree ws).1 = none → I q ⟨s.context, (check tree ws).2⟩) ∧
        ∀ r, (check tree ws).1 = some r → I q ⟨s.context, (check tree ws).2.save b r⟩) :
    I q ⟨s.context, (host.answer check b s.workspace).2⟩ := by
  have hlookup := hK.lookup ht hs
  have hopening := hK.load (s := ⟨s.context, s.workspace.record (.lookup b)⟩) ht hlookup
  unfold Host.answer
  split
  · exact hlookup
  · split
    · exact hopening
    · rename_i htree
      exact hK.refuse (s := ⟨s.context, s.workspace.opening b⟩) ht htree hopening
    · rename_i tree _
      obtain ⟨hnone, hsome⟩ := hcheck tree (s.workspace.opening b) hopening
      split
      · rename_i heq
        rw [heq] at hnone
        exact hnone rfl
      · rename_i r _ heq
        rw [heq] at hsome
        exact hsome r rfl

theorem importThrough {answer : Context → String → Workspace → Option Report × Workspace}
    {q : String}
    (hanswer : ∀ {s requested b}, Path.target? s.context.path requested = some b → I q s →
      I q ⟨s.context, (answer s.context b s.workspace).2⟩) (requested : String) (span : Span) :
    (importThrough answer requested span).Preserves (I q) := by
  intro s hs
  cases ht : Path.target? s.context.path requested with
  | none =>
    rw [importThrough_invalid answer span ht]
    exact (hK.steps q).fail span (by simp) s hs
  | some b =>
    by_cases hb : b ∈ s.context.importStack
    · rw [importThrough_cyclic answer span ht hb]
      exact hK.cyclic b span hs
    · rw [importThrough_answer answer span ht hb]
      exact (hK.steps q).checkReport b span _ _ (hanswer ht hs)

theorem tree {imports : Importer} {q : String}
    (himports : ∀ requested span, (imports requested span).Preserves (I q)) (tree : Stmt) :
    (tree.check imports).Preserves (I q) := by
  have h : Importers (fun _ _ m _ => m.Preserves (I q)) imports imports tree.imports :=
    fun requested _ span => himports requested span
  exact Stmt.check_congr (hK.steps q) tree h

theorem importer : ∀ (n : Nat) (q requested : String) (span : Span),
    (host.importer n requested span).Preserves (I q)
  | 0, q => by
    refine hK.importThrough fun ht hs => hK.answer ht hs fun tree ws hws => ?_
    exact ⟨fun _ => hws, fun r hr => by cases hr⟩
  | n + 1, q => by
    refine hK.importThrough fun {s requested b} ht hs => hK.answer ht hs fun tree ws hws => ?_
    have hend := hK.tree (importer n b) tree _ (hK.start (s := ⟨s.context, ws⟩) ht hws)
    refine ⟨fun hr => (by cases hr), fun r hr => ?_⟩
    cases hr
    exact hK.finish ht hs hend

theorem check (n : Nat) (env : Environment) (path : String) (tree : Stmt) (ws : Workspace)
    (hstart : I (Path.normalize path) (.start env (Path.normalize path) [] ws.startTrail)) :
    ∃ s, I (Path.normalize path) s ∧
      host.check n env path tree ws = (⟨s.context.errors, s.context.exports, false⟩, s.workspace) :=
  ⟨_, hK.tree (hK.importer n _) tree _ hstart, rfl⟩

end Host.Keeps

end ShapeCheck
