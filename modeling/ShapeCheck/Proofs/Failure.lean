import ShapeCheck.Prelude
import ShapeCheck.Proofs.Discipline
import ShapeCheck.Proofs.Growth

/-!
# Failure does not pass unnoticed

Where something has no type, `ignore` or `empty` stands in for it. As long as nothing was reported,
neither of them stands in the type of a variable: whatever lets one of them in also reports an
error, in this file or in one that it imports. A phrase that is no value may contain `empty`, but
it cannot be assigned, passed or exported without an error.
-/

namespace ShapeCheck

def Ty.Clean (t : Ty) : Prop :=
  Leaf.ignore ∉ t.leaves ∧ Leaf.empty ∉ t.leaves

instance (t : Ty) : Decidable t.Clean :=
  inferInstanceAs (Decidable (_ ∧ _))

def Entries.Faulty (es : Entries Report) : Prop :=
  ∃ q r, es.get? q = some r ∧ r.errors ≠ []

def Entries.Tidy (es : Entries Report) : Prop :=
  es.Faulty ∨ ∀ q r, es.get? q = some r → ∀ v ∈ r.exports, v.type.Clean

def Report.Tidy (es : Entries Report) (r : Report) : Prop :=
  r.errors ≠ [] ∨ es.Faulty ∨ ∀ v ∈ r.exports, v.type.Clean

theorem Entries.Faulty.grows {stack : List String} {es es' : Entries Report} (h : es.Faulty)
    (hg : Entries.Grows stack es es') : es'.Faulty := by
  obtain ⟨q, r, hq, hr⟩ := h
  exact ⟨q, r, hg.kept q r hq, hr⟩

theorem Entries.Tidy.insert {es : Entries Report} {b : String} {r : Report} (h : es.Tidy)
    (hnew : es.get? b = none) (hr : r.Tidy es) : (es.insert b r).Tidy := by
  have hgrows : Entries.Grows [] es (es.insert b r) := Entries.Grows.refl.insert hnew (by simp) r
  have hget : (es.insert b r).get? b = some r := by rw [Entries.get?_insert, if_pos rfl]
  rcases hr with hr | hr | hr
  · exact Or.inl ⟨b, r, hget, hr⟩
  · exact Or.inl (hr.grows hgrows)
  · rcases h with h | h
    · exact Or.inl (h.grows hgrows)
    · right
      intro q r' hq
      rw [Entries.get?_insert] at hq
      split at hq
      · cases hq
        exact hr
      · exact h q r' hq

/-! ## The discipline -/

def Checking.Faulty (s : Checking) : Prop :=
  s.context.errors ≠ [] ∨ s.workspace.reports.Faulty

/-- Until an error is reported, types are clean. -/
def failure : Discipline Prop where
  world := Checking.Faulty
  Allows faulty l := faulty ∨ l ≠ .ignore ∧ l ≠ .empty
  loose := True
  Extra s := s.workspace.reports.Tidy ∧ ∀ v ∈ s.context.environment.globals, v.type.Clean
  Offers _ _ := True

theorem strict_of_clean {faulty : Prop} {t : Ty} (h : t.Clean) : failure.Strict faulty t := by
  intro l hl
  refine Or.inr ⟨?_, ?_⟩
  · rintro rfl
    exact h.1 hl
  · rintro rfl
    exact h.2 hl

theorem clean_of_strict {faulty : Prop} {t : Ty} (hf : ¬ faulty) (h : failure.Strict faulty t) :
    t.Clean := by
  constructor
  · intro hl
    rcases h _ hl with h | h
    · exact hf h
    · exact h.1 rfl
  · intro hl
    rcases h _ hl with h | h
    · exact hf h
    · exact h.2 rfl

theorem failure_lawful : failure.Lawful where
  mono hw h := h.imp_left hw
  empty := Or.inl trivial
  later s event c herrors _ h := by
    refine h.imp_left fun hne e => hne (List.prefix_nil.mp ?_)
    rw [← show c.errors = [] from e]
    exact herrors
  reported s cause span := by
    have hfaulty : (s.move .changed (s.context.report cause span)).Faulty :=
      Or.inl (by simp [Context.report])
    exact ⟨Or.inl hfaulty, fun _ _ => Or.inl hfaulty⟩
  allocated s event := Or.inr ⟨by simp, by simp⟩
  move s event c hs hf := by
    refine ⟨hs.extra.1, ?_⟩
    rw [Checking.context_move, hf.environment]
    exact hs.extra.2

/-! ## Files and imports -/

section
variable {imports : Importer}
variable (himports : ∀ requested span w, failure.Ensures w failure.Lax (imports requested span))
include himports

theorem checkFile_tidy {env : Environment} (hglobals : ∀ v ∈ env.globals, v.type.Clean)
    {tree : Stmt} (htree : tree.Complete) (path : String) (stack : List String) {ws : Workspace}
    (hws : ws.reports.Tidy) :
    let r := checkFile imports env path stack tree ws
    r.2.reports.Tidy ∧ r.1.Tidy r.2.reports := by
  have hstart : failure.Holds (.start env path stack ws) := by
    refine ⟨fun v hv => ?_, hws, hglobals⟩
    exact strict_of_clean (hglobals v (Context.mem_globals_of_start hv))
  obtain ⟨hend, -, -⟩ :=
    Discipline.stmt_ensures failure_lawful himports tree (Or.inl htree) _ _ hstart (le_refl _)
  rw [checkFile_run]
  refine ⟨hend.extra.1, or_assoc.mp ?_⟩
  by_cases hfaulty : (tree.check imports (.start env path stack ws)).2.Faulty
  · exact Or.inl hfaulty
  · right
    intro v hv
    exact clean_of_strict hfaulty (hend.bindings v (List.mem_append_right _ hv))

end

theorem Sources.parse?_complete {S : Sources} {path : String} {tree : Stmt}
    (h : S.parse? path = some (.ok tree)) : tree.Complete := by
  unfold Sources.parse? at h
  rw [Option.map_eq_some_iff] at h
  obtain ⟨text, -, htext⟩ := h
  exact parseSource_complete htext

theorem Workspace.report?_tidy
    {open? : Context → String → Stmt → Workspace → Option Report × Workspace} (hopens : Opens open?)
    {c : Context} {b : String} {ws : Workspace} (hws : ws.reports.Tidy)
    (hopen : ∀ tree, tree.Complete →
      let r := open? c b tree (ws.opening b)
      r.2.reports.Tidy ∧ ∀ report, r.1 = some report → report.Tidy r.2.reports) :
    (ws.report? (open? c b) b).2.reports.Tidy := by
  have hcases := reported_report? (open? c b) b ws
  generalize ws.report? (open? c b) b = o at hcases ⊢
  cases hcases with
  | kept _ => exact hws
  | missing _ _ => exact hws
  | unparsable hget _ => exact hws.insert hget (Or.inl (by simp [Report.ofSyntaxError]))
  | unopened _ hparse hrun =>
    obtain ⟨htidy, -⟩ := hopen _ (Sources.parse?_complete hparse)
    rw [hrun] at htidy
    exact htidy
  | @opened tree r ws' hget hparse hrun =>
    obtain ⟨htidy, hreport⟩ := hopen tree (Sources.parse?_complete hparse)
    have hgrows := (hopens c b tree (ws.opening b)).2
    rw [hrun] at htidy hreport hgrows
    exact htidy.insert ((hgrows.unfinished b (by simp)).trans hget) (hreport r rfl)

/-- What an import brings is clean, or something was reported. -/
theorem strict_instantiate {s : Checking} {r : Report} {q : String}
    (htidy : s.workspace.reports.Tidy) (hr : s.workspace.reports.get? q = some r) :
    let (vs, c) := s.context.instantiate r.exports
    ∀ v ∈ vs, failure.Strict (s.move (.imported vs) c).Faulty v.type := by
  intro v hv
  rcases htidy with hfaulty | hclean
  · exact fun l _ => Or.inl (Or.inr hfaulty)
  · apply strict_of_clean
    constructor
    · intro hl
      obtain ⟨v₀, hv₀, hl⟩ := Context.leaf_instantiate hv hl (by simp)
      exact (hclean q r hr v₀ hv₀).1 hl
    · intro hl
      obtain ⟨v₀, hv₀, hl⟩ := Context.leaf_instantiate hv hl (by simp)
      exact (hclean q r hr v₀ hv₀).2 hl

theorem importer_ensures_of_opener {n : Nat}
    (hopen : ∀ (c : Context) (b : String) (tree : Stmt) (ws : Workspace),
      (∀ v ∈ c.environment.globals, v.type.Clean) → tree.Complete → ws.reports.Tidy →
        let r := opener n c b tree ws
        r.2.reports.Tidy ∧ ∀ report, r.1 = some report → report.Tidy r.2.reports)
    (requested : String) (span : Span) (w : Prop) :
    failure.Ensures w failure.Lax (importer n requested span) := by
  rw [importer_eq, importWith_eq]
  apply Discipline.importThrough_ensures failure_lawful
  intro s b hs hb
  obtain ⟨-, hgrows⟩ := Workspace.report?_grows (opener_opens n) hb s.workspace
  have htidy := Workspace.report?_tidy (opener_opens n) hs.extra.1 fun tree htree =>
    hopen s.context b tree (s.workspace.opening b) hs.extra.2 htree hs.extra.1
  let s' : Checking := ⟨s.context, (s.workspace.report? (opener n s.context b) b).2⟩
  have hle : s.Faulty → s'.Faulty := Or.imp_right fun h => h.grows hgrows
  refine ⟨⟨fun v hv => (hs.bindings v hv).mono failure_lawful hle, htidy, hs.extra.2⟩, hle, ?_⟩
  intro report hr
  exact ⟨fun _ => trivial, strict_instantiate (s := s') htidy (Workspace.get?_report? hr)⟩

theorem importer_ensures : ∀ (n : Nat) (requested : String) (span : Span) (w : Prop),
    failure.Ensures w failure.Lax (importer n requested span)
  | 0 => importer_ensures_of_opener fun _ _ _ _ _ _ hws => ⟨hws, fun _ h => by cases h⟩
  | n + 1 => by
    apply importer_ensures_of_opener
    intro c b tree ws hglobals htree hws
    obtain ⟨htidy, hr⟩ := checkFile_tidy (importer_ensures n) hglobals htree b c.importStack hws
    refine ⟨htidy, fun report h => ?_⟩
    cases h
    exact hr

/-! ## Programs -/

theorem exports_clean_of_faultless (S : Sources) (env : Environment)
    (hglobals : ∀ v ∈ env.globals, v.type.Clean) (path : String) {tokens : List Token}
    {file : String} {maxDepth : Nat} {tree : Stmt}
    (htree : parseTokens tokens file maxDepth = .ok tree) :
    let outcome := (Workspace.ofSources S).check env path tree
    outcome.1.errors = [] → (∀ q r, outcome.2.reports.get? q = some r → r.errors = []) →
      (∀ v ∈ outcome.1.exports, v.type.Clean) ∧
        ∀ q r, outcome.2.reports.get? q = some r → ∀ v ∈ r.exports, v.type.Clean := by
  intro outcome herrors hreports
  have hstart : (Workspace.ofSources S).startTrail.reports.Tidy :=
    Or.inr fun q r h => by cases h
  obtain ⟨htidy, hexports⟩ := checkFile_tidy (importer_ensures _) hglobals
    (parseTokens_complete htree) (Path.normalize path) [] hstart
  have hfaulty : ¬ outcome.2.reports.Faulty := by
    rintro ⟨q, r, hq, hr⟩
    exact hr (hreports q r hq)
  constructor
  · rcases hexports with h | h | h
    · exact absurd herrors h
    · exact absurd h hfaulty
    · exact h
  · exact htidy.resolve_left hfaulty

def callingTokens : List Token :=
  let text := "lib = import(\"./lib\")\nexport s: string = lib.id(\"s\")\nexport f = (y) [y, lib.on]"
  (tokenize text none).toOption.getD []

def callingTree : Stmt :=
  treeOf (parseTokens callingTokens "main" 256)

theorem parseTokens_calling : parseTokens callingTokens "main" 256 = .ok callingTree :=
  eq_ok_treeOf (by decide +kernel)

section

-- The run below is evaluated as a whole and not unfolded.
attribute [local irreducible] Workspace.check

theorem calling_exports_clean :
    let files := [("lib", "export id = (x) x\nexport on = @true")]
    let outcome :=
      (Workspace.ofSources (.ofFiles files)).check ⟨Prelude.globals, .standard⟩ "main" callingTree
    outcome.1.exports.length = 2 ∧ outcome.2.reports.length = 1 ∧
      (∀ v ∈ outcome.1.exports, v.type.Clean) ∧
        ∀ q r, outcome.2.reports.get? q = some r → ∀ v ∈ r.exports, v.type.Clean := by
  intro files outcome
  have hlengths : outcome.1.exports.length = 2 ∧ outcome.2.reports.length = 1 := by decide +kernel
  have hglobals : ∀ v ∈ Prelude.globals, v.type.Clean := by decide +kernel
  have herrors : outcome.1.errors.isEmpty = true := by decide +kernel
  have hreports : ∀ p ∈ outcome.2.reports, p.2.errors.isEmpty = true := by decide +kernel
  have h := exports_clean_of_faultless (.ofFiles files) ⟨Prelude.globals, .standard⟩ hglobals "main"
    parseTokens_calling (List.isEmpty_iff.mp herrors)
    fun q r hq => List.isEmpty_iff.mp (hreports _ (Entries.mem_of_get? hq))
  exact ⟨hlengths.1, hlengths.2, h.1, h.2⟩

end

end ShapeCheck
