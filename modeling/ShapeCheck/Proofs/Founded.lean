import ShapeCheck.Proofs.Answering
import ShapeCheck.Proofs.Cycles

/-!
# What is reported is so

An error that a check reports about types states a fact of these types. Types that have failed
before are not compared, and what is compared does not fit. Each step of a check reports in this way,
so every file that a run opens is reported on in this way, whoever answers its imports.
-/

namespace ShapeCheck

theorem Cause.founded_of_syntactic {cause : Cause} (h : cause.Syntactic) : cause.Founded := by
  cases cause with
  | valueExpected _ | variableMismatch _ _ _ | argumentMismatch _ _ => exact absurd h id
  | notCallable _ | missingEntry _ _ | notRecord _ => exact absurd h id
  | _ => trivial

def Host.Refused (host : Host) (q : String) (r : Report) : Prop :=
  ∃ ws e, host.tree? ws q = some (.error e) ∧ r = .ofSyntaxError e

theorem Host.own_refused {q : String} {r : Report} (h : own.Refused q r) :
    ∀ e ∈ r.errors, e.cause.Founded := by
  obtain ⟨ws, e, hparse, rfl⟩ := h
  intro e' he'
  rw [List.mem_singleton.mp he']
  exact Cause.founded_of_syntactic (Sources.parse?_syntactic hparse)

/-- Of the files that were not reported on in `earlier`, all that is reported is so. -/
def Host.Founds (host : Host) (earlier reports : Entries Report) : Prop :=
  ∀ q r, reports.get? q = some r →
    earlier.get? q = some r ∨ host.Refused q r ∨ ∀ e ∈ r.errors, e.cause.Founded

theorem Host.Founds.insert {host : Host} {earlier reports : Entries Report}
    (h : host.Founds earlier reports) {b : String} {r : Report}
    (hr : host.Refused b r ∨ ∀ e ∈ r.errors, e.cause.Founded) :
    host.Founds earlier (reports.insert b r) := by
  intro q r' hq
  rw [Entries.get?_insert] at hq
  split at hq
  · rename_i hbq
    cases hq
    exact Or.inr (hbq ▸ hr)
  · exact h q r' hq

structure Founding (host : Host) (earlier : Entries Report) (o : Outline) : Prop where
  errors : ∀ e ∈ o.errors, e.cause.Founded
  reports : host.Founds earlier o.reports

theorem Founding.report {host : Host} {earlier : Entries Report} {o : Outline}
    (h : Founding host earlier o) (cause : Cause) (hcause : cause.Founded) (span : Span) :
    Founding host earlier (o.report cause span) := by
  refine ⟨fun e he => ?_, h.reports⟩
  rcases List.mem_append.mp he with he | he
  · exact h.errors e he
  · rw [List.mem_singleton.mp he]
    exact hcause

theorem Host.keeps_founded (host : Host) (earlier : Entries Report) :
    host.Keeps fun _ s => Founding host earlier s.outline where
  steps _ := Outline.congruence fun _ cause span hcause h => h.report cause hcause span
  cyclic b span h := h.report (.cyclicImport b) trivial span
  lookup _ h := ⟨h.errors, h.reports⟩
  load _ h := ⟨h.errors, h.reports⟩
  refuse _ htree h := ⟨h.errors, h.reports.insert (Or.inl ⟨_, _, htree, rfl⟩)⟩
  start _ h := ⟨fun _ he => absurd he List.not_mem_nil, h.reports⟩
  finish _ h hend := ⟨h.errors, hend.reports.insert (Or.inr hend.errors)⟩

theorem Host.check_founded (host : Host) (n : Nat) (env : Environment) (path : String)
    (tree : Stmt) (ws : Workspace) :
    (∀ e ∈ (host.check n env path tree ws).1.errors, e.cause.Founded) ∧
      host.Founds ws.reports (host.check n env path tree ws).2.reports := by
  obtain ⟨s, hs, hrun⟩ := (host.keeps_founded ws.reports).check n env path tree ws
    ⟨fun _ he => absurd he List.not_mem_nil, fun _ _ h => Or.inl h⟩
  rw [hrun]
  exact ⟨hs.errors, hs.reports⟩

theorem reported_causes_founded (env : Environment) (path : String) (tree : Stmt)
    (ws : Workspace) :
    ((∀ e ∈ (ws.check env path tree).1.errors, e.cause.Founded) ∧
      ∀ q r, (ws.check env path tree).2.reports.get? q = some r →
        ws.reports.get? q = some r ∨ ∀ e ∈ r.errors, e.cause.Founded) ∧
    ∀ (host : Host) (n : Nat),
      let outcome := host.check n env path tree ws
      (∀ e ∈ outcome.1.errors, e.cause.Founded) ∧
        ∀ q r, outcome.2.reports.get? q = some r →
          ws.reports.get? q = some r ∨ host.Refused q r ∨ ∀ e ∈ r.errors, e.cause.Founded := by
  refine ⟨?_, fun host n => host.check_founded n env path tree ws⟩
  obtain ⟨herrors, hreports⟩ := Host.own.check_founded ws.sources.capacity env path tree ws
  rw [Host.check_own] at herrors hreports
  refine ⟨herrors, fun q r hq => ?_⟩
  exact (hreports q r hq).imp_right fun h => h.elim Host.own_refused id

section

-- The run below is evaluated as a whole and not unfolded.
attribute [local irreducible] Workspace.check

def misfitFiles : Entries String :=
  [("lib", "a: number = \"s\"\nf = (x: number) x\nf(a) f(f) f(\"s\")")]

def misfitSource : String :=
  "import(\"./lib\")\nt: number\n[t]\nn = 1\nn(n)\n%\x7b a: n \x7d.b\nn.a\nimport(\"./none\").a"

theorem misfit_causes_founded :
    let tree := treeOf (parseSource misfitSource "main" 256)
    let ws := Workspace.ofSources (.ofFiles misfitFiles)
    let outcome := ws.check ⟨[], .standard⟩ "main" tree
    (∀ e ∈ outcome.1.errors, e.cause.Founded) ∧
      (∀ q r, outcome.2.reports.get? q = some r → ∀ e ∈ r.errors, e.cause.Founded) ∧
      outcome.1.errors.map (·.cause.name) = ["ExpressionWithoutValueUsedAsValue",
        "CallingNonCallableExpression", "EntryDoesNotExistOnRecord", "AccessingNonRecord",
        "FileNotFound"] ∧
      (outcome.2.reports.flatMap fun e => e.2.errors.map (·.cause.name)) =
        ["VariableTypeMismatch", "FunctionParametersMismatch", "FunctionParametersMismatch"] := by
  intro tree ws outcome
  obtain ⟨herrors, hreports⟩ := (reported_causes_founded ⟨[], .standard⟩ "main" tree ws).1
  refine ⟨herrors, fun q r hq => ?_, by decide +kernel, by decide +kernel⟩
  exact (hreports q r hq).resolve_left (by simp [ws, Workspace.ofSources, Entries.get?])

end

end ShapeCheck
