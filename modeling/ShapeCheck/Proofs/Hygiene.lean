import Mathlib.Data.Nat.Basic
import ShapeCheck.Prelude
import ShapeCheck.Proofs.Answering
import ShapeCheck.Proofs.Discipline

/-!
# Placeholders are kept apart

Every check of a file numbers its placeholders on its own, and those that come with an import are
renumbered. At every moment of a run all placeholders of a context are below its next number, so the
ones that it gets from there on are new. Whoever answers the imports, this is so: a file that is
checked twice is checked in two contexts.
-/

namespace ShapeCheck

def Ty.Mentions (id : Nat) (t : Ty) : Prop :=
  .placeholder id ∈ t.leaves

def Context.Mentions (id : Nat) (c : Context) : Prop :=
  ∃ v ∈ c.bindings, v.type.Mentions id

def Event.Introduces (id : Nat) : Event → Prop
  | .allocated t => t.Mentions id
  | .imported vs => ∃ v ∈ vs, v.type.Mentions id
  | .started | .settled _ | .annotated _ | .filled _ _ | .read _ _ _ | .changed | .typed _ => False

instance (id : Nat) : (event : Event) → Decidable (event.Introduces id)
  | .allocated t => inferInstanceAs (Decidable (.placeholder id ∈ t.leaves))
  | .imported vs => inferInstanceAs (Decidable (∃ v ∈ vs, .placeholder id ∈ v.type.leaves))
  | .started | .settled _ | .annotated _ | .filled _ _ | .read _ _ _ | .changed | .typed _ =>
    inferInstanceAs (Decidable False)

structure Moment.Hygienic (m : Moment) : Prop where
  bindings : ∀ id, m.context.Mentions id → id < m.context.nextId
  typed : ∀ t, m.event = .typed t → ∀ id, t.Mentions id → id < m.context.nextId
  introduced : ∀ id, m.event.Introduces id → id < m.context.nextId ∧ ¬ m.context.Mentions id

def Event.isStarted : Event → Bool
  | .started => true
  | _ => false

/-- The moments of the latest check that had just these files open, back to its start. The files
that it imports are checked with more files open. -/
def Moment.run (stack : List String) : List Moment → List Moment
  | [] => []
  | m :: earlier =>
    if m.context.importStack = stack then
      if m.event.isStarted then [m] else m :: Moment.run stack earlier
    else Moment.run stack earlier

/-- None of the moments brings or mentions a placeholder that this one brings. -/
def Moment.Apart (m : Moment) (others : List Moment) : Prop :=
  ∀ id, m.event.Introduces id → ∀ m' ∈ others, ¬ m'.event.Introduces id ∧ ¬ m'.context.Mentions id

/-- The variables are the exports, with placeholders that are different wherever they are different
there. -/
def Renumbered (exports vs : List Variable) : Prop :=
  ∃ f : Nat → Nat,
    vs.flatMap (·.type.leaves) = (exports.flatMap (·.type.leaves)).map (.relabel f) ∧
      ∀ i j, .placeholder i ∈ exports.flatMap (·.type.leaves) →
        .placeholder j ∈ exports.flatMap (·.type.leaves) → f i = f j → i = j

def Workspace.Shows (ws : Workspace) (r : Report) : Prop :=
  ∃ m ∈ ws.trail, r = ⟨m.context.errors, m.context.exports, false⟩

/-- The trail keeps placeholders apart, if the reports that were imported are `Given`. -/
structure Workspace.Hygienic (Given : Report → Prop) (ws : Workspace) : Prop where
  moments : ∀ m ∈ ws.trail, m.Hygienic
  apart : ∀ m earlier, m :: earlier <:+ ws.trail →
    m.Apart (Moment.run m.context.importStack earlier)
  imported : ∀ m ∈ ws.trail, ∀ vs, m.event = .imported vs → ∃ r, Given r ∧ Renumbered r.exports vs

namespace Workspace.Hygienic

variable {Given Given' : Report → Prop} {ws ws' : Workspace}

theorem startTrail (ws : Workspace) : ws.startTrail.Hygienic Given where
  moments m hm := by cases hm
  apart m earlier h := by
    have hnil := List.suffix_nil.mp h
    cases hnil
  imported m hm := by cases hm

theorem mono (h : ws.Hygienic Given) (hgiven : ∀ r, Given r → Given' r)
    (htrail : ws'.trail = ws.trail) : ws'.Hygienic Given' := by
  constructor
  · rw [htrail]
    exact h.moments
  · rw [htrail]
    exact h.apart
  · rw [htrail]
    intro m hm vs e
    obtain ⟨r, hr, hvs⟩ := h.imported m hm vs e
    exact ⟨r, hgiven r hr, hvs⟩

theorem note {m : Moment} (h : ws.Hygienic Given) (hgiven : ∀ r, Given r → Given' r)
    (hm : m.Hygienic) (hapart : m.Apart (Moment.run m.context.importStack ws.trail))
    (himported : ∀ vs, m.event = .imported vs → ∃ r, Given r ∧ Renumbered r.exports vs) :
    (ws.note m).Hygienic Given' := by
  refine ⟨List.forall_mem_cons.mpr ⟨hm, h.moments⟩, ?_, ?_⟩
  · intro m' earlier hsuffix
    rcases List.suffix_cons_iff.mp hsuffix with heq | hsuffix
    · cases heq
      exact hapart
    · exact h.apart m' earlier hsuffix
  · intro m' hm' vs e
    have hall := List.forall_mem_cons.mpr ⟨himported, h.imported⟩
    obtain ⟨r, hr, hvs⟩ := hall m' hm' vs e
    exact ⟨r, hgiven r hr, hvs⟩

end Workspace.Hygienic

/-- The trail of `ws` goes on in `ws'` with checks that have more files open than `stack`. -/
def Workspace.Advances (stack : List String) (ws ws' : Workspace) : Prop :=
  ∃ added, ws'.trail = added ++ ws.trail ∧ ∀ m ∈ added, stack.length < m.context.importStack.length

theorem Workspace.Advances.of_eq {stack : List String} {ws ws' : Workspace}
    (h : ws'.trail = ws.trail) : ws.Advances stack ws' :=
  ⟨[], h, by simp⟩

/-- Checks with more files open are other runs. -/
theorem Moment.run_append {stack : List String} : ∀ {added : List Moment} (trail : List Moment),
    (∀ m ∈ added, stack.length < m.context.importStack.length) →
      Moment.run stack (added ++ trail) = Moment.run stack trail
  | [], _, _ => rfl
  | m :: added, trail, h => by
    have hne : m.context.importStack ≠ stack := by
      rintro rfl
      exact Nat.lt_irrefl _ (h m List.mem_cons_self)
    rw [List.cons_append, Moment.run, if_neg hne]
    exact Moment.run_append trail fun m' hm' => h m' (List.mem_cons_of_mem _ hm')

theorem Moment.mem_run_cons {stack : List String} {m m' : Moment} {earlier : List Moment}
    (h : m' ∈ Moment.run stack (m :: earlier)) : m' = m ∨ m' ∈ Moment.run stack earlier := by
  unfold Moment.run at h
  split at h
  · split at h
    · exact Or.inl (List.mem_singleton.mp h)
    · exact List.mem_cons.mp h
  · exact Or.inr h

theorem Moment.mem_of_mem_run {stack : List String} {m : Moment} {trail : List Moment}
    (h : m ∈ Moment.run stack trail) : m ∈ trail := by
  induction trail with
  | nil => cases h
  | cons m' earlier ih =>
    rcases Moment.mem_run_cons h with rfl | h
    · exact List.mem_cons_self
    · exact List.mem_cons_of_mem _ (ih h)

/-- While the host answers the imports, the reports that are imported are `Given`. -/
structure Host.Provides (host : Host) (Given : Workspace → Report → Prop) : Prop where
  note : ∀ {ws r} (m : Moment), Given ws r → Given (ws.note m) r
  record : ∀ {ws r} (request : Request), Given ws r → Given (ws.record request) r
  kept : ∀ {ws b r}, host.report? ws b = some r → Given (ws.record (.lookup b)) r
  refused : ∀ {ws b r} (e : Error), host.report? ws b = none → Given (ws.opening b) r →
    Given ((ws.opening b).save b (.ofSyntaxError e)) r
  finished : ∀ {n : Nat} {c : Context} {ws b} (tree : Stmt), host.report? ws b = none →
    let o := checkFile (host.importer n) c.environment b c.importStack tree (ws.opening b)
    o.2.Shows o.1 → Given (o.2.save b o.1) o.1 ∧ ∀ r, Given o.2 r → Given (o.2.save b o.1) r

/-! ## The discipline -/

/-- A state in a check that has the files of `stack` open and started when the trail was
`before`. -/
structure Tracks (Given : Workspace → Report → Prop) (stack : List String) (before : List Moment)
    (s : Checking) : Prop where
  importStack : s.context.importStack = stack
  globals : ∀ v ∈ s.context.environment.globals, ∀ id, ¬ v.type.Mentions id
  hygienic : s.workspace.Hygienic (Given s.workspace)
  /-- The checks around this one rest. -/
  added : ∃ added, s.workspace.trail = added ++ before ∧
    ∀ m ∈ added, stack.length ≤ m.context.importStack.length
  /-- The trail shows every context. -/
  current : ∃ m ∈ s.workspace.trail, m.context = s.context
  /-- The numbers of this context only go up. -/
  own : ∀ m ∈ Moment.run stack s.workspace.trail, m.context.nextId ≤ s.context.nextId

/-- Placeholders are below the next number. -/
def hygiene (Given : Workspace → Report → Prop) (stack : List String) (before : List Moment) :
    Discipline Nat where
  world s := s.context.nextId
  Allows next l := ∀ id, l = .placeholder id → id < next
  loose := False
  Extra := Tracks Given stack before
  Offers s r := Given s.workspace r

section
variable {Given : Workspace → Report → Prop} {stack : List String} {before : List Moment}

theorem strict_hygiene_iff {next : Nat} {t : Ty} :
    (hygiene Given stack before).Strict next t ↔ ∀ id, t.Mentions id → id < next := by
  constructor
  · intro h id hid
    exact h _ hid id rfl
  · rintro h l hl id rfl
    exact h id hl

section
variable {s : Checking} {event : Event} {c : Context}
variable (hs : (hygiene Given stack before).Holds s)
variable (hf : (hygiene Given stack before).Fits s event c)
include hf

/-- What a step brings is new. -/
theorem Discipline.Fits.introduced {id : Nat} (h : event.Introduces id) :
    s.context.nextId ≤ id ∧ id < c.nextId ∧ c.bindings = s.context.bindings := by
  rcases hf.event with hplain | ⟨rfl, rfl⟩ | ⟨t, rfl, -⟩ | ⟨r, -, rfl, rfl⟩
  · cases event with
    | allocated t => cases hplain
    | imported vs => cases hplain
    | _ => cases h
  · cases List.mem_singleton.mp h
    exact ⟨Nat.le_refl _, Nat.lt_succ_self _, rfl⟩
  · cases h
  · obtain ⟨v, hv, hid⟩ := h
    obtain ⟨hle, hlt⟩ := Context.placeholder_instantiate hv hid
    exact ⟨hle, hlt, rfl⟩

theorem Discipline.Fits.imported {vs : List Variable} (e : event = .imported vs) :
    ∃ r, Given s.workspace r ∧ Renumbered r.exports vs := by
  rcases hf.event with hplain | ⟨rfl, -⟩ | ⟨t, rfl, -⟩ | ⟨r, hr, rfl, -⟩
  · rw [e] at hplain
    cases hplain
  · cases e
  · cases e
  · cases e
    exact ⟨r, hr, Context.relabel_instantiate s.context r.exports⟩

theorem Discipline.Fits.typed {t : Ty} (e : event = .typed t) {id : Nat} (hid : t.Mentions id) :
    id < c.nextId := by
  rcases hf.event with hplain | ⟨rfl, -⟩ | ⟨t', rfl, hlax⟩ | ⟨r, -, rfl, -⟩
  · rw [e] at hplain
    cases hplain
  · cases e
  · cases e
    rcases hlax with hstrict | ⟨hloose, -⟩
    · exact strict_hygiene_iff.mp hstrict id hid
    · cases hloose
  · cases e

include hs

theorem Discipline.Fits.hygienic : Moment.Hygienic ⟨event, c⟩ where
  bindings id := by
    rintro ⟨v, hv, hid⟩
    exact strict_hygiene_iff.mp (hf.bindings v hv) id hid
  typed t e id hid := hf.typed e hid
  introduced id hid := by
    obtain ⟨hle, hlt, hvars⟩ := hf.introduced hid
    refine ⟨hlt, ?_⟩
    rintro ⟨v, hv, hmem⟩
    rw [hvars] at hv
    exact Nat.not_lt.mpr hle (strict_hygiene_iff.mp (hs.bindings v hv) id hmem)

/-- An earlier moment of this check had only numbers below the next one of its time. -/
theorem Discipline.Fits.apart :
    Moment.Apart ⟨event, c⟩ (Moment.run stack s.workspace.trail) := by
  intro id hid m hm
  have hmem : m ∈ s.workspace.trail := Moment.mem_of_mem_run hm
  have hle := Nat.le_trans (hs.extra.own m hm) (hf.introduced hid).1
  have hhygienic := hs.extra.hygienic.moments m hmem
  constructor
  · intro h
    exact Nat.not_lt.mpr hle (hhygienic.introduced id h).1
  · intro h
    exact Nat.not_lt.mpr hle (hhygienic.bindings id h)

theorem Tracks.move {host : Host} (hG : host.Provides Given) :
    Tracks Given stack before (s.move event c) := by
  have h := hs.extra
  have hstack : c.importStack = stack := hf.importStack.trans h.importStack
  refine ⟨hstack, ?_, ?_, ?_, ⟨⟨event, c⟩, List.mem_cons_self, rfl⟩, ?_⟩
  · rw [Checking.context_move, hf.environment]
    exact h.globals
  · refine h.hygienic.note (fun r => hG.note _) (hf.hygienic hs) ?_ fun vs => hf.imported
    show Moment.Apart ⟨event, c⟩ (Moment.run c.importStack s.workspace.trail)
    rw [hstack]
    exact hf.apart hs
  · obtain ⟨added, htrail, hadded⟩ := h.added
    refine ⟨⟨event, c⟩ :: added, congrArg (List.cons _) htrail, ?_⟩
    exact List.forall_mem_cons.mpr ⟨Nat.le_of_eq (congrArg List.length hstack.symm), hadded⟩
  · intro m hm
    rcases Moment.mem_run_cons hm with rfl | hm
    · exact Nat.le_refl _
    · exact Nat.le_trans (h.own m hm) hf.nextId

end

theorem hygiene_lawful {host : Host} (hG : host.Provides Given) :
    (hygiene Given stack before).Lawful where
  mono hw h id e := Nat.lt_of_lt_of_le (h id e) hw
  empty := Or.inr fun _ _ e => by cases e
  later _ _ _ _ hnext := hnext
  reported _ _ _ := ⟨fun _ e => (by cases e), fun hloose => hloose.elim⟩
  allocated s _ id e := by
    cases e
    exact Nat.lt_succ_self _
  move _ _ _ hs hf := Tracks.move hs hf hG

/-- Other files are checked without touching this context. -/
theorem Tracks.advance {c : Context} {ws ws' : Workspace}
    (h : Tracks Given stack before ⟨c, ws⟩) (hhygienic : ws'.Hygienic (Given ws'))
    (hadvances : ws.Advances stack ws') : Tracks Given stack before ⟨c, ws'⟩ := by
  obtain ⟨later, htrail, hlater⟩ := hadvances
  refine ⟨h.importStack, h.globals, hhygienic, ?_, ?_, ?_⟩
  · obtain ⟨added, hbefore, hadded⟩ := h.added
    refine ⟨later ++ added, ?_, fun m hm => ?_⟩
    · rw [htrail, List.append_assoc]
      exact congrArg (later ++ ·) hbefore
    · rcases List.mem_append.mp hm with hm | hm
      · exact Nat.le_of_lt (hlater m hm)
      · exact hadded m hm
  · obtain ⟨m, hm, e⟩ := h.current
    exact ⟨m, htrail ▸ List.mem_append_right _ hm, e⟩
  · show ∀ m ∈ Moment.run stack ws'.trail, _
    rw [htrail, Moment.run_append _ hlater]
    exact h.own

end

/-! ## Files and imports -/

section
variable {host : Host} {Given : Workspace → Report → Prop} (hG : host.Provides Given)
variable {env : Environment} {ws : Workspace}
variable (hglobals : ∀ v ∈ env.globals, ∀ id, ¬ v.type.Mentions id)
include hG hglobals

/-- The check of a file starts a new run. -/
theorem hygiene_start (h : ws.Hygienic (Given ws)) (b : String) (stack : List String) :
    (hygiene Given (stack ++ [b]) ws.trail).Holds (.start env b stack ws) := by
  have hvars : ∀ v ∈ (Context.start env b (stack ++ [b])).bindings, ∀ id, ¬ v.type.Mentions id :=
    fun v hv => hglobals v (Context.mem_globals_of_start hv)
  let m : Moment := ⟨.started, Context.start env b (stack ++ [b])⟩
  have hstarted : m.Hygienic :=
    ⟨fun id ⟨v, hv, hid⟩ => absurd hid (hvars v hv id), fun _ e => (by cases e), fun _ h => h.elim⟩
  refine ⟨fun v hv => strict_hygiene_iff.mpr fun id hid => absurd hid (hvars v hv id),
    rfl, hglobals, ?_, ⟨[m], rfl, by simp [m, Context.start]⟩, ⟨m, List.mem_cons_self, rfl⟩, ?_⟩
  · exact h.note (fun r => hG.note m) hstarted (fun _ h => h.elim) fun _ e => by cases e
  · show ∀ m' ∈ Moment.run (stack ++ [b]) (m :: ws.trail), _
    have hrun : Moment.run (stack ++ [b]) (m :: ws.trail) = [m] := if_pos rfl
    rw [hrun]
    exact List.forall_mem_singleton.mpr (Nat.le_refl _)

theorem checkFile_hygienic {imports : Importer}
    (himports : ∀ stack before requested span w, (hygiene Given stack before).Ensures w
      (hygiene Given stack before).Lax (imports requested span))
    (h : ws.Hygienic (Given ws)) (b : String) (stack : List String) (tree : Stmt) :
    let r := checkFile imports env b stack tree ws
    r.2.Hygienic (Given r.2) ∧ ws.Advances stack r.2 ∧ r.2.Shows r.1 := by
  have hstart := hygiene_start hG hglobals h b stack
  obtain ⟨⟨-, hend⟩, -, -⟩ := Discipline.stmt_ensures (hygiene_lawful hG) (himports _ _) tree
    (Or.inr fun _ _ e => by cases e) _ _ hstart (Nat.le_refl _)
  rw [checkFile_run]
  refine ⟨hend.hygienic, ?_, ?_⟩
  · obtain ⟨added, htrail, hadded⟩ := hend.added
    exact ⟨added, htrail, fun m hm => Nat.lt_of_lt_of_le (by simp) (hadded m hm)⟩
  · obtain ⟨m, hm, e⟩ := hend.current
    exact ⟨m, hm, by rw [e]⟩

end

section
variable {host : Host} {Given : Workspace → Report → Prop} (hG : host.Provides Given)
include hG

theorem Host.answer_hygienic {n : Nat} {c : Context} {b : String} {ws : Workspace}
    (h : ws.Hygienic (Given ws))
    (hopen : ∀ (m : Nat) (tree : Stmt), n = m + 1 →
      let o := checkFile (host.importer m) c.environment b c.importStack tree (ws.opening b)
      o.2.Hygienic (Given o.2) ∧ (ws.opening b).Advances c.importStack o.2 ∧ o.2.Shows o.1) :
    let o := host.answer (host.opener n c b) b ws
    o.2.Hygienic (Given o.2) ∧ ws.Advances c.importStack o.2 ∧
      ∀ r, o.1 = some r → r.unparsable = false → Given o.2 r := by
  have hopening : (ws.opening b).Hygienic (Given (ws.opening b)) :=
    h.mono (fun r hr => hG.record _ (hG.record _ hr)) rfl
  unfold Host.answer
  split
  · rename_i report hkept
    refine ⟨h.mono (fun r => hG.record _) rfl, .of_eq rfl, fun r e _ => ?_⟩
    cases e
    exact hG.kept hkept
  · rename_i hnone
    split
    · exact ⟨hopening, .of_eq rfl, fun r e => by cases e⟩
    · rename_i e _
      refine ⟨hopening.mono (fun r => hG.refused e hnone) rfl, .of_eq rfl, fun r hr hparsable => ?_⟩
      cases hr
      cases hparsable
    · rename_i tree _
      cases n with
      | zero => exact ⟨hopening, .of_eq rfl, fun r e => by cases e⟩
      | succ m =>
        obtain ⟨hhygienic, ⟨added, htrail, hadded⟩, hshows⟩ := hopen m tree rfl
        obtain ⟨hgiven, hgrows⟩ := hG.finished (n := m) (c := c) tree hnone hshows
        refine ⟨hhygienic.mono hgrows rfl, ⟨added, htrail, hadded⟩, fun r e _ => ?_⟩
        cases e
        exact hgiven

theorem Host.importer_hygienic : ∀ (n : Nat) (stack : List String) (before : List Moment)
    (requested : String) (span : Span) (w : Nat),
    (hygiene Given stack before).Ensures w (hygiene Given stack before).Lax
      (host.importer n requested span)
  | n, stack, before, requested, span, w => by
    rw [host.importer_eq]
    refine Discipline.importThrough_ensures (hygiene_lawful hG) (fun s b hs _ => ?_) requested span w
    have h := hs.extra
    obtain ⟨hhygienic, hadvances, hgiven⟩ := Host.answer_hygienic hG (n := n) (c := s.context)
      (b := b) h.hygienic fun m tree hm => by
        subst hm
        refine checkFile_hygienic hG h.globals (Host.importer_hygienic m) ?_ b _ tree
        exact h.hygienic.mono (fun r hr => hG.record _ (hG.record _ hr)) rfl
    rw [h.importStack] at hadvances
    refine ⟨⟨hs.bindings, h.advance hhygienic hadvances⟩, Nat.le_refl _, fun report hr => ?_⟩
    refine ⟨hgiven report hr, fun v hv => ?_⟩
    exact strict_hygiene_iff.mpr fun id hid => (Context.placeholder_instantiate hv hid).2

theorem Host.check_hygienic {env : Environment}
    (hglobals : ∀ v ∈ env.globals, ∀ id, ¬ v.type.Mentions id) (n : Nat) (path : String)
    (tree : Stmt) (ws : Workspace) :
    let outcome := host.check n env path tree ws
    outcome.2.Shows outcome.1 ∧ outcome.2.Hygienic (Given outcome.2) := by
  obtain ⟨hhygienic, -, hshows⟩ := checkFile_hygienic hG hglobals
    (Host.importer_hygienic hG n) (.startTrail ws) (Path.normalize path) [] tree
  exact ⟨hshows, hhygienic⟩

end

/-! ## Programs -/

/-- The files of a workspace are imported with the reports that it keeps. -/
theorem Host.own_provides : own.Provides fun ws r => ∃ q, ws.reports.get? q = some r where
  note _ h := h
  record _ h := h
  kept {_ b _} h := ⟨b, h⟩
  refused := by
    rintro ws b r e hnone ⟨q, hq⟩
    have hgrows : Entries.Grows [] ws.reports (ws.reports.insert b (.ofSyntaxError e)) :=
      Entries.Grows.refl.insert hnone (by simp) _
    exact ⟨q, hgrows.kept q r hq⟩
  finished := by
    intro n c ws b tree hnone o _
    have hgrows : Entries.Grows (c.importStack ++ [b]) ws.reports o.2.reports := by
      have hopens := (opener_opens (n + 1) c b tree (ws.opening b)).2
      rw [opener_succ, ← Host.importer_own] at hopens
      exact hopens
    have hnew : o.2.reports.get? b = none := (hgrows.unfinished b (by simp)).trans hnone
    have hinsert : Entries.Grows [] o.2.reports (o.2.reports.insert b o.1) :=
      Entries.Grows.refl.insert hnew (by simp) _
    refine ⟨⟨b, ?_⟩, fun r => ?_⟩
    · rw [Workspace.reports_save, Entries.get?_insert, if_pos rfl]
    · rintro ⟨q, hq⟩
      exact ⟨q, hinsert.kept q r hq⟩

/-- A report that is imported comes from the host or from a check of this run. -/
theorem Host.provides (host : Host) :
    host.Provides fun ws r => (∃ ws' q, host.report? ws' q = some r) ∨ ws.Shows r where
  note _ h := h.imp_right fun ⟨m, hm, e⟩ => ⟨m, List.mem_cons_of_mem _ hm, e⟩
  record _ h := h
  kept {ws b _} h := Or.inl ⟨ws, b, h⟩
  refused _ _ h := h
  finished _ _ hshows := ⟨Or.inr hshows, fun _ h => h⟩

/-- The trail of a run shows the context that the report is made of. Whatever stands in a context
is below its next number, what is new in it is new, and nothing is brought into it twice. -/
theorem placeholders_kept_apart (env : Environment)
    (hglobals : ∀ v ∈ env.globals, ∀ id, ¬ v.type.Mentions id) (path : String) (tree : Stmt)
    (ws : Workspace) :
    let outcome := ws.check env path tree
    (outcome.2.Shows outcome.1 ∧
      outcome.2.Hygienic fun r => ∃ q, outcome.2.reports.get? q = some r) ∧
    ∀ (host : Host) (n : Nat),
      let outcome := host.check n env path tree ws
      outcome.2.Shows outcome.1 ∧
        outcome.2.Hygienic fun r => (∃ ws' q, host.report? ws' q = some r) ∨ outcome.2.Shows r := by
  have hown := Host.check_hygienic Host.own_provides hglobals ws.sources.capacity path tree ws
  rw [Host.check_own] at hown
  exact ⟨hown, fun host n => Host.check_hygienic host.provides hglobals n path tree ws⟩

def Host.forgetful : Host where
  report? _ _ := none
  tree? ws path := ws.sources.parse? path

def twiceImporting : Stmt :=
  treeOf (parseSource "a = import(\"./lib\")\nb = import(\"./lib\")\nf = (y) y" "main" 256)

section

-- The runs below are evaluated as a whole and not unfolded.
attribute [local irreducible] Workspace.check Host.check

/-- With the forgetful host, the imported file is checked in two runs. -/
theorem twice_imported_apart :
    let ws := Workspace.ofSources (.ofFiles [("lib", "export id = (x) x")])
    let outcome := ws.check ⟨Prelude.globals, .standard⟩ "main" twiceImporting
    let forgetting := Host.forgetful.check 1 ⟨Prelude.globals, .standard⟩ "main" twiceImporting ws
    (∀ id < 3, ∃ m ∈ outcome.2.trail, m.context.path = "main" ∧ m.event.Introduces id) ∧
      (outcome.2.trail.filter (·.event.isStarted)).length = 2 ∧
      (forgetting.2.trail.filter (·.event.isStarted)).length = 3 ∧
      (outcome.2.Shows outcome.1 ∧
        outcome.2.Hygienic fun r => ∃ q, outcome.2.reports.get? q = some r) ∧
      forgetting.2.Shows forgetting.1 ∧ forgetting.2.Hygienic fun r =>
        (∃ ws' q, Host.forgetful.report? ws' q = some r) ∨ forgetting.2.Shows r := by
  intro ws outcome forgetting
  have hintroduced : ∀ id < 3, ∃ m ∈ outcome.2.trail,
      m.context.path = "main" ∧ m.event.Introduces id := by decide +kernel
  have hruns : (outcome.2.trail.filter (·.event.isStarted)).length = 2 := by decide +kernel
  have hforgetting : (forgetting.2.trail.filter (·.event.isStarted)).length = 3 := by
    decide +kernel
  have hleaves : ∀ v ∈ Prelude.globals, v.type.leaves = [] := by decide +kernel
  have hglobals : ∀ v ∈ Prelude.globals, ∀ id, ¬ v.type.Mentions id := by
    intro v hv id hid
    rw [Ty.Mentions, hleaves v hv] at hid
    cases hid
  obtain ⟨hown, hhost⟩ :=
    placeholders_kept_apart ⟨Prelude.globals, .standard⟩ hglobals "main" twiceImporting ws
  exact ⟨hintroduced, hruns, hforgetting, hown, hhost Host.forgetful 1⟩

end

end ShapeCheck
