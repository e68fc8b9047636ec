import ShapeCheck.Prelude
import ShapeCheck.Proofs.Answering
import ShapeCheck.Proofs.Leafwise
import ShapeCheck.Proofs.Parsed
import ShapeCheck.Proofs.Settling

/-!
# What was accepted stays accepted

A value is compared with a declared type when it is assigned, and calls that come later may settle
placeholders in both. This does not call the assignment into question: strict subtyping is kept by
every map that acts on placeholders and makes of each a type that fits itself. A call compares no
types that have failed, so all that is settled in a run is settled by such types.
-/

namespace ShapeCheck

namespace Ty

/-! ## Strict subtyping and leafwise maps -/

section
variable {f : Ty → Ty}

theorem FitsAtom.onArguments {a b : Atom Ty}
    (hparts : ∀ x ∈ a.arguments, ∀ {y}, subtype .strict x y → subtype .strict (f x) (f y))
    (h : FitsAtom .strict a b) : FitsAtom .strict (onArguments f a) (onArguments f b) := by
  refine ⟨h.1, ?_⟩
  rw [Ty.onArguments, Ty.onArguments, List.forall₂_map_left_iff, List.forall₂_map_right_iff]
  exact forall₂_of_parts h.2 fun x hx _ _ => hparts x hx

theorem Leafwise.strict (hf : Leafwise f)
    (hself : ∀ v w id, subtype .strict (f (.placeholder v id)) (f (.placeholder w id)))
    {a b : Ty} (h : subtype .strict a b) : subtype .strict (f a) (f b) := by
  induction a using induction_on_parts generalizing b with
  | number v =>
    cases strict_iff.mp h
    rw [hf.number, hf.number]
    exact Fits.number.subtype
  | string v =>
    cases strict_iff.mp h
    rw [hf.string, hf.string]
    exact Fits.string.subtype
  | tuple v items ih =>
    cases strict_iff.mp h with | tuple hxs =>
    rw [hf.tuple, hf.tuple]
    refine (Fits.tuple ?_).subtype
    rw [List.forall₂_map_left_iff, List.forall₂_map_right_iff]
    exact forall₂_of_parts hxs fun x hx _ _ => ih x hx
  | record v entries ih =>
    cases strict_iff.mp h with | record hxs =>
    rw [hf.record, hf.record]
    refine (Fits.record ?_).subtype
    rw [List.forall₂_map_left_iff, List.forall₂_map_right_iff]
    exact forall₂_of_parts hxs fun x hx _ _ hxy => ⟨hxy.1, ih x hx hxy.2⟩
  | function v parameters result ihs ih =>
    cases strict_iff.mp h with | function hps hr =>
    rw [hf.function, hf.function]
    refine (Fits.function ?_ (ih hr)).subtype
    rw [List.forall₂_map_left_iff, List.forall₂_map_right_iff]
    exact forall₂_of_parts hps fun p hp _ _ => ihs p hp
  | atom a ih =>
    rw [hf.atom]
    cases strict_iff.mp h with
    | atom hab =>
      rw [hf.atom]
      exact (Fits.atom (hab.onArguments ih)).subtype
    | member hb hab =>
      rw [hf.union]
      exact (Fits.member (List.mem_map_of_mem hb) (hab.onArguments ih)).subtype
  | union v atoms ih =>
    cases strict_iff.mp h with | union has =>
    rw [hf.union, hf.union]
    refine (Fits.union fun a' ha' => ?_).subtype
    -- a member still fits what it fitted before, since both have changed in the same way
    obtain ⟨a, ha, rfl⟩ := List.mem_map.mp ha'
    obtain ⟨b, hb, hab⟩ := has a ha
    exact ⟨_, List.mem_map_of_mem hb, hab.onArguments (ih a ha)⟩
  | placeholder v id =>
    cases strict_iff.mp h
    exact hself _ _ id
  | empty =>
    cases strict_iff.mp h
    rw [hf.empty]
    exact Fits.empty.subtype
  | ignore => cases strict_iff.mp h

end

theorem strict_substitute {id : Nat} {r : Ty} (hr : r.containsIgnore = false) {a b : Ty}
    (h : subtype .strict a b) : subtype .strict (substitute id r a) (substitute id r b) := by
  refine (leafwise_substitute id r).strict (fun v w i => ?_) h
  rw [substitute_placeholder, substitute_placeholder]
  split
  · rw [subtype_congr (valueless_withValue v r) (valueless_withValue w r)]
    exact subtype_self hr
  · exact Fits.placeholder.subtype

theorem strict_apply {σ : Substitution} (hσ : ∀ s ∈ σ, s.2.containsIgnore = false) {a b : Ty}
    (h : subtype .strict a b) : subtype .strict (a.apply σ) (b.apply σ) := by
  induction σ generalizing a b with
  | nil => exact h
  | cons s σ ih =>
    have hs : subtype .strict (substitute s.1 s.2 a) (substitute s.1 s.2 b) :=
      strict_substitute (hσ s (by simp)) h
    exact ih (fun s' hs' => hσ s' (by simp [hs'])) hs

end Ty

/-! ## What a run settles -/

def Checking.Sound (s : Checking) : Prop :=
  ∀ m ∈ s.workspace.trail, m.event.Sound

theorem Checking.Sound.move {s : Checking} (h : s.Sound) (event : Event) (hevent : event.Sound)
    (c : Context) : (s.move event c).Sound :=
  List.forall_mem_cons.mpr ⟨hevent, h⟩

theorem Checking.Sound.report {s : Checking} (h : s.Sound) (cause : Cause) (span : Span) :
    (s.move .changed (s.context.report cause span)).Sound :=
  h.move .changed (Event.sound_of_steps rfl) _

theorem Checking.Sound.congruence : Congruence fun _ _ m _ => m.Preserves Checking.Sound where
  pure _ _ h := h
  bind hm hf s h := hf _ _ (hm s h)
  read _ _ h := h
  step event _ hevent s h := by
    rw [CheckM.onContext_run]
    exact h.move _ (hevent _) _
  report span _ s h := h.report _ span
  nested span hm s h := by
    cases he : s.context.enter? with
    | none =>
      rw [CheckM.nested_none he]
      exact (h.report _ span).move (.typed .ignore) (Event.sound_of_steps rfl) _
    | some inner =>
      rw [CheckM.nested_some he]
      have hend := hm _ (h.move .changed (Event.sound_of_steps rfl) inner)
      refine Checking.Sound.move ?_ (.typed _) (Event.sound_of_steps rfl) _
      exact hend.move .changed (Event.sound_of_steps rfl) _

theorem Host.keeps_sound (host : Host) : host.Keeps fun _ s => s.Sound where
  steps _ := Checking.Sound.congruence
  cyclic b span h := h.report (.cyclicImport b) span
  lookup _ h := h
  load _ h := h
  refuse _ _ h := h
  start _ h := List.forall_mem_cons.mpr ⟨Event.sound_of_steps rfl, h⟩
  finish _ _ hend := hend

theorem Workspace.check_sound (env : Environment) (path : String) (tree : Stmt) (ws : Workspace) :
    ∀ m ∈ (ws.check env path tree).2.trail, m.event.Sound := by
  have hstart : (Checking.start env (Path.normalize path) [] ws.startTrail).Sound :=
    List.forall_mem_singleton.mpr (Event.sound_of_steps rfl)
  obtain ⟨s, hs, hrun⟩ :=
    Host.own.keeps_sound.check ws.sources.capacity env path tree ws hstart
  rw [← Host.check_own, hrun]
  exact hs

/-- **What was accepted stays accepted.** Strict subtyping is kept when a placeholder is replaced in
both types by a type that has not failed. So it is kept by whatever the calls of a run settle, one
after another. -/
theorem accepted_stays_accepted :
    (∀ (a b : Ty) (id : Nat) (r : Ty), r.containsIgnore = false → a.subtype .strict b →
      (Ty.substitute id r a).subtype .strict (Ty.substitute id r b)) ∧
    ∀ (ws : Workspace) (env : Environment) (path : String) (tree : Stmt) (later : List Moment),
      (∀ m ∈ later, m ∈ (ws.check env path tree).2.trail) → ∀ a b : Ty, a.subtype .strict b →
        (a.apply (later.flatMap (·.event.steps))).subtype .strict
          (b.apply (later.flatMap (·.event.steps))) := by
  refine ⟨fun a b id r hr h => Ty.strict_substitute hr h, ?_⟩
  intro ws env path tree later hlater a b h
  refine Ty.strict_apply (fun s hs => ?_) h
  obtain ⟨m, hm, hs⟩ := List.mem_flatMap.mp hs
  exact ws.check_sound env path tree m (hlater m hm) s hs

section

-- The run below is evaluated as a whole and not unfolded.
attribute [local irreducible] Workspace.check

/-- The second call settles a placeholder in what the first has settled another one by. -/
def settledInTurn : Stmt :=
  treeOf (parseSource "k = (x, y) x\nn = (z) k(@some([z]), \"s\")\nm = n(1)" "main" 256)

/-- A member of a union goes on to fit it. Without the condition on the replacement the law fails:
what has failed does not fit itself. -/
theorem widened_member_stays_accepted :
    let some (v : Bool) (id : Nat) : Atom Ty := ⟨"some", [.tuple v [.placeholder v id]], v⟩
    let a : Ty := .function true [.placeholder true 1] (.atom (some true 0))
    let b : Ty := .function false [.placeholder false 1]
      (.union false [⟨"none", [], true⟩, some false 0])
    let trail := ((Workspace.ofSources (.ofFiles [])).check ⟨Prelude.globals, .standard⟩ "main"
      settledInTurn).2.trail
    let σ := trail.reverse.flatMap (·.event.steps)
    (σ.map fun s => (s.1, s.2.render)) = [(0, "@some([?2])"), (1, "string"), (2, "number")] ∧
      (a.apply σ).subtype .strict (b.apply σ) ∧
      (Ty.substitute 0 b a).subtype .strict (Ty.substitute 0 b b) ∧
      ¬ (Ty.substitute 0 .ignore a).subtype .strict (Ty.substitute 0 .ignore b) := by
  intro some a b trail σ
  have hab : a.subtype .strict b := by decide
  refine ⟨by decide +kernel, ?_, accepted_stays_accepted.1 a b 0 b (by decide) hab, by decide⟩
  exact accepted_stays_accepted.2 _ _ "main" settledInTurn trail.reverse
    (fun m hm => List.mem_reverse.mp hm) a b hab

end

end ShapeCheck
