import ShapeCheck.Proofs.Held

/-!
# Placeholders that do not come back

Held types are the only way back for a placeholder that a call has settled: once it is retired, no
context of its file mentions it again.

A contract wants that what was said of a type stays true of it. A live type stays so only as long as
it is held, so the forms are gone through once more here, with the types that are held in view.
-/

namespace ShapeCheck

/-! ## Checks -/

namespace CheckM

/-- From a state that satisfies `P`, the check reaches one that satisfies `Q`. What the phrases
around the innermost open one hold stays live, and so does what that one holds if the check is an
`inner` part of it. -/
def Upholds {α : Type} (inner : Bool) (P : Checking → Prop) (m : CheckM α)
    (Q : α → Checking → Prop) : Prop :=
  ∀ s : Checking, s.Coherent → s.context.scopes ≠ [] → P s →
    s.Reaches (s.context.depth + inner.toNat) (m s).2 ∧ Q (m s).1 (m s).2

section
variable {α β : Type} {inner : Bool} {P P' : Checking → Prop} {Q Q' : α → Checking → Prop}
variable {R : β → Checking → Prop} {given : List Ty}

namespace Upholds

theorem pure {a : α} (h : ∀ s, P s → Q a s) : Upholds inner P (Pure.pure a : CheckM α) Q :=
  fun s hs _ hp => ⟨hs.reaches_refl, h s hp⟩

/-- Only the last step may leave to the phrase what it holds. -/
theorem bind {m : CheckM α} {f : α → CheckM β} (hm : Upholds true P m Q)
    (hf : ∀ a, Upholds inner (Q a) (f a) R) : Upholds inner P (m >>= f) R := by
  intro s hs hscopes hp
  obtain ⟨h, hq⟩ := hm s hs hscopes hp
  obtain ⟨h', hr⟩ := hf _ _ h.coherent (h.scopes_ne_nil hscopes) hq
  rw [h.depth] at h'
  have hk : s.context.depth + inner.toNat ≤ s.context.depth + 1 :=
    Nat.add_le_add_left (Bool.toNat_le inner) _
  exact ⟨(h.mono hk).trans hs hk h', hr⟩

theorem weaken {m : CheckM α} (h : Upholds inner P m Q) (hp : ∀ s, P' s → P s)
    (hq : ∀ a s, Q a s → Q' a s) : Upholds inner P' m Q' := by
  intro s hs hscopes hp'
  obtain ⟨h, hq'⟩ := h s hs hscopes (hp s hp')
  exact ⟨h, hq _ _ hq'⟩

theorem outer {m : CheckM α} (h : Upholds true P m Q) : Upholds false P m Q := by
  intro s hs hscopes hp
  obtain ⟨h, hq⟩ := h s hs hscopes hp
  exact ⟨h.mono (Nat.le_succ _), hq⟩

/-- What does not depend on the state holds throughout. -/
theorem assuming {K : Prop} {m : CheckM α} (h : K → Upholds inner P m Q) :
    Upholds inner (fun s => P s ∧ K) m Q :=
  fun s hs hscopes hp => h hp.2 s hs hscopes hp.1

/-- What every check keeps is kept on the way. -/
theorem frame {K : Checking → Prop} {m : CheckM α} (h : Upholds true P m Q)
    (hK : ∀ s s' : Checking, s.Coherent → s.Reaches (s.context.depth + 1) s' → K s → K s') :
    Upholds true (fun s => P s ∧ K s) m fun a s => Q a s ∧ K s := by
  intro s hs hscopes hp
  obtain ⟨h, hq⟩ := h s hs hscopes hp.1
  exact ⟨h, hq, hK _ _ hs h hp.2⟩

theorem read {f : Context → α} (h : ∀ s : Checking, s.Coherent → P s → Q (f s.context) s) :
    Upholds inner P (CheckM.read f) Q :=
  fun s hs _ hp => ⟨hs.reaches_refl, h s hs hp⟩

/-- A step that settles nothing. -/
theorem step {event : α → Event} {f : Context → α × Context}
    (hevent : ∀ a, ¬ (event a).IsSettled)
    (hframed : ∀ c : Context, c.scopes ≠ [] →
      ∃ σ declared exported, c.Framed σ declared exported (f c).2)
    (hvars : ∀ s : Checking, s.Coherent → P s →
      let s' := s.move (event (f s.context).1) (f s.context).2
      (∀ v ∈ (f s.context).2.bindings, v ∈ s.context.bindings ∨ s'.Live v.type) ∧
        Q (f s.context).1 s') :
    Upholds inner P (onContext event f) Q := by
  intro s hs hscopes hp
  obtain ⟨hbindings, hq⟩ := hvars s hs hp
  have hc := hframed s.context hscopes
  refine ⟨hs.reaches_move (hevent _) hc fun v hv => ?_, hq⟩
  obtain ⟨σ, declared, exported, hc⟩ := hc
  rcases hbindings v hv with hv | hv
  · exact (hs.bindings v hv).move (hevent _) hc.succeeds
  · exact hv

theorem modify {f : Context → Context} {R : Checking → Prop}
    (hframed : ∀ c : Context, c.scopes ≠ [] →
      ∃ σ declared exported, c.Framed σ declared exported (f c))
    (hvars : ∀ s : Checking, s.Coherent → P s →
      let s' := s.move .changed (f s.context)
      (∀ v ∈ (f s.context).bindings, v ∈ s.context.bindings ∨ s'.Live v.type) ∧ R s') :
    Upholds inner P (modifyContext f) fun _ => R := by
  show Upholds inner P (onContext (fun _ => .changed) fun c => ((), f c)) _
  exact step (fun _ => id) hframed hvars

end Upholds

/-- Neither a note nor an error makes the statement false. -/
def Stable (P : Checking → Prop) : Prop :=
  ∀ (s : Checking) (event : Event) (c : Context), ¬ event.IsSettled →
    s.context.Framed [] [] [] c → c.bindings = s.context.bindings → s.Coherent → P s →
      P (s.move event c)

theorem stable_true : Stable fun _ => True :=
  fun _ _ _ _ _ _ _ _ => trivial

theorem stable_live (t : Ty) : Stable fun s => s.Live t :=
  fun _ _ _ hevent hframed _ _ h => h.move hevent hframed.succeeds

theorem stable_carries (given : List Ty) : Stable (Checking.Carries given) := by
  intro s event c hevent hframed hbindings hs h
  refine (hs.reaches_move hevent ⟨_, _, _, hframed⟩ fun v hv => ?_).carries hs h
  exact (hs.bindings v (hbindings ▸ hv)).move hevent hframed.succeeds

theorem report_upholds (hP : Stable P) (cause : Cause) (span : Span) :
    Upholds inner P (report cause span) fun _ s => P s :=
  .modify (fun c _ => ⟨[], [], [], c.framed_report cause span⟩) fun s hs h =>
    ⟨fun _ hv => Or.inl hv, hP s _ _ id (s.context.framed_report cause span) rfl hs h⟩

theorem note_upholds (hP : Stable P) {event : Event} (hevent : ¬ event.IsSettled) :
    Upholds inner P (note event) fun _ s => P s := by
  show Upholds inner P (onContext (fun _ => event) fun c => ((), c)) fun _ s => P s
  refine .step (fun _ => hevent) (fun c _ => ⟨[], [], [], .refl c⟩) fun s hs h => ?_
  exact ⟨fun _ hv => Or.inl hv, hP s event s.context hevent (.refl _) rfl hs h⟩

theorem noteDeclared_upholds (hP : Stable P) (declared : Option Ty) (type : Ty) :
    Upholds inner P (noteDeclared declared type) fun _ s => P s := by
  unfold noteDeclared
  split
  · exact note_upholds hP id
  · exact .pure fun _ h => h

theorem fail_upholds (cause : Cause) (span : Span) :
    Upholds inner P (fail cause span) fun t s => s.Live t := by
  have h : Upholds true P (report cause span) fun _ _ => True :=
    (report_upholds stable_true cause span).weaken (fun _ _ => trivial) fun _ _ h => h
  exact h.bind fun _ => .pure fun s _ => s.live_ignore

/-! ## Phrases -/

/-- The type that the phrase is found to have is live, and it is held if a phrase around it can hold
it. -/
def Phrase (m : CheckM Ty) : Prop :=
  ∀ s : Checking, s.Coherent → s.context.scopes ≠ [] →
    s.Reaches (s.context.depth + 1) (m s).2 ∧ (m s).2.Live (m s).1 ∧
      (s.Plain → (m s).1 ∈ (m s).2.held s.context.depth)

theorem Phrase.live {m : CheckM Ty} (h : Phrase m) : Upholds true P m fun t s => s.Live t := by
  intro s hs hscopes _
  obtain ⟨hreaches, hlive, -⟩ := h s hs hscopes
  exact ⟨hreaches, hlive⟩

theorem Phrase.carries {m : CheckM Ty} (h : Phrase m) (given : List Ty) :
    Upholds true (Checking.Carries given) m fun t s => s.Carries (t :: given) := by
  intro s hs hscopes hcarries
  obtain ⟨hreaches, hlive, hheld⟩ := h s hs hscopes
  obtain ⟨hplain, hgiven⟩ := hreaches.carries hs hcarries
  refine ⟨hreaches, hplain, List.forall_mem_cons.mpr ⟨⟨hlive, ?_⟩, hgiven⟩⟩
  rw [hreaches.depth]
  exact hheld hcarries.1

/-- The type of a phrase is noted where the phrase around it goes on. -/
theorem phrase_typed {s s₁ : Checking} {c : Context} {t : Ty} (hs : s.Coherent)
    (h : s.Reaches (s.context.depth + 1) s₁) (hc : s₁.context = c) (ht : s₁.Live t) :
    s.Reaches (s.context.depth + 1) (s₁.move (.typed t) c) ∧ (s₁.move (.typed t) c).Live t ∧
      (s.Plain → t ∈ (s₁.move (.typed t) c).held s.context.depth) := by
  subst hc
  have hframed : ∃ σ declared exported, s₁.context.Framed σ declared exported s₁.context :=
    ⟨[], [], [], .refl _⟩
  have hsucceeds : s₁.context.Succeeds s₁.context := ⟨rfl, rfl, rfl, Nat.le_refl _⟩
  have hlive : ∀ {u}, s₁.Live u → (s₁.move (.typed t) s₁.context).Live u :=
    fun hu => hu.move id hsucceeds
  refine ⟨h.trans hs (Nat.le_refl _) ?_, hlive ht, fun hplain => ?_⟩
  · exact h.coherent.reaches_move id hframed fun v hv => hlive (h.coherent.bindings v hv)
  · rw [Checking.held, Checking.history_move rfl, ← h.depth]
    exact mem_heldTypes_typed (Nat.le_refl _) ((h.plain hs).mpr hplain)

theorem nested_phrase {m : CheckM Ty} (span : Span)
    (h : Upholds false (Checking.Carries []) m fun t s => s.Live t) : Phrase (nested span m) := by
  intro s hs hscopes
  cases henter : s.context.enter? with
  | none =>
    rw [nested_none henter]
    have hfail : Upholds true (fun _ => True)
        (fail (.nestingTooDeep s.context.environment.config.maxDepth) span) fun t s => s.Live t :=
      fail_upholds _ span
    obtain ⟨hreaches, hlive⟩ := hfail s hs hscopes trivial
    exact phrase_typed hs hreaches rfl hlive
  | some inner =>
    obtain rfl := enter?_eq_some henter
    rw [nested_some henter]
    let c : Context := { s.context with depth := s.context.depth + 1 }
    have hc : c.Succeeds s.context := ⟨rfl, rfl, rfl, Nat.le_refl _⟩
    have hs₁ : (s.move .changed c).Coherent :=
      hs.move id hc fun v hv => (hs.bindings v hv).move id hc
    have hplain : (s.move .changed c).Plain := by
      obtain ⟨event, older, hhistory⟩ := hs.latest
      show c.unscoped (s.move .changed c).history = true
      rw [Checking.history_move hc.path, hhistory]
      simp [Context.unscoped, c]
    let r := m (s.move .changed c)
    obtain ⟨hreaches, hlive⟩ : (s.move .changed c).Reaches (s.context.depth + 1) r.2 ∧
        r.2.Live r.1 := h _ hs₁ hscopes ⟨hplain, by simp⟩
    obtain ⟨σ, declared, exported, hframed⟩ := hreaches.framed
    have hleave : r.2.context.leave.Succeeds r.2.context := ⟨rfl, rfl, rfl, Nat.le_refl _⟩
    have hleft : s.Reaches (s.context.depth + 1) (r.2.move .changed r.2.context.leave) :=
      hreaches.around hc (Nat.le_succ _) (Nat.le_refl _) id hleave hframed.leave.depth.ge
        (fun v hv => hv) ⟨_, _, _, hframed.leave⟩
    exact phrase_typed hs hleft rfl (hlive.move id hleave)

theorem checkName_upholds (x : String) (span : Span) :
    Upholds false P (checkName x span) fun t s => s.Live t := by
  refine Upholds.bind (Q := fun o s => ∀ v, o = some v → s.Live v.type)
    (.read fun s hs _ v hv => hs.bindings v ?_) fun o => ?_
  · obtain ⟨scope, hscope, hv⟩ := List.exists_of_findSome?_eq_some hv
    exact List.mem_append_left _
      (List.mem_flatten.mpr ⟨scope, hscope, List.mem_of_find?_eq_some hv⟩)
  · cases o with
    | none => exact fail_upholds _ span
    | some v => exact .pure fun s h => h v rfl

theorem checkAccess_upholds (t : Ty) (entry : String) (span : Span) :
    Upholds true (fun s => s.Live t) (checkAccess t entry span) fun t s => s.Live t := by
  unfold checkAccess
  split
  · exact .pure fun s h => h
  · split
    · rename_i type he
      exact .pure fun s h => Discipline.strict_entry (Or.inl h) he
    · exact fail_upholds _ span
  · exact fail_upholds _ span

theorem requireValue_upholds (hP : Stable P) (t : Ty) (span : Span) :
    Upholds inner P (requireValue t span) fun _ s => P s := by
  unfold requireValue
  split
  · exact report_upholds hP _ span
  · exact .pure fun _ h => h

theorem requireFit_upholds (hP : Stable P) (x : String) (declared value : Option Ty)
    (span : Span) : Upholds inner P (requireFit x declared value span) fun _ s => P s := by
  unfold requireFit
  split
  · split
    · exact report_upholds hP _ span
    · exact .pure fun _ h => h
  · exact .pure fun _ h => h

theorem checkRedeclared_upholds (hP : Stable P) (x : String) (span : Span) :
    Upholds inner P (checkRedeclared x span) fun _ s => P s := by
  refine Upholds.bind (Q := fun _ => P) (.read fun _ _ h => h) fun redeclared => ?_
  split
  · exact (report_upholds hP _ span).bind fun _ => .pure fun _ h => h
  · exact .pure fun _ h => h

theorem signature?_upholds (hP : Stable P) (t : Ty) (span : Span) :
    Upholds inner P (signature? t span) fun o s =>
      P s ∧ ∀ ps r, o = some (ps, r) → t = .function true ps r := by
  unfold signature?
  split
  · exact .pure fun _ h => ⟨h, fun _ _ e => by cases e⟩
  · refine .pure fun _ h => ⟨h, fun _ _ e => ?_⟩
    cases e
    rfl
  · refine (report_upholds hP _ span).bind fun _ => .pure fun _ h => ⟨h, fun _ _ e => ?_⟩
    cases e

theorem checkCall_upholds (parameters : List Ty) (result : Ty) (arguments : List Ty)
    (span : Span) :
    Upholds false
      (fun s => (∀ t ∈ parameters, s.Live t) ∧ s.Live result ∧ ∀ t ∈ arguments, s.Live t)
      (checkCall parameters result arguments span) fun t s => s.Live t := by
  unfold checkCall
  split
  · exact .pure fun s _ => s.live_ignore
  · split
    · exact fail_upholds _ span
    · intro s hs _ ⟨hparameters, hresult, harguments⟩
      obtain ⟨hreaches, hlive⟩ := hs.reaches_settle hparameters harguments
      exact ⟨hreaches, Discipline.strict_withValue (hlive result hresult)⟩

theorem declare_upholds (x : String) (redeclared : Bool) (t : Ty) :
    Upholds inner (fun s => s.Live t) (declare x redeclared t) fun v s =>
      s.Live v.type ∧ s.context.isDeclared v.name = true := by
  let v : Variable := ⟨x, if redeclared then .ignore else t⟩
  have hv : ∀ s : Checking, s.Live t → s.Live v.type := by
    intro s h
    show s.Live (if redeclared then .ignore else t)
    split
    · exact s.live_ignore
    · exact h
  have hdeclare : Upholds true (fun s => s.Live t) (modifyContext (Context.declare v)) fun _ s =>
      s.Live v.type ∧ s.context.isDeclared v.name = true := by
    refine .modify (fun c hscopes => ⟨_, _, _, c.framed_declare v hscopes⟩) fun s _ ht => ?_
    have hlive : (s.move .changed (s.context.declare v)).Live v.type :=
      (hv s ht).move id (s.context.declare_succeeds v)
    refine ⟨fun u hu => ?_, hlive, s.context.isDeclared_declare v⟩
    rcases Context.mem_bindings_declare hu with rfl | hu
    · exact Or.inr hlive
    · exact Or.inl hu
  exact hdeclare.bind fun _ => .pure fun _ h => h

theorem exportVariable_upholds (v : Variable) :
    Upholds inner (fun s => s.Live v.type) (modifyContext (Context.exportVariable v))
      fun _ _ => True := by
  refine .modify (fun c _ => ⟨_, _, _, c.framed_exportVariable v⟩) fun s _ hv => ⟨?_, trivial⟩
  intro u hu
  rcases Context.mem_bindings_exportVariable hu with rfl | hu
  · exact Or.inr (hv.move id (s.context.framed_exportVariable u).succeeds)
  · exact Or.inl hu

/-- A check in a scope of its own. -/
theorem scoped_upholds {m : CheckM α} {f : α → Ty}
    (h : Upholds true (fun _ => True) m fun a s => s.Live (f a)) :
    Upholds true P (do
      modifyContext Context.push
      let a ← m
      modifyContext Context.pop
      return f a) fun t s => s.Live t := by
  intro s hs _ _
  have hpush : s.context.push.Succeeds s.context := ⟨rfl, rfl, rfl, Nat.le_refl _⟩
  have hs₁ : (s.move .changed s.context.push).Coherent :=
    hs.move id hpush fun v hv => (hs.bindings v hv).move id hpush
  let r := m (s.move .changed s.context.push)
  obtain ⟨hreaches, hlive⟩ : (s.move .changed s.context.push).Reaches (s.context.depth + 1) r.2 ∧
      r.2.Live (f r.1) := h _ hs₁ (List.cons_ne_nil _ _) trivial
  obtain ⟨σ, declared, exported, hframed⟩ := hreaches.framed
  have hpop : r.2.context.pop.Succeeds r.2.context := ⟨rfl, rfl, rfl, Nat.le_refl _⟩
  show s.Reaches _ (r.2.move .changed r.2.context.pop) ∧
    (r.2.move .changed r.2.context.pop).Live (f r.1)
  refine ⟨hreaches.around hpush (Nat.le_refl _) (Nat.le_refl _) id hpop hframed.pop.depth.ge ?_
    ⟨_, _, _, hframed.pop⟩, hlive.move id hpop⟩
  exact fun v hv => Context.mem_bindings_pop hv

end

end CheckM

open CheckM

/-! ## Types and parameters -/

section
variable {given : List Ty}

mutual
theorem TypeExpr.check_phrase : ∀ t : TypeExpr, Phrase t.check
  | .name x span => nested_phrase span (checkName_upholds x span)
  | .number span => nested_phrase span (.pure fun _ _ => Discipline.strict_number)
  | .string span => nested_phrase span (.pure fun _ _ => Discipline.strict_string)
  | .tuple items span => by
    refine nested_phrase span ((TypeExpr.checkEach_carries items []).bind ?_)
    intro types
    exact .pure fun s h => Discipline.strict_tuple fun t ht => h.live (by simp [ht])
  | .record entries span => by
    refine nested_phrase span
      ((TypeExpr.checkEntries_carries entries []).bind fun es => ?_)
    exact .pure fun s h => Discipline.strict_record fun e he =>
      h.live (List.mem_append_left _ (List.mem_map_of_mem he))
  | .access t entry span => by
    refine nested_phrase span (Upholds.bind (TypeExpr.check_phrase t).live ?_)
    exact fun accessed => (checkAccess_upholds accessed entry span).outer
  | .function parameters result span => by
    refine nested_phrase span
      ((TypeExpr.checkEach_carries parameters []).bind fun ps => ?_)
    refine ((TypeExpr.check_phrase result).carries _).bind fun r => ?_
    exact .pure fun s h => Discipline.strict_function (fun t ht => h.live (by simp [ht]))
      (h.live List.mem_cons_self)
  | .atom a => by
    refine nested_phrase a.span
      ((TypeExpr.checkAtom_carries a []).bind fun a => ?_)
    exact .pure fun s h => Discipline.strict_atom fun t ht => h.live (by simp [ht])
  | .union atoms span => by
    refine nested_phrase span
      ((TypeExpr.checkAtoms_carries atoms []).bind fun as => ?_)
    refine .pure fun s h => Discipline.strict_union fun a ha =>
      Discipline.strict_atom fun t ht => h.live ?_
    exact List.mem_append_left _ (List.mem_flatMap.mpr ⟨a, ha, ht⟩)
termination_by structural t => t
theorem TypeExpr.checkEach_carries : ∀ (ts : List TypeExpr) (given : List Ty),
    Upholds true (Checking.Carries given) (TypeExpr.checkEach ts)
      fun types s => s.Carries (types ++ given)
  | [], given => .pure fun s h => h
  | t :: ts, given => by
    refine ((TypeExpr.check_phrase t).carries given).bind fun type => ?_
    refine (TypeExpr.checkEach_carries ts _).bind fun types => .pure fun s h => ?_
    exact h.subset fun u hu => by simpa [or_left_comm] using hu
termination_by structural ts => ts
theorem TypeExpr.checkEntries_carries : ∀ (es : List (String × TypeExpr)) (given : List Ty),
    Upholds true (Checking.Carries given) (TypeExpr.checkEntries es)
      fun types s => s.Carries (types.map Prod.snd ++ given)
  | [], given => .pure fun s h => h
  | (_, t) :: es, given => by
    refine ((TypeExpr.check_phrase t).carries given).bind fun type => ?_
    refine (TypeExpr.checkEntries_carries es _).bind fun types =>
      .pure fun s h => ?_
    exact h.subset fun u hu => by simpa [or_left_comm] using hu
termination_by structural es => es
theorem TypeExpr.checkAtom_carries : ∀ (a : AtomNode TypeExpr) (given : List Ty),
    Upholds true (Checking.Carries given) (TypeExpr.checkAtom a)
      fun a s => s.Carries (a.arguments ++ given)
  | ⟨_, arguments, _⟩, given =>
    (TypeExpr.checkEach_carries arguments given).bind fun _ => .pure fun _ h => h
termination_by structural a => a
theorem TypeExpr.checkAtoms_carries : ∀ (as : List (AtomNode TypeExpr)) (given : List Ty),
    Upholds true (Checking.Carries given) (TypeExpr.checkAtoms as)
      fun as s => s.Carries (as.flatMap Atom.arguments ++ given)
  | [], given => .pure fun s h => h
  | a :: as, given => by
    refine (TypeExpr.checkAtom_carries a given).bind fun a => ?_
    refine (TypeExpr.checkAtoms_carries as _).bind fun as => .pure fun s h => ?_
    exact h.subset fun u hu => by simpa [or_left_comm] using hu
termination_by structural as => as
end

theorem TypeExpr.checkOptional_carries (t : Option TypeExpr) :
    Upholds true (Checking.Carries given) (TypeExpr.checkOptional t)
      fun o s => s.Carries (o.toList ++ given) := by
  cases t with
  | none => exact .pure fun s h => h
  | some t =>
    exact ((TypeExpr.check_phrase t).carries given).bind fun _ => .pure fun _ h => h

theorem Parameter.checkType_upholds {P : Checking → Prop} (p : Parameter) :
    Upholds true P p.checkType fun t s => s.Live t := by
  unfold Parameter.checkType
  split
  · rename_i t _
    refine t.check_phrase.live.bind fun type => ?_
    refine (note_upholds (stable_live type) id).bind fun _ => ?_
    exact .pure fun _ h => Discipline.strict_withValue h
  · refine .step (fun _ => id) (fun c _ => ⟨_, _, _, c.framed_allocate⟩) fun s hs _ => ?_
    refine ⟨fun _ hv => Or.inl hv, Checking.live_iff.mpr fun id hid => ?_⟩
    cases List.mem_singleton.mp hid
    refine ⟨Nat.lt_succ_self _, fun hretired => ?_⟩
    exact Nat.lt_irrefl _ (hs.given _ ((retired_move (by exact id)).mp hretired))

theorem Parameter.check_upholds (p : Parameter) :
    Upholds true (fun _ => True) p.check fun v s => s.context.isDeclared v.name = true := by
  refine p.checkType_upholds.bind fun t => ?_
  refine (checkRedeclared_upholds (stable_live t) p.name p.span).bind fun redeclared => ?_
  exact (declare_upholds p.name redeclared t).weaken (fun _ h => h) fun _ _ h => h.2

/-- The parameters of a function are in its scope. -/
theorem Parameter.checkEach_upholds : ∀ ps : List Parameter,
    Upholds true (fun _ => True) (Parameter.checkEach ps) fun vs s =>
      ∀ v ∈ vs, s.context.isDeclared v.name = true
  | [] => .pure fun _ _ => by simp
  | p :: ps => by
    refine p.check_upholds.bind fun v => ?_
    have hrest := (Parameter.checkEach_upholds ps).frame
      (K := fun s => s.context.isDeclared v.name = true) fun _ _ _ h hv => h.isDeclared hv
    refine (hrest.weaken (fun _ h => ⟨trivial, h⟩) fun _ _ h => h).bind fun vs => .pure ?_
    exact fun _ h => List.forall_mem_cons.mpr ⟨h.2, h.1⟩

end

/-! ## Expressions and statements -/

section
variable {imports : Importer}

def Importer.BringsLive (imports : Importer) : Prop :=
  ∀ path span, Upholds false (fun _ => True) (imports path span) fun t s => s.Live t

mutual
theorem Expr.check_phrase (himports : imports.BringsLive) : ∀ e : Expr, Phrase (e.check imports)
  | .name x span => nested_phrase span (checkName_upholds x span)
  | .number _ span => nested_phrase span (.pure fun _ _ => Discipline.strict_number)
  | .string _ span => nested_phrase span (.pure fun _ _ => Discipline.strict_string)
  | .tuple items span => by
    refine nested_phrase span ((Expr.checkValues_carries himports items []).bind fun types => ?_)
    exact .pure fun s h => Discipline.strict_tuple fun t ht => h.live (by simp [ht])
  | .record entries span => by
    refine nested_phrase span ((Expr.checkEntries_carries himports entries []).bind fun es => ?_)
    exact .pure fun s h => Discipline.strict_record fun e he =>
      h.live (List.mem_append_left _ (List.mem_map_of_mem he))
  | .access e entry span => by
    refine nested_phrase span ((Expr.check_phrase himports e).live.bind fun accessed => ?_)
    refine (checkAccess_upholds accessed entry span).bind fun type => ?_
    exact (note_upholds (stable_live type) id).bind fun _ => .pure fun _ h => h
  | .function parameters body span => by
    have hinner : Upholds true (fun _ => True) (do
        let bound ← Parameter.checkEach parameters
        let result ← body.check imports
        return refreshParameters (← read Context.innermost) bound result)
        fun (r : List Ty × Ty) s => s.Live (.function r.2.hasValue r.1 r.2) := by
      refine (Parameter.checkEach_upholds parameters).bind fun bound => ?_
      have hbody := (Stmt.check_phrase himports body).live.frame (P := fun _ => True)
        (K := fun s => ∀ v ∈ bound, s.context.isDeclared v.name = true)
        fun _ _ _ h hbound v hv => h.isDeclared (hbound v hv)
      refine (hbody.weaken (fun _ h => ⟨trivial, h⟩) fun _ _ h => h).bind fun result => ?_
      refine Upholds.bind (.read fun s hs h => ?_) fun scope => .pure fun s h => h
      refine (Discipline.lax_refreshed (D := usage) ?_ ?_ (Or.inl h.1)).resolve_right fun h => h.1
      · exact fun v hv => hs.bindings v (Context.mem_bindings_of_innermost hv)
      · intro v hv hnone
        have hdeclared := h.2 v hv
        rw [Context.isDeclared, hnone] at hdeclared
        cases hdeclared
    exact nested_phrase span
      (scoped_upholds (f := fun r : List Ty × Ty => .function r.2.hasValue r.1 r.2) hinner).outer
  | .call callee arguments span => by
    refine nested_phrase span (((Expr.check_phrase himports callee).carries []).bind fun t => ?_)
    refine (signature?_upholds (stable_carries [t]) t callee.span).bind fun signature => ?_
    refine .assuming fun hsignature => ?_
    refine (Expr.checkValues_carries himports arguments [t]).bind fun types => ?_
    cases signature with
    | none => exact .pure fun s _ => s.live_ignore
    | some signature =>
      refine (checkCall_upholds signature.1 signature.2 types span).weaken (fun s h => ?_)
        fun _ _ h => h
      have ht : s.Live (.function true signature.1 signature.2) := by
        rw [← hsignature signature.1 signature.2 rfl]
        exact h.live (by simp)
      obtain ⟨hparameters, hresult⟩ := Discipline.strict_signature (Or.inl ht)
      exact ⟨hparameters, hresult, fun u hu => h.live (List.mem_append_left _ hu)⟩
  | .importFile path span =>
    nested_phrase span ((himports path span).weaken (fun _ _ => trivial) fun _ _ h => h)
  | .atom x arguments span => by
    refine nested_phrase span
      ((Expr.checkValues_carries himports arguments []).bind fun types => ?_)
    exact .pure fun s h => Discipline.strict_atom fun t ht => h.live (by simp [ht])
termination_by structural e => e
theorem Expr.checkValues_carries (himports : imports.BringsLive) :
    ∀ (es : List Expr) (given : List Ty),
    Upholds true (Checking.Carries given) (Expr.checkValues imports es)
      fun types s => s.Carries (types ++ given)
  | [], given => .pure fun s h => h
  | e :: es, given => by
    refine ((Expr.check_phrase himports e).carries given).bind fun type => ?_
    refine (requireValue_upholds (stable_carries _) type e.span).bind fun _ => ?_
    refine (Expr.checkValues_carries himports es _).bind fun types => .pure fun s h => ?_
    exact h.subset fun u hu => by simpa [or_left_comm] using hu
termination_by structural es => es
theorem Expr.checkEntries_carries (himports : imports.BringsLive) :
    ∀ (es : List (String × Expr)) (given : List Ty),
    Upholds true (Checking.Carries given) (Expr.checkEntries imports es)
      fun types s => s.Carries (types.map Prod.snd ++ given)
  | [], given => .pure fun s h => h
  | (_, e) :: es, given => by
    refine ((Expr.check_phrase himports e).carries given).bind fun type => ?_
    refine (requireValue_upholds (stable_carries _) type e.span).bind fun _ => ?_
    refine (note_upholds (stable_carries _) id).bind fun _ => ?_
    refine (Expr.checkEntries_carries himports es _).bind fun types => .pure fun s h => ?_
    exact h.subset fun u hu => by simpa [or_left_comm] using hu
termination_by structural es => es
theorem Expr.checkOptional_carries (himports : imports.BringsLive) :
    ∀ (e : Option Expr) (given : List Ty),
    Upholds true (Checking.Carries given) (Expr.checkOptional imports e)
      fun o s => s.Carries (o.toList ++ given)
  | none, given => .pure fun s h => h
  | some e, given => by
    refine ((Expr.check_phrase himports e).carries given).bind fun type => ?_
    exact (requireValue_upholds (stable_carries _) type e.span).bind fun _ => .pure fun _ h => h
termination_by structural e => e
theorem Stmt.checkAssignment_upholds (himports : imports.BringsLive) : ∀ a : Assignment Expr,
    Upholds true (Checking.Carries []) (Stmt.checkAssignment imports a) fun v s => s.Live v.type
  | ⟨x, declared, value, span⟩ => by
    refine (checkRedeclared_upholds (stable_carries []) x span).bind fun redeclared => ?_
    refine (TypeExpr.checkOptional_carries declared).bind fun declared => ?_
    refine (Expr.checkOptional_carries himports value _).bind fun value => ?_
    refine (requireFit_upholds (stable_carries _) x declared value span).bind fun _ => ?_
    refine (noteDeclared_upholds (stable_carries _) declared _).bind fun _ => ?_
    refine (declare_upholds x redeclared _).weaken (fun s h => ?_) fun _ _ h => h.1
    refine Discipline.strict_assignedType (fun t e => h.live ?_) (fun t e => h.live ?_)
      (Or.inr fun _ e => by cases e)
    · simp [e]
    · simp [e]
termination_by structural a => a
theorem Stmt.check_phrase (himports : imports.BringsLive) : ∀ s : Stmt, Phrase (s.check imports)
  | .block [] span => by
    refine nested_phrase span ((report_upholds (stable_carries []) .emptyBlock span).bind ?_)
    exact fun _ => .pure fun s _ => s.live_empty
  | .block (first :: rest) span => by
    have hinner : Upholds true (fun _ => True) (do
        let type ← first.check imports
        Stmt.checkRest imports type rest) fun t s => s.Live t :=
      (Stmt.check_phrase himports first).live.bind fun type =>
        Stmt.checkRest_upholds himports rest type
    exact nested_phrase span (scoped_upholds (f := id) hinner).outer
  | .assign a => by
    refine nested_phrase a.span ((Stmt.checkAssignment_upholds himports a).bind fun _ => ?_)
    exact .pure fun s _ => s.live_empty
  | .exported a span => by
    refine nested_phrase span ?_
    refine Upholds.bind (Q := fun _ s => s.Carries []) (.read fun _ _ h => h) fun atFileRoot => ?_
    refine Upholds.bind (Q := fun _ s => s.Carries []) (.read fun _ _ h => h) fun redeclared => ?_
    refine (Stmt.checkAssignment_upholds himports a).bind fun v => ?_
    split
    · exact (report_upholds (stable_live v.type) .nestedExport span).bind fun _ =>
        .pure fun s _ => s.live_empty
    · split
      · refine (exportVariable_upholds v).bind fun _ => .pure fun s _ => s.live_empty
      · exact .pure fun s _ => s.live_empty
  | .expr e => Expr.check_phrase himports e
  | .type t => t.check_phrase
termination_by structural s => s
theorem Stmt.checkRest_upholds (himports : imports.BringsLive) : ∀ (ss : List Stmt) (type : Ty),
    Upholds true (fun s => s.Live type) (Stmt.checkRest imports type ss) fun t s => s.Live t
  | [], _ => .pure fun _ h => h
  | s :: ss, _ => (Stmt.check_phrase himports s).live.bind fun type =>
    Stmt.checkRest_upholds himports ss type
termination_by structural ss => ss
end

end

/-! ## Imports and files -/

/-- While the files of `stack` are checked, no moment mentions a retired placeholder. -/
structure Workspace.NoRetired (stack : List String) (ws : Workspace) : Prop where
  retiredGone : RetiredGone ws.trail
  known : ws.Known stack

/-- `ws'` has further moments, of files outside `stack`. -/
def Workspace.Adds (stack : List String) (ws ws' : Workspace) : Prop :=
  ∃ added, ws'.trail = added ++ ws.trail ∧ ∀ m ∈ added, m.context.path ∉ stack

section
variable {stack : List String} {ws ws' : Workspace} {b : String}

theorem Workspace.Adds.of_eq (h : ws'.trail = ws.trail) : ws.Adds stack ws' :=
  ⟨[], h, by simp⟩

theorem Workspace.NoRetired.save (h : ws.NoRetired (stack ++ [b])) (r : Report) :
    (ws.save b r).NoRetired stack :=
  ⟨h.retiredGone, h.known.save r⟩

theorem Workspace.NoRetired.mono {stack' : List String} (h : ws.NoRetired stack)
    (hs : stack ⊆ stack') :
    ws.NoRetired stack' :=
  ⟨h.retiredGone, h.known.mono hs⟩

theorem Workspace.report?_noRetired
    {open? : Context → String → Stmt → Workspace → Option Report × Workspace} {c : Context}
    (hb : b ∉ c.importStack) (h : ws.NoRetired c.importStack)
    (hopen : ∀ tree, (∀ m ∈ ws.trail, m.context.path ≠ b) →
      let r := open? c b tree (ws.opening b)
      (r.1 = none → r.2 = ws.opening b) ∧ ∀ report, r.1 = some report →
        r.2.NoRetired (c.importStack ++ [b]) ∧ (ws.opening b).Adds c.importStack r.2) :
    let r := ws.report? (open? c b) b
    r.2.NoRetired c.importStack ∧ ws.Adds c.importStack r.2 := by
  have hopening : (ws.opening b).NoRetired c.importStack := ⟨h.retiredGone, h.known⟩
  have hcases := reported_report? (open? c b) b ws
  generalize ws.report? (open? c b) b = o at hcases ⊢
  cases hcases with
  | kept _ => exact ⟨⟨h.retiredGone, h.known⟩, .of_eq rfl⟩
  | missing _ _ => exact ⟨hopening, .of_eq rfl⟩
  | unparsable _ _ =>
    exact ⟨(hopening.mono (List.subset_append_left _ _)).save _, .of_eq rfl⟩
  | @unopened tree ws' hget _ hrun =>
    obtain ⟨hsame, -⟩ := hopen tree (h.known.free hb hget)
    rw [hrun] at hsame
    obtain rfl : ws' = ws.opening b := hsame rfl
    exact ⟨hopening, .of_eq rfl⟩
  | @opened tree r ws' hget _ hrun =>
    obtain ⟨-, hopened⟩ := hopen tree (h.known.free hb hget)
    rw [hrun] at hopened
    obtain ⟨hgone, added, htrail, hadded⟩ := hopened r rfl
    exact ⟨hgone.save r, added, htrail, hadded⟩

/-- Other files are checked without touching the context. -/
theorem Checking.Coherent.reaches_workspace {s : Checking} {k : Nat} (h : s.Coherent)
    (hgone : ws'.NoRetired s.context.importStack)
    (hadds : s.workspace.Adds s.context.importStack ws') :
    s.Reaches k ⟨s.context, ws'⟩ := by
  obtain ⟨added, htrail, hadded⟩ := hadds
  have hother : ∀ m ∈ added, m.context.path ≠ s.context.path :=
    fun m hm e => hadded m hm (e ▸ h.inside)
  have hretired : ∀ id, Retired s.context.path id ws'.trail ↔
      Retired s.context.path id s.workspace.trail := by
    intro id
    rw [htrail, retired_append_iff hother]
  have hlive : ∀ {t}, s.Live t → Live ⟨s.context, ws'⟩ t := by
    intro t ht
    rw [live_iff] at ht ⊢
    intro id hid
    rw [hretired]
    exact ht id hid
  have hhistory : (⟨s.context, ws'⟩ : Checking).history = s.history := by
    show Moment.ofFile s.context.path ws'.trail = _
    rw [htrail, ofFile_append_of_ne hother]
    rfl
  refine ⟨⟨h.globals, h.inside, hgone.known, ?_, hgone.retiredGone, ?_, ?_⟩, ⟨_, _, _, .refl _⟩,
    ⟨added, htrail, fun m hm => Or.inr (hadded m hm)⟩, fun _ _ _ _ ht => hlive ht⟩
  · rw [hhistory]
    exact h.latest
  · exact fun id hid => h.given id ((hretired id).mp hid)
  · exact fun v hv => hlive (h.bindings v hv)

end

theorem checkReport_upholds (path : String) (span : Span) (report : Option Report) :
    Upholds true (fun _ => True) (checkReport path span report) fun t s => s.Live t := by
  unfold checkReport
  split
  · exact fail_upholds _ span
  · rename_i report
    split
    · exact fail_upholds _ span
    · refine Upholds.bind (Q := fun vs s => ∀ v ∈ vs, s.Live (Variable.type v))
        (.step (fun _ => id) (fun c _ => ⟨_, _, _, c.framed_instantiate _⟩) fun s hs _ => ?_)
        fun vs => .pure fun s h => ?_
      · refine ⟨fun _ hv => Or.inl hv, fun v hv => Checking.live_iff.mpr fun id hid => ?_⟩
        obtain ⟨hle, hlt⟩ := Context.placeholder_instantiate hv hid
        refine ⟨hlt, fun hretired => Nat.not_lt.mpr hle (hs.given id ?_)⟩
        exact (retired_move (by exact fun h => h)).mp hretired
      · refine Discipline.strict_record fun e he => ?_
        obtain ⟨v, hv, rfl⟩ := List.mem_map.mp he
        exact h v hv

section
variable {env : Environment} {stack : List String} {b : String} {ws : Workspace}

/-- The check of a file starts on a trail that has no moment of it. -/
theorem coherent_start (hglobals : ∀ v ∈ env.globals, ∀ id, ¬ v.type.Mentions id)
    (h : ws.NoRetired stack) (hb : ∀ m ∈ ws.trail, m.context.path ≠ b) :
    (Checking.start env b stack ws).Coherent := by
  let c := Context.start env b (stack ++ [b])
  have hmem : b ∈ stack ++ [b] := List.mem_append_right _ List.mem_cons_self
  have hvars : ∀ v ∈ c.bindings, ∀ id, ¬ v.type.Mentions id :=
    fun v hv => hglobals v (Context.mem_globals_of_start hv)
  have hretired : ∀ id, ¬ Retired b id (⟨.started, c⟩ :: ws.trail) := by
    rintro id (⟨-, hremoves, -⟩ | hretired)
    · cases hremoves
    · exact not_retired_of_ne hb hretired
  refine ⟨hglobals, hmem, ?_, ⟨.started, Moment.ofFile b ws.trail, ?_⟩, ⟨?_, h.retiredGone⟩,
    fun id hid => absurd hid (hretired id), ?_⟩
  · exact List.forall_mem_cons.mpr
      ⟨Or.inl hmem, (h.mono (List.subset_append_left _ _)).known⟩
  · show List.filter (fun m => m.context.path = b) (⟨.started, c⟩ :: ws.trail) = _
    exact List.filter_cons_of_pos (by simp [c, Context.start])
  · exact fun id hid => absurd hid (hretired id)
  · exact fun v hv => Checking.live_iff.mpr fun id hid => absurd hid (hvars v hv id)

theorem checkFile_noRetired {imports : Importer} (himports : imports.BringsLive)
    (hglobals : ∀ v ∈ env.globals, ∀ id, ¬ v.type.Mentions id) (tree : Stmt)
    (h : ws.NoRetired stack)
    (hstack : b ∉ stack) (hb : ∀ m ∈ ws.trail, m.context.path ≠ b) :
    let r := checkFile imports env b stack tree ws
    r.2.NoRetired (stack ++ [b]) ∧ ws.Adds stack r.2 := by
  obtain ⟨hreaches, -, -⟩ := Stmt.check_phrase himports tree _ (coherent_start hglobals h hb)
    (List.cons_ne_nil _ _)
  obtain ⟨σ, declared, exported, hframed⟩ := hreaches.framed
  obtain ⟨added, htrail, hadded⟩ := hreaches.added
  rw [checkFile_run]
  refine ⟨⟨hreaches.coherent.retiredGone, ?_⟩,
    added ++ [⟨.started, Context.start env b (stack ++ [b])⟩], ?_, ?_⟩
  · have hknown := hreaches.coherent.known
    rwa [hframed.importStack] at hknown
  · rw [List.append_assoc]
    exact htrail
  · rw [List.forall_mem_append]
    refine ⟨fun m hm => ?_, fun m hm => ?_⟩
    · rcases hadded m hm with hm | hm
      · rw [hm.1]
        exact hstack
      · exact fun hmem => hm (List.mem_append_left _ hmem)
    · rw [List.mem_singleton.mp hm]
      exact hstack

end

theorem importer_upholds_of_opener {n : Nat}
    (hopen : ∀ (c : Context) (b : String) (tree : Stmt) (ws : Workspace),
      (∀ v ∈ c.environment.globals, ∀ id, ¬ v.type.Mentions id) → ws.NoRetired c.importStack →
        b ∉ c.importStack → (∀ m ∈ ws.trail, m.context.path ≠ b) →
        let r := opener n c b tree ws
        (r.1 = none → r.2 = ws) ∧ ∀ report, r.1 = some report →
          r.2.NoRetired (c.importStack ++ [b]) ∧ ws.Adds c.importStack r.2)
    (requested : String) (span : Span) :
    Upholds true (fun _ => True) (importer n requested span) fun t s => s.Live t := by
  rw [importer_eq]
  intro s hs hscopes _
  cases htarget : Path.target? s.context.path requested with
  | none =>
    rw [importWith_invalid _ span htarget]
    exact fail_upholds (P := fun _ => True) _ span s hs hscopes trivial
  | some b =>
    by_cases hb : b ∈ s.context.importStack
    · rw [importWith_cyclic _ span htarget hb]
      exact fail_upholds (P := fun _ => True) _ span s hs hscopes trivial
    · rw [importWith_report _ span htarget hb]
      have hgone : s.workspace.NoRetired s.context.importStack := ⟨hs.retiredGone, hs.known⟩
      obtain ⟨hgone', hadds⟩ := Workspace.report?_noRetired hb hgone fun tree hfree =>
        hopen s.context b tree (s.workspace.opening b) hs.globals
          ⟨hs.retiredGone, hs.known⟩ hb hfree
      let r := s.workspace.report? (opener n s.context b) b
      have hreaches : s.Reaches (s.context.depth + 1) ⟨s.context, r.2⟩ :=
        hs.reaches_workspace hgone' hadds
      obtain ⟨hreaches', hlive⟩ :=
        checkReport_upholds b span r.1 ⟨s.context, r.2⟩ hreaches.coherent hscopes trivial
      exact ⟨hreaches.trans hs (Nat.le_refl _) hreaches', hlive⟩

theorem importer_upholds : ∀ (n : Nat) (requested : String) (span : Span),
    Upholds true (fun _ => True) (importer n requested span) fun t s => s.Live t
  | 0 => importer_upholds_of_opener fun _ _ _ _ _ _ _ _ => ⟨fun _ => rfl, fun _ h => by cases h⟩
  | n + 1 => by
    apply importer_upholds_of_opener
    intro c b tree ws hglobals h hstack hb
    refine ⟨fun hnone => (by cases hnone), fun report _ => ?_⟩
    exact checkFile_noRetired (fun path span => (importer_upholds n path span).outer)
      hglobals tree h
      hstack hb

/-! ## Programs -/

/-- A placeholder that a call of a run retires stands in no context of the file from then on. -/
theorem retired_not_mentioned (ws : Workspace) (env : Environment)
    (hglobals : ∀ v ∈ env.globals, ∀ id, ¬ v.type.Mentions id) (path : String) (tree : Stmt)
    {later earlier : List Moment} {m : Moment}
    (htrail : (ws.check env path tree).2.trail = later ++ m :: earlier) {id : Nat}
    (hm : m.Retires id earlier) :
    ∀ m' ∈ later ++ [m], m'.context.path = m.context.path → ¬ m'.context.Mentions id := by
  have hstart : ws.startTrail.NoRetired [] := ⟨trivial, fun m hm => by cases hm⟩
  obtain ⟨hgone, -⟩ := checkFile_noRetired (b := Path.normalize path)
    (fun path span => (importer_upholds ws.sources.capacity path span).outer) hglobals tree hstart
    List.not_mem_nil (by simp [Workspace.startTrail])
  have hretiredGone : RetiredGone (ws.check env path tree).2.trail := hgone.retiredGone
  rw [htrail] at hretiredGone
  exact hretiredGone.not_mentions hm

section

-- The runs below are evaluated as a whole and not unfolded.
attribute [local irreducible] Workspace.check

/-- A call in a tuple whose first item mentions no placeholder. -/
def settledInTuple : Stmt :=
  treeOf (parseSource "id = (x) x\nt = [1, id(\"a\")]" "main" 256)

theorem settledInTuple_not_mentioned :
    let ws := Workspace.ofSources (.ofFiles [])
    let trail := (ws.check ⟨Prelude.globals, .standard⟩ "main" settledInTuple).2.trail
    ∃ later m earlier, trail = later ++ m :: earlier ∧ later.length = 10 ∧ m.Retires 0 earlier ∧
      ∀ m' ∈ later ++ [m], m'.context.path = m.context.path → ¬ m'.context.Mentions 0 := by
  intro ws trail
  have hlength : 10 < trail.length := by decide +kernel
  have hretires : (trail.get ⟨10, hlength⟩).Retires 0 (trail.drop 11) := by
    decide +kernel +revert
  have htrail : trail = trail.take 10 ++ trail.get ⟨10, hlength⟩ :: trail.drop 11 := by
    simp
  have hglobals : ∀ v ∈ Prelude.globals, v.type.leaves = [] := by decide +kernel
  refine ⟨_, _, _, htrail, by decide +kernel, hretires, ?_⟩
  refine retired_not_mentioned ws ⟨Prelude.globals, .standard⟩ ?_ "main" _ htrail hretires
  intro v hv id hid
  rw [Ty.Mentions, hglobals v hv] at hid
  cases hid

/-- A call in a tuple whose first item is the function that is called. -/
def settledAfterItem : Stmt :=
  treeOf (parseSource "id = (x) x\nexport t = [id, id(1)]" "main" 256)

/-- The call removes the placeholder, and the tuple that is exported has it. -/
theorem settledAfterItem_exported :
    let ws := Workspace.ofSources (.ofFiles [])
    let outcome := ws.check ⟨Prelude.globals, .standard⟩ "main" settledAfterItem
    (∃ m ∈ outcome.2.trail, m.event.Removes 0 ∧ m.context.path = "main" ∧ ¬ m.context.Mentions 0) ∧
      ∃ v ∈ outcome.1.exports, v.type.Mentions 0 := by
  decide +kernel

end

end ShapeCheck
