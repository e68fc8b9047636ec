import ShapeCheck.Proofs.Contract
import ShapeCheck.Proofs.Leaves

/-!
# Checks keep a discipline of types

A discipline is a contract that says which leaves the types in a state may have. The variables in
scope, the exports and the types of values keep to it strictly; in a loose discipline a phrase that
is no value may have any type but that of a record.
-/

namespace ShapeCheck

def Ty.isRecord : Ty → Bool
  | .record _ _ => true
  | _ => false

theorem Context.mem_bindings_of_innermost {c : Context} {v : Variable} (h : v ∈ c.innermost) :
    v ∈ c.bindings := by
  unfold Context.innermost at h
  unfold Context.bindings
  cases hs : c.scopes with
  | nil =>
    rw [hs] at h
    cases h
  | cons scope outer =>
    rw [hs] at h
    exact List.mem_append_left _ (List.mem_flatten.mpr ⟨scope, List.mem_cons_self, h⟩)

structure Discipline (W : Type) where
  world : Checking → W
  Allows : W → Leaf → Prop
  loose : Prop
  /-- What is kept besides the types of variables. -/
  Extra : Checking → Prop
  /-- The reports whose exports may be imported. -/
  Offers : Checking → Report → Prop

/-- Events that bring nothing into a context and give no phrase its type. -/
def Event.Plain : Event → Prop
  | .started | .settled _ | .annotated _ | .filled _ _ | .read _ _ _ | .changed => True
  | .allocated _ | .imported _ | .typed _ => False

namespace Discipline

section
variable {W : Type} (D : Discipline W)

/-- The type may be that of a value. -/
def Strict (w : W) (t : Ty) : Prop :=
  ∀ l ∈ t.leaves, D.Allows w l

/-- The type may be that of a phrase. -/
def Lax (w : W) (t : Ty) : Prop :=
  D.Strict w t ∨ D.loose ∧ t.hasValue = false ∧ t.isRecord = false

structure Holds (s : Checking) : Prop where
  bindings : ∀ v ∈ s.context.bindings, D.Strict (D.world s) v.type
  extra : D.Extra s

structure Fits (s : Checking) (event : Event) (c : Context) : Prop where
  environment : c.environment = s.context.environment
  path : c.path = s.context.path
  importStack : c.importStack = s.context.importStack
  errors : s.context.errors <+: c.errors
  nextId : s.context.nextId ≤ c.nextId
  bindings : ∀ v ∈ c.bindings, D.Strict (D.world (s.move event c)) v.type
  event : event.Plain ∨
    (event = .allocated s.context.allocate.1 ∧ c = s.context.allocate.2) ∨
    (∃ t, event = .typed t ∧ D.Lax (D.world (s.move event c)) t) ∨
    ∃ r, D.Offers s r ∧ event = .imported (s.context.instantiate r.exports).1 ∧
      c = (s.context.instantiate r.exports).2

structure Lawful [Preorder W] : Prop where
  mono : ∀ {w w' : W} {l : Leaf}, w ≤ w' → D.Allows w l → D.Allows w' l
  empty : D.loose ∨ ∀ w, D.Allows w .empty
  later : ∀ (s : Checking) (event : Event) (c : Context), s.context.errors <+: c.errors →
    s.context.nextId ≤ c.nextId → D.world s ≤ D.world (s.move event c)
  reported : ∀ (s : Checking) (cause : Cause) (span : Span),
    D.Allows (D.world (s.move .changed (s.context.report cause span))) .ignore ∧
      (D.loose → ∀ l, D.Allows (D.world (s.move .changed (s.context.report cause span))) l)
  allocated : ∀ (s : Checking) (event : Event),
    D.Allows (D.world (s.move event s.context.allocate.2)) (.placeholder s.context.nextId)
  move : ∀ (s : Checking) (event : Event) (c : Context), D.Holds s → D.Fits s event c →
    D.Extra (s.move event c)

/-- The discipline as a contract. Scopes may be opened, closed and filled at any time. -/
def contract : Contract W where
  world := D.world
  Holds _ := D.Holds
  Reported w := D.Allows w .ignore ∧ (D.loose → ∀ l, D.Allows w l)
  Value := D.Strict
  Found := D.Lax
  Described := D.Strict
  Result := D.Lax
  Filled w _ := D.Strict w
  Visible _ := True
  least := 0
  Exports _ := True

def Ensures [Preorder W] {α : Type} (w : W) (Q : W → α → Prop) (m : CheckM α) : Prop :=
  D.contract.Ensures 0 w Q m

end

/-! ## Types -/

section
variable {W : Type} {D : Discipline W} {w : W} {v : Bool}

theorem strict_number : D.Strict w (.number v) := by
  intro l hl
  cases hl

theorem strict_string : D.Strict w (.string v) := by
  intro l hl
  cases hl

theorem strict_ignore (h : D.Allows w .ignore) : D.Strict w .ignore := by
  intro l hl
  rw [List.mem_singleton.mp hl]
  exact h

theorem strict_tuple {ts : List Ty} (h : ∀ t ∈ ts, D.Strict w t) : D.Strict w (.tuple v ts) := by
  intro l hl
  obtain ⟨t, ht, hl⟩ := Ty.mem_leavesEach.mp hl
  exact h t ht l hl

theorem strict_atom {x : String} {ts : List Ty} (h : ∀ t ∈ ts, D.Strict w t) :
    D.Strict w (.atom ⟨x, ts, v⟩) := by
  intro l hl
  obtain ⟨t, ht, hl⟩ := Ty.mem_leavesEach.mp hl
  exact h t ht l hl

theorem strict_union {as : List (Atom Ty)} (h : ∀ a ∈ as, D.Strict w (.atom a)) :
    D.Strict w (.union v as) := by
  intro l hl
  obtain ⟨a, ha, hl⟩ := Ty.mem_leavesAtoms.mp hl
  exact h a ha l (Ty.mem_leavesAtom.mpr hl)

theorem strict_function {ps : List Ty} {r : Ty} (hps : ∀ t ∈ ps, D.Strict w t)
    (hr : D.Strict w r) : D.Strict w (.function v ps r) := by
  intro l hl
  rcases List.mem_append.mp hl with hl | hl
  · obtain ⟨t, ht, hl⟩ := Ty.mem_leavesEach.mp hl
    exact hps t ht l hl
  · exact hr l hl

theorem strict_record {es : List (String × Ty)} (h : ∀ e ∈ es, D.Strict w e.2) :
    D.Strict w (.record v (Entries.ofList es)) := by
  intro l hl
  obtain ⟨e, he, hl⟩ := Ty.mem_leavesEntries.mp hl
  exact h e (Entries.mem_of_mem_ofList he) l hl

theorem strict_withValue {t : Ty} (h : D.Strict w t) : D.Strict w (t.withValue v) := by
  intro l hl
  rw [Ty.leaves_withValue] at hl
  exact h l hl

theorem strict_apply {σ : Ty.Substitution} {t : Ty} (h : D.Strict w t)
    (hσ : ∀ s ∈ σ, D.Strict w s.2) : D.Strict w (t.apply σ) := by
  intro l hl
  rcases Ty.mem_leaves_apply hl with hl | ⟨s, hs, hl⟩
  · exact h l hl
  · exact hσ s hs l hl

theorem Strict.lax {t : Ty} (h : D.Strict w t) : D.Lax w t :=
  Or.inl h

theorem lax_substitute {id : Nat} {r t : Ty} (h : D.Lax w t) (hr : D.Strict w r) :
    D.Lax w (Ty.substitute id r t) := by
  rcases h with h | ⟨hloose, hv, hrecord⟩
  · left
    intro l hl
    rcases Ty.mem_leaves_substitute hl with hl | hl
    · exact h l hl
    · exact hr l hl
  · cases t with
    | placeholder v i =>
      unfold Ty.substitute
      split
      · exact (strict_withValue hr).lax
      · exact Or.inr ⟨hloose, hv, hrecord⟩
    | record v es => cases hrecord
    | atom a => cases a; exact Or.inr ⟨hloose, hv, hrecord⟩
    | _ => exact Or.inr ⟨hloose, hv, hrecord⟩

theorem lax_apply {σ : Ty.Substitution} {t : Ty} (h : D.Lax w t)
    (hσ : ∀ s ∈ σ, D.Strict w s.2) : D.Lax w (t.apply σ) := by
  induction σ generalizing t with
  | nil => exact h
  | cons s σ ih =>
    have hs := hσ s List.mem_cons_self
    exact ih (lax_substitute h hs) fun s' hs' => hσ s' (List.mem_cons_of_mem _ hs')

/-- A function is a value if its result is one. -/
theorem lax_function {ps : List Ty} {r : Ty} (hps : ∀ t ∈ ps, D.Strict w t) (hr : D.Lax w r) :
    D.Lax w (.function r.hasValue ps r) := by
  rcases hr with hr | ⟨hloose, hv, -⟩
  · exact (strict_function hps hr).lax
  · exact Or.inr ⟨hloose, hv, rfl⟩

/-- The function whose body was checked in `scope`. -/
theorem lax_refreshed {scope : Scope} {bound : List Variable} {result : Ty}
    (hscope : ∀ v ∈ scope, D.Strict w v.type)
    (hbound : ∀ v ∈ bound, scope.get? v.name = none → D.Strict w v.type)
    (hresult : D.Lax w result) :
    let refreshed := refreshParameters scope bound result
    D.Lax w (.function refreshed.2.hasValue refreshed.1 refreshed.2) := by
  intro refreshed
  obtain ⟨htypes, σ, hσ, hsteps⟩ := refreshParameters_spec scope bound result
  have hvar : ∀ v, scope.Current bound v → D.Strict w v.type := by
    rintro v (⟨p, -, hv⟩ | ⟨hv, hnone⟩)
    · exact hscope v (List.mem_of_find?_eq_some hv)
    · exact hbound v hv hnone
  apply lax_function
  · intro t ht
    obtain ⟨v, hv, e⟩ := htypes t ht
    rw [e]
    exact hvar v hv
  · have hrefreshed : refreshed.2 = result.apply σ := hσ
    rw [hrefreshed]
    apply lax_apply hresult
    intro s hs
    obtain ⟨v, hv, e⟩ := hsteps s hs
    rw [e]
    exact hvar v hv

theorem strict_assignedType {declared value : Option Ty}
    (hdeclared : ∀ t, declared = some t → D.Strict w t)
    (hvalue : ∀ t, value = some t → D.Strict w t)
    (h : (declared.isSome ∨ value.isSome) ∨ D.Allows w .ignore) :
    D.Strict w (CheckM.assignedType declared value) := by
  unfold CheckM.assignedType
  apply strict_withValue
  cases declared with
  | some t => exact hdeclared t rfl
  | none =>
    cases value with
    | some t => exact hvalue t rfl
    | none =>
      rcases h with h | h
      · simp at h
      · exact strict_ignore h

theorem strict_of_lax {t : Ty} (h : D.Lax w t) (ht : t.hasValue = true ∨ t.isRecord = true) :
    D.Strict w t := by
  rcases h with h | ⟨-, hv, hrecord⟩
  · exact h
  · rw [hv, hrecord] at ht
    simp at ht

theorem strict_entry {es : List (String × Ty)} {x : String} {t : Ty}
    (h : D.Lax w (.record v es)) (ht : Entries.get? x es = some t) : D.Strict w t := by
  have hrecord := strict_of_lax h (Or.inr rfl)
  intro l hl
  exact hrecord l (Ty.mem_leavesEntries.mpr ⟨(x, t), Entries.mem_of_get? ht, hl⟩)

theorem strict_signature {ps : List Ty} {r : Ty} (h : D.Lax w (.function true ps r)) :
    (∀ t ∈ ps, D.Strict w t) ∧ D.Strict w r := by
  have hf := strict_of_lax h (Or.inl rfl)
  constructor
  · intro t ht l hl
    exact hf l (List.mem_append_left _ (Ty.mem_leavesEach.mpr ⟨t, ht, hl⟩))
  · intro l hl
    exact hf l (List.mem_append_right _ hl)

/-- What a call settles is allowed if its parameters and arguments are. -/
theorem strict_callSubstitution {ps ts : List Ty} (hps : ∀ t ∈ ps, D.Strict w t)
    (hts : ∀ t ∈ ts, D.Strict w t) : ∀ s ∈ callSubstitution ps ts, D.Strict w s.2 := by
  intro s hs l hl
  rcases mem_leaves_callSubstitution hs (Or.inr hl) with hl | hl
  · obtain ⟨t, ht, hl⟩ := Ty.mem_leavesEach.mp hl
    exact hps t ht l hl
  · obtain ⟨t, ht, hl⟩ := Ty.mem_leavesEach.mp hl
    exact hts t ht l hl

theorem allows_ignore {ts : List Ty} (h : ∀ t ∈ ts, D.Strict w t)
    (hts : Ty.anyContainsIgnore ts = true) : D.Allows w .ignore := by
  rw [Ty.anyContainsIgnore_eq, decide_eq_true_eq] at hts
  obtain ⟨t, ht, hl⟩ := Ty.mem_leavesEach.mp hts
  exact h t ht _ hl

end

/-! ## Steps -/

section
variable {W : Type} [Preorder W] {D : Discipline W} (hD : D.Lawful) {level : Nat} {w : W}
include hD

theorem Strict.mono {w' : W} {t : Ty} (h : D.Strict w t) (hw : w ≤ w') : D.Strict w' t :=
  fun l hl => hD.mono hw (h l hl)

theorem Lax.mono {w' : W} {t : Ty} (h : D.Lax w t) (hw : w ≤ w') : D.Lax w' t :=
  h.imp_left fun h => h.mono hD hw

theorem lax_empty : D.Lax w .empty := by
  rcases hD.empty with h | h
  · exact Or.inr ⟨h, rfl, rfl⟩
  · left
    intro l hl
    rw [List.mem_singleton.mp hl]
    exact h w

section
variable {s : Checking} (hs : D.Holds s)
include hs

theorem Holds.move {event : Event} {c : Context} (hf : D.Fits s event c) :
    D.contract.Moves level s event c :=
  ⟨⟨hf.bindings, hD.move s event c hs hf⟩, hD.later s event c hf.errors hf.nextId⟩

/-- A step that gives no variable another type. -/
theorem Holds.keep {event : Event} {c : Context} (hevent : event.Plain)
    (henvironment : c.environment = s.context.environment) (hpath : c.path = s.context.path)
    (hstack : c.importStack = s.context.importStack) (herrors : s.context.errors <+: c.errors)
    (hnext : s.context.nextId ≤ c.nextId) (hbindings : c.bindings ⊆ s.context.bindings) :
    D.contract.Moves level s event c := by
  have hle := hD.later s event c herrors hnext
  refine hs.move hD ⟨henvironment, hpath, hstack, herrors, hnext, fun v hv => ?_, Or.inl hevent⟩
  exact (hs.bindings v (hbindings hv)).mono hD hle

theorem Holds.note {event : Event} (hevent : event.Plain) :
    D.contract.Moves level s event s.context :=
  hs.keep hD hevent rfl rfl rfl List.prefix_rfl (Nat.le_refl _) (List.Subset.refl _)

/-- A local step keeps to the discipline if the types it gives to variables do. -/
theorem Holds.step {α : Type} {f : Context → α × Context} (hf : Local f) {event : Event}
    (hevent : event.Plain) (hnext : (f s.context).2.nextId = s.context.nextId)
    (hvars : ∀ w, (∀ v ∈ s.context.bindings, D.Strict w v.type) → D.world s ≤ w →
      ∀ v ∈ (f s.context).2.bindings, D.Strict w v.type) :
    D.contract.Moves level s event (f s.context).2 := by
  have hc := hf.within_self s.context
  have herrors : s.context.errors <+: (f s.context).2.errors := by
    rw [hc]
    exact List.prefix_rfl
  have hnext' : s.context.nextId ≤ (f s.context).2.nextId := Nat.le_of_eq hnext.symm
  have hle := hD.later s event (f s.context).2 herrors hnext'
  refine hs.move hD ⟨?_, ?_, ?_, herrors, hnext', ?_, Or.inl hevent⟩
  · rw [hc]
    rfl
  · rw [hc]
    rfl
  · rw [hc]
    rfl
  · exact hvars _ (fun v hv => (hs.bindings v hv).mono hD hle) hle

theorem Holds.typed {t : Ty} (ht : D.Lax (D.world s) t) :
    D.contract.Moves level s (.typed t) s.context := by
  have hle := hD.later s (.typed t) s.context List.prefix_rfl (Nat.le_refl _)
  refine hs.move hD ⟨rfl, rfl, rfl, List.prefix_rfl, Nat.le_refl _, ?_, ?_⟩
  · exact fun v hv => (hs.bindings v hv).mono hD hle
  · exact Or.inr (Or.inr (Or.inl ⟨t, rfl, ht.mono hD hle⟩))

theorem Holds.declare {v : Variable} (hv : D.Strict (D.world s) v.type) :
    D.contract.Moves level s .changed (s.context.declare v) := by
  refine hs.step hD (.declare v) trivial (Context.nextId_declare s.context v) fun w h hle u hu => ?_
  rcases Context.mem_bindings_declare hu with rfl | hu
  · exact hv.mono hD hle
  · exact h u hu

theorem Holds.exportVariable {v : Variable} (hv : D.Strict (D.world s) v.type) :
    D.contract.Moves level s .changed (s.context.exportVariable v) := by
  refine hs.step hD (.exportVariable v) trivial rfl fun w h hle u hu => ?_
  rcases Context.mem_bindings_exportVariable hu with rfl | hu
  · exact hv.mono hD hle
  · exact h u hu

end

theorem note_ensures (event : Event) (hevent : event.Plain) {Q : W → Prop}
    (hQ : ∀ w', w ≤ w' → Q w') :
    D.contract.Ensures level w (fun w' _ => Q w') (CheckM.note event) := by
  intro s hs hw
  have hmoves : D.contract.Moves level s event s.context := Holds.note hD hs hevent
  exact ⟨hmoves.1, hmoves.2, hQ _ (hw.trans hmoves.2)⟩

theorem report_ensures (cause : Cause) (span : Span) :
    D.contract.Ensures level w (fun w' _ => D.contract.Reported w') (CheckM.report cause span) := by
  intro s hs hw
  rw [CheckM.report_run]
  have herrors : s.context.errors <+: (s.context.report cause span).errors := List.prefix_append _ _
  have hmoves : D.contract.Moves level s .changed (s.context.report cause span) :=
    Holds.keep hD hs trivial rfl rfl rfl herrors (Nat.le_refl _) (List.Subset.refl _)
  exact ⟨hmoves.1, hmoves.2, hD.reported s cause span⟩

theorem allocate_ensures :
    D.contract.Ensures level w D.Strict (CheckM.onContext .allocated Context.allocate) := by
  intro s hs hw
  rw [CheckM.onContext_run]
  have hle := hD.later s (.allocated s.context.allocate.1) s.context.allocate.2 List.prefix_rfl
    (Nat.le_succ _)
  have hfits : D.Fits s (.allocated s.context.allocate.1) s.context.allocate.2 :=
    ⟨rfl, rfl, rfl, List.prefix_rfl, Nat.le_succ _,
      fun v hv => (Holds.bindings hs v hv).mono hD hle, Or.inr (Or.inl ⟨rfl, rfl⟩)⟩
  have hmoves : D.contract.Moves level s _ _ := Holds.move hD hs hfits
  refine ⟨hmoves.1, hle, fun l hl => ?_⟩
  rw [List.mem_singleton.mp hl]
  exact hD.allocated s _

theorem settle_ensures {ps ts : List Ty} {r : Ty} (h : D.Lax w (.function true ps r))
    (hts : ∀ t ∈ ts, D.Strict w t) :
    D.contract.Ensures level w (fun w' t => D.Strict w' (t.withValue true))
      (CheckM.onContext (fun _ => .settled (callSubstitution ps ts))
        (Context.resolveCall ps ts r)) := by
  obtain ⟨hps, hr⟩ := strict_signature h
  have hσ := strict_callSubstitution hps hts
  intro s hs hw
  have hmoves : D.contract.Moves level s (.settled (callSubstitution ps ts))
      (Context.resolveCall ps ts r s.context).2 := by
    refine Holds.step hD hs (.resolveCall ps ts r) trivial (Context.nextId_apply _ _) ?_
    intro w' hvars hle v hv
    obtain ⟨v₀, hv₀, e⟩ := Context.mem_bindings_apply hv
    rw [e]
    exact strict_apply (hvars v₀ hv₀) fun s hs => (hσ s hs).mono hD (hw.trans hle)
  refine ⟨hmoves.1, hmoves.2, strict_withValue ?_⟩
  exact (strict_apply hr hσ).mono hD (hw.trans hmoves.2)

/-! ## Functions -/

theorem body_ensures {ps : List Parameter} {body : CheckM Ty}
    (hparameters : ∀ w, D.contract.Ensures level w (fun w' vs => ∀ v ∈ vs, D.Strict w' v.type)
      (Parameter.checkEach ps))
    (hbody : ∀ w, D.contract.Ensures level w D.Lax body) :
    D.contract.Ensures level w (fun w' r => D.Lax w' (.function r.2.hasValue r.1 r.2))
      (CheckM.checkBody ps body) := by
  refine (hparameters w).bind fun bound w₁ _ hbound => ?_
  refine (hbody w₁).bind fun result w₂ hw₂ hresult => ?_
  have hread : D.contract.Ensures level w₂
      (fun w' scope => ∀ v ∈ scope, D.Strict w' (Variable.type v))
      (CheckM.read Context.innermost) :=
    .read fun s hs v hv => Holds.bindings hs v (Context.mem_bindings_of_innermost hv)
  refine hread.bind fun scope w₃ hw₃ hscope => .pure fun w₄ hw₄ => ?_
  exact lax_refreshed (fun v hv => (hscope v hv).mono hD hw₄)
    (fun v hv _ => (hbound v hv).mono hD (hw₂.trans (hw₃.trans hw₄)))
    (hresult.mono hD (hw₃.trans hw₄))

/-! ## The contract -/

theorem contract_growing : D.contract.Growing where
  reported hw h := ⟨hD.mono hw h.1, fun hloose l => hD.mono hw (h.2 hloose l)⟩
  value hw h := h.mono hD hw
  found hw h := h.mono hD hw
  described hw h := h.mono hD hw
  result hw h := h.mono hD hw
  filled hw h := Strict.mono hD h hw

theorem contract_typing : D.contract.Typing where
  found_of_value h := h.lax
  described_of_value h := h
  result_of_found h := h
  result_of_described h := h.lax
  value_of_found {w t} h ht := by
    rcases ht with hv | ⟨-, hall⟩
    · exact strict_of_lax h (Or.inl hv)
    · -- The error either allows every leaf or there is no exception for this type.
      rcases h with h | ⟨hloose, -, -⟩
      · exact h
      · exact fun l _ => hall hloose l
  ignore h := strict_ignore h.1
  empty := lax_empty hD
  number := strict_number.lax
  string := strict_string.lax
  tuple h := (strict_tuple h).lax
  atom h := (strict_atom h).lax
  record h := (strict_record h).lax
  entry h ht := strict_entry h ht
  failing hcallee hts hignore := by
    rcases Bool.or_eq_true_iff.mp hignore with h | h
    · exact strict_ignore (allows_ignore hts h)
    · exact strict_ignore (allows_ignore (strict_signature hcallee).1 h)
  numberType := strict_number
  stringType := strict_string
  tupleType h := strict_tuple h
  atomType h := strict_atom h
  unionType h := strict_union h
  recordType h := strict_record h
  functionType hps hr := strict_function hps hr
  entryType h ht := strict_entry h.lax ht

theorem contract_lawful {imports : Importer}
    (himports : ∀ requested span w, D.Ensures w D.Lax (imports requested span)) :
    D.contract.Lawful imports where
  growing := contract_growing hD
  typing := contract_typing hD
  stepping := {
    resolve := fun {level s x v} hs _ hv => by
      obtain ⟨scope, hscope, hv⟩ := List.exists_of_findSome?_eq_some hv
      exact Holds.bindings hs v (List.mem_append_left _
        (List.mem_flatten.mpr ⟨scope, hscope, List.mem_of_find?_eq_some hv⟩))
    report := report_ensures hD _ _
    depth := fun hs depth => Holds.keep hD hs trivial rfl rfl rfl List.prefix_rfl (Nat.le_refl _)
      (List.Subset.refl _)
    typed := fun hs ht => Holds.typed hD hs ht
    readEntry := fun hs _ _ => Holds.note hD hs trivial
    fill := fun {level w x t} ht => note_ensures hD (.filled x t) trivial fun _ hw =>
      Strict.mono hD ht hw
    annotate := fun {level w t v} ht => note_ensures hD (.annotated (t.withValue v)) trivial
      fun _ hw => strict_withValue (Strict.mono hD ht hw)
    allocate := allocate_ensures hD
    declare := fun hs _ hv => Holds.declare hD hs hv
    settle := fun hcallee hts => settle_ensures hD hcallee hts
    push := fun {level s} hs => by
      refine Holds.keep hD hs trivial rfl rfl rfl List.prefix_rfl (Nat.le_refl _) fun v hv => ?_
      simpa [Context.bindings, Context.push] using hv
    pop := fun hs => Holds.keep hD hs trivial rfl rfl rfl List.prefix_rfl (Nat.le_refl _)
      fun v hv => Context.mem_bindings_pop hv
    function := fun _ hps hbody => body_ensures hD hps hbody
    exportVariable := fun {level w a span} _ _ h => by
      refine Contract.exporting_ensures (fun hw h => Strict.mono hD h hw) (lax_empty hD) ?_ ?_ h
      · exact fun w => (report_ensures hD .nestedExport span).weaken fun _ _ _ => trivial
      · exact fun hs hv => Holds.exportVariable hD hs hv
    importFile := fun {level w requested span} => himports requested span w
    least_le := Nat.zero_le 1
    exports_two := trivial
    exports_succ := fun _ => trivial }

/-- The check of a tree keeps to the discipline. An assignment without type and value fails, which
only matters if failure is not allowed. -/
theorem stmt_ensures {imports : Importer}
    (himports : ∀ requested span w, D.Ensures w D.Lax (imports requested span)) (tree : Stmt)
    (h : tree.Complete ∨ ∀ w, D.Allows w .ignore) (w : W) : D.Ensures w D.Lax (tree.check imports) :=
  Contract.stmt_ensures (contract_lawful hD himports) tree 0 (Or.inr (Nat.le_refl 0))
    ⟨fun _ _ => trivial, h.imp_right fun h w => strict_ignore (h w), Or.inl trivial⟩
    (fun _ _ _ => trivial) w

/-! ## Imports -/

theorem fail_lax (cause : Cause) (span : Span) : D.Ensures w D.Lax (CheckM.fail cause span) := by
  refine (report_ensures hD cause span).bind fun _ w₁ _ h => .pure fun w₂ hw => ?_
  exact (strict_ignore (hD.mono hw h.1)).lax

/-- The importer keeps to the discipline if the answers to its requests do, and what the reports
export may be used. -/
theorem importThrough_ensures {answer : Context → String → Workspace → Option Report × Workspace}
    (hanswer : ∀ (s : Checking) (b : String), D.Holds s → b ∉ s.context.importStack →
      let r := answer s.context b s.workspace
      let s' : Checking := ⟨s.context, r.2⟩
      D.Holds s' ∧ D.world s ≤ D.world s' ∧ ∀ report, r.1 = some report →
        (report.unparsable = false → D.Offers s' report) ∧
        let (vs, c) := s.context.instantiate report.exports
        ∀ v ∈ vs, D.Strict (D.world (s'.move (.imported vs) c)) v.type)
    (requested : String) (span : Span) (w : W) :
    D.Ensures w D.Lax (importThrough answer requested span) := by
  refine Contract.importThrough_ensures (fun w cause span => fail_lax hD cause span) ?_ requested span
  intro s b hs hb r s'
  obtain ⟨hs', hle, hexports⟩ := hanswer s b hs hb
  refine ⟨hs', hle, fun report hr hparsable => ?_⟩
  obtain ⟨hoffers, hvars⟩ := hexports report hr
  let i := s.context.instantiate report.exports
  have hnext := Context.nextId_le_instantiate s.context report.exports
  have hle' := hD.later s' (.imported i.1) i.2 List.prefix_rfl hnext
  have hfits : D.Fits s' (.imported i.1) i.2 :=
    ⟨rfl, rfl, rfl, List.prefix_rfl, hnext, fun v hv => (hs'.bindings v hv).mono hD hle',
      Or.inr (Or.inr (Or.inr ⟨report, hoffers hparsable, rfl, rfl⟩))⟩
  refine ⟨hs'.move hD hfits, (strict_record fun e he => ?_).lax⟩
  obtain ⟨v, hv, rfl⟩ := List.mem_map.mp he
  exact hvars v hv

end

end Discipline

end ShapeCheck
