import ShapeCheck.Proofs.Frame

/-!
# Types that are held outside of a context

A call that settles a placeholder rewrites the variables in scope and the exports. The types that
the phrases around it have already found for their other parts are not rewritten: an item of a tuple
before the one with the call, a callee whose arguments are being checked, a declared type whose
value is. These types are held until the phrase has a type of its own, and what they mention can
then be declared again. They can be read off the trail.

A placeholder is retired by a call if neither a held type nor a later step of the same call mentions
it. `Reaches` says what checks do to held types and to placeholders that are in use.
-/

namespace ShapeCheck

/-! ## Held types -/

def Moment.ofFile (path : String) (trail : List Moment) : List Moment :=
  trail.filter fun m => m.context.path = path

/-- Whether the innermost open phrase has opened no scope since it began, where `history` is what
its file has gone through. -/
def Context.unscoped (c : Context) (history : List Moment) : Bool :=
  (history.find? fun m => m.context.depth < c.depth).any fun m =>
    m.context.scopes.length = c.scopes.length

/-- The types that are held by the phrases which are still open `level` levels deep. A phrase is
open as long as nothing has happened at a smaller depth. Blocks and functions open a scope, and they
hold nothing. -/
def heldTypes : (level : Nat) → (history : List Moment) → List Ty
  | _, [] => []
  | level, ⟨event, c⟩ :: history =>
    let outer := heldTypes (min level c.depth) history
    match event with
    | .typed t => if c.depth ≤ level ∧ c.unscoped history then t :: outer else outer
    | _ => outer

theorem heldTypes_subset_cons {level : Nat} {m : Moment} (h : level ≤ m.context.depth)
    (history : List Moment) : heldTypes level history ⊆ heldTypes level (m :: history) := by
  obtain ⟨event, c⟩ := m
  have hmin : min level c.depth = level := Nat.min_eq_left h
  cases event with
  | typed t =>
    simp only [heldTypes, hmin]
    split
    · exact List.subset_cons_self _ _
    · exact List.Subset.refl _
  | _ => simp [heldTypes, hmin]

theorem heldTypes_subset_append {level : Nat} {added : List Moment}
    (h : ∀ m ∈ added, level ≤ m.context.depth) (history : List Moment) :
    heldTypes level history ⊆ heldTypes level (added ++ history) := by
  induction added with
  | nil => exact List.Subset.refl _
  | cons m added ih =>
    obtain ⟨hm, hadded⟩ := List.forall_mem_cons.mp h
    exact List.Subset.trans (ih hadded) (heldTypes_subset_cons hm _)

theorem mem_heldTypes_typed {level : Nat} {t : Ty} {c : Context} {history : List Moment}
    (hdepth : c.depth ≤ level) (h : c.unscoped history = true) :
    t ∈ heldTypes level (⟨.typed t, c⟩ :: history) := by
  simp [heldTypes, hdepth, h]

theorem heldTypes_mono {level level' : Nat} (h : level ≤ level') (history : List Moment) :
    heldTypes level history ⊆ heldTypes level' history := by
  induction history generalizing level level' with
  | nil => exact List.Subset.refl _
  | cons m history ih =>
    obtain ⟨event, c⟩ := m
    have hmin : min level c.depth ≤ min level' c.depth := by omega
    have houter := ih hmin
    cases event with
    | typed t =>
      intro u hu
      by_cases hc : c.depth ≤ level ∧ c.unscoped history = true
      · have hc' : c.depth ≤ level' ∧ c.unscoped history = true := ⟨hc.1.trans h, hc.2⟩
        rw [heldTypes, if_pos hc] at hu
        rw [heldTypes, if_pos hc']
        exact List.cons_subset_cons _ houter hu
      · rw [heldTypes, if_neg hc] at hu
        rw [heldTypes]
        split
        · exact List.mem_cons_of_mem _ (houter hu)
        · exact houter hu
    | _ => exact houter

theorem Context.unscoped_append {c : Context} {added : List Moment}
    (h : ∀ m ∈ added, c.depth ≤ m.context.depth) (history : List Moment) :
    c.unscoped (added ++ history) = c.unscoped history := by
  have hnone : added.find? (fun m => m.context.depth < c.depth) = none := by
    rw [List.find?_eq_none]
    intro m hm
    simpa using h m hm
  rw [unscoped, unscoped, List.find?_append, hnone, Option.none_or]

/-! ## Retired placeholders -/

instance (id : Nat) (t : Ty) : Decidable (t.Mentions id) :=
  inferInstanceAs (Decidable (_ ∈ t.leaves))

instance (id : Nat) (c : Context) : Decidable (c.Mentions id) :=
  inferInstanceAs (Decidable (∃ v ∈ c.bindings, v.type.Mentions id))

/-- A step replaces the placeholder by a type without it, and no later step brings it back. -/
def Ty.Removes (id : Nat) : Ty.Substitution → Prop
  | [] => False
  | (i, r) :: σ =>
    i = id ∧ ¬ r.Mentions id ∧ (∀ step ∈ σ, ¬ step.2.Mentions id) ∨ Ty.Removes id σ

def Event.Removes (id : Nat) : Event → Prop
  | .settled σ => Ty.Removes id σ
  | .started | .allocated _ | .imported _ | .annotated _ | .filled _ _ | .read _ _ _ | .changed
  | .typed _ => False

/-- After `earlier`, a call removes the placeholder, and the types that are held around it do not
mention it. -/
def Moment.Retires (id : Nat) (earlier : List Moment) (m : Moment) : Prop :=
  m.event.Removes id ∧
    ∀ t ∈ heldTypes (m.context.depth - 1) (Moment.ofFile m.context.path earlier), ¬ t.Mentions id

instance (id : Nat) : (σ : Ty.Substitution) → Decidable (Ty.Removes id σ)
  | [] => inferInstanceAs (Decidable False)
  | (_, r) :: σ =>
    have : Decidable (Ty.Removes id σ) := instDecidableRemoves id σ
    inferInstanceAs (Decidable (_ ∧ ¬ r.Mentions id ∧ (∀ step ∈ σ, ¬ step.2.Mentions id) ∨ _))

instance (id : Nat) : (event : Event) → Decidable (event.Removes id)
  | .settled σ => inferInstanceAs (Decidable (Ty.Removes id σ))
  | .started | .allocated _ | .imported _ | .annotated _ | .filled _ _ | .read _ _ _ | .changed
  | .typed _ => inferInstanceAs (Decidable False)

instance (id : Nat) (earlier : List Moment) (m : Moment) : Decidable (m.Retires id earlier) :=
  inferInstanceAs (Decidable (_ ∧ ∀ t ∈ heldTypes _ _, ¬ t.Mentions id))

theorem Ty.Removes.not_mentions {id : Nat} {σ : Ty.Substitution} (h : Ty.Removes id σ) (t : Ty) :
    ¬ (t.apply σ).Mentions id := by
  induction σ generalizing t with
  | nil => cases h
  | cons step σ ih =>
    rcases h with ⟨rfl, hr, hσ⟩ | h
    · intro hid
      change _ ∈ ((Ty.substitute step.1 step.2 t).apply σ).leaves at hid
      rcases Ty.mem_leaves_apply hid with hid | ⟨step', hstep, hid⟩
      · exact Ty.notMem_leaves_substitute hr t hid
      · exact hσ step' hstep hid
    · exact ih h (Ty.substitute step.1 step.2 t)

theorem Ty.Removes.mem {id : Nat} {σ : Ty.Substitution} (h : Ty.Removes id σ) :
    ∃ r, (id, r) ∈ σ := by
  induction σ with
  | nil => cases h
  | cons step σ ih =>
    rcases h with ⟨rfl, -⟩ | h
    · exact ⟨_, List.mem_cons_self⟩
    · obtain ⟨r, hr⟩ := ih h
      exact ⟨r, List.mem_cons_of_mem _ hr⟩

def Retired (path : String) (id : Nat) : List Moment → Prop
  | [] => False
  | m :: earlier => m.context.path = path ∧ m.Retires id earlier ∨ Retired path id earlier

/-- No context mentions what its file has retired. -/
def RetiredGone : List Moment → Prop
  | [] => True
  | m :: earlier =>
    (∀ id, Retired m.context.path id (m :: earlier) → ¬ m.context.Mentions id) ∧ RetiredGone earlier

theorem Retired.append {path : String} {id : Nat} {earlier : List Moment}
    (h : Retired path id earlier) (later : List Moment) : Retired path id (later ++ earlier) := by
  induction later with
  | nil => exact h
  | cons m later ih => exact Or.inr ih

theorem retired_append_iff {path : String} {id : Nat} {added earlier : List Moment}
    (h : ∀ m ∈ added, m.context.path ≠ path) :
    Retired path id (added ++ earlier) ↔ Retired path id earlier := by
  induction added with
  | nil => exact Iff.rfl
  | cons m added ih =>
    obtain ⟨hm, hadded⟩ := List.forall_mem_cons.mp h
    rw [List.cons_append, Retired, ih hadded]
    simp [hm]

theorem not_retired_of_ne {path : String} {id : Nat} {trail : List Moment}
    (h : ∀ m ∈ trail, m.context.path ≠ path) : ¬ Retired path id trail := by
  rw [← List.append_nil trail, retired_append_iff h]
  exact not_false

theorem RetiredGone.not_mentions {later earlier : List Moment} {m : Moment} {id : Nat}
    (h : RetiredGone (later ++ m :: earlier)) (hm : m.Retires id earlier) :
    ∀ m' ∈ later ++ [m], m'.context.path = m.context.path → ¬ m'.context.Mentions id := by
  have hretired : Retired m.context.path id (m :: earlier) := Or.inl ⟨rfl, hm⟩
  induction later with
  | nil =>
    intro m' hm' _
    cases List.mem_singleton.mp hm'
    exact h.1 id hretired
  | cons m₁ later ih =>
    intro m' hm' hpath
    rcases List.mem_cons.mp hm' with rfl | hm'
    · refine h.1 id ?_
      rw [hpath]
      exact hretired.append (m' :: later)
    · exact ih h.2 m' hm' hpath

theorem ofFile_append_of_ne {path : String} {added : List Moment}
    (h : ∀ m ∈ added, m.context.path ≠ path) (earlier : List Moment) :
    Moment.ofFile path (added ++ earlier) = Moment.ofFile path earlier := by
  have hnone : Moment.ofFile path added = [] := by
    simpa [Moment.ofFile, List.filter_eq_nil_iff] using h
  unfold Moment.ofFile at hnone ⊢
  rw [List.filter_append, hnone, List.nil_append]

/-! ## States -/

namespace Checking

def history (s : Checking) : List Moment :=
  Moment.ofFile s.context.path s.workspace.trail

end Checking

def Workspace.Known (stack : List String) (ws : Workspace) : Prop :=
  ∀ m ∈ ws.trail, m.context.path ∈ stack ∨ (ws.reports.get? m.context.path).isSome

section
variable {stack : List String} {ws : Workspace} {b : String}

theorem Workspace.Known.mono {stack' : List String} (h : ws.Known stack) (hs : stack ⊆ stack') :
    ws.Known stack' :=
  fun m hm => (h m hm).imp_left fun hm => hs hm

/-- The file that leaves the stack gets its report. -/
theorem Workspace.Known.save (h : ws.Known (stack ++ [b])) (r : Report) :
    (ws.save b r).Known stack := by
  intro m hm
  rw [reports_save, Entries.get?_insert]
  split
  · exact Or.inr rfl
  · rename_i hne
    refine (h m hm).imp_left fun hmem => ?_
    exact (List.mem_append.mp hmem).resolve_right fun h => hne (List.mem_singleton.mp h).symm

/-- A file that is opened has no context yet. -/
theorem Workspace.Known.free (h : ws.Known stack) (hb : b ∉ stack)
    (hget : ws.reports.get? b = none) : ∀ m ∈ ws.trail, m.context.path ≠ b := by
  rintro m hm rfl
  rcases h m hm with hmem | hsome
  · exact hb hmem
  · rw [hget] at hsome
    cases hsome

end

/-- Types mention placeholders that are in use. What is allowed shrinks when a call retires one, so
this is no lawful discipline. -/
def usage : Discipline Checking where
  world s := s
  Allows s l := ∀ id, l = .placeholder id →
    id < s.context.nextId ∧ ¬ Retired s.context.path id s.workspace.trail
  loose := False
  Extra _ := True
  Offers _ _ := True

namespace Checking

abbrev Live (s : Checking) (t : Ty) : Prop :=
  usage.Strict s t

theorem live_iff {s : Checking} {t : Ty} : s.Live t ↔ ∀ id, t.Mentions id →
    id < s.context.nextId ∧ ¬ Retired s.context.path id s.workspace.trail := by
  constructor
  · intro h id hid
    exact h _ hid id rfl
  · rintro h l hl id rfl
    exact h id hl

theorem live_ignore (s : Checking) : s.Live .ignore :=
  Discipline.strict_ignore fun _ h => by cases h

theorem live_empty (s : Checking) : s.Live .empty := by
  intro l hl id e
  cases (List.mem_singleton.mp hl).symm.trans e

structure Coherent (s : Checking) : Prop where
  globals : ∀ v ∈ s.context.environment.globals, ∀ id, ¬ v.type.Mentions id
  inside : s.context.path ∈ s.context.importStack
  known : s.workspace.Known s.context.importStack
  /-- The trail shows the context. -/
  latest : ∃ event older, s.history = ⟨event, s.context⟩ :: older
  retiredGone : RetiredGone s.workspace.trail
  /-- Placeholders are retired after they were given out. -/
  given : ∀ id, Retired s.context.path id s.workspace.trail → id < s.context.nextId
  bindings : ∀ v ∈ s.context.bindings, s.Live v.type

end Checking

structure Context.Succeeds (c' c : Context) : Prop where
  environment : c'.environment = c.environment
  path : c'.path = c.path
  importStack : c'.importStack = c.importStack
  nextId : c.nextId ≤ c'.nextId

theorem Context.Framed.succeeds {σ : Ty.Substitution} {declared exported : List Variable}
    {c c' : Context} (h : c.Framed σ declared exported c') : c'.Succeeds c :=
  ⟨h.environment, h.path, h.importStack, h.nextId⟩

theorem Context.declare_succeeds (v : Variable) (c : Context) : (c.declare v).Succeeds c := by
  unfold Context.declare
  split <;> exact ⟨rfl, rfl, rfl, Nat.le_refl _⟩

theorem Context.isDeclared_iff {x : String} {c : Context} :
    c.isDeclared x = true ↔ ∃ v ∈ c.innermost, v.name = x := by
  simp [isDeclared, Scope.get?]

theorem Context.isDeclared_declare (v : Variable) (c : Context) :
    (c.declare v).isDeclared v.name = true := by
  rw [isDeclared_iff]
  refine ⟨v, ?_, rfl⟩
  unfold Context.declare Context.innermost
  split <;> exact List.mem_cons_self

theorem Context.Framed.isDeclared {σ : Ty.Substitution} {declared exported : List Variable}
    {c c' : Context} (h : c.Framed σ declared exported c') {x : String}
    (hx : c.isDeclared x = true) : c'.isDeclared x = true := by
  rw [isDeclared_iff] at hx ⊢
  obtain ⟨v, hv, rfl⟩ := hx
  have hscopes : c.scopes ≠ [] := by
    intro hnone
    rw [Context.innermost, hnone] at hv
    cases hv
  rw [h.innermost hscopes]
  exact ⟨v.apply σ, List.mem_append_right _ (List.mem_map_of_mem hv), rfl⟩

def Event.IsSettled : Event → Prop
  | .settled _ => True
  | .started | .allocated _ | .imported _ | .annotated _ | .filled _ _ | .read _ _ _ | .changed
  | .typed _ => False

section
variable {s : Checking} {event : Event} {c : Context}

theorem retired_move (hevent : ¬ event.IsSettled) {path : String} {id : Nat} :
    Retired path id (s.move event c).workspace.trail ↔ Retired path id s.workspace.trail := by
  have hnot : ¬ Moment.Retires id s.workspace.trail ⟨event, c⟩ := by
    rintro ⟨hremoves, -⟩
    cases event with
    | settled σ => exact hevent trivial
    | _ => cases hremoves
  show _ ∨ _ ↔ _
  simp [hnot]

theorem Checking.history_move (h : c.path = s.context.path) :
    (s.move event c).history = ⟨event, c⟩ :: s.history := by
  simp [history, Moment.ofFile, Checking.move, Workspace.note, h]

theorem Checking.Live.move (hevent : ¬ event.IsSettled) (hc : c.Succeeds s.context) {t : Ty}
    (h : s.Live t) : (s.move event c).Live t := by
  rw [Checking.live_iff] at h ⊢
  intro id hid
  obtain ⟨hlt, hretired⟩ := h id hid
  refine ⟨Nat.lt_of_lt_of_le hlt hc.nextId, ?_⟩
  rw [retired_move hevent, Checking.context_move, hc.path]
  exact hretired

namespace Checking.Coherent

/-- The state after an event, whatever it is. -/
theorem note (h : s.Coherent) (hc : c.Succeeds s.context)
    (hgiven : ∀ id, Retired c.path id (s.move event c).workspace.trail → id < c.nextId)
    (hvars : ∀ v ∈ c.bindings, (s.move event c).Live v.type) : (s.move event c).Coherent := by
  refine ⟨?_, ?_, ?_, ⟨event, s.history, history_move hc.path⟩, ⟨?_, h.retiredGone⟩, hgiven, hvars⟩
  · rw [context_move, hc.environment]
    exact h.globals
  · rw [context_move, hc.path, hc.importStack]
    exact h.inside
  · rw [context_move, hc.importStack]
    exact List.forall_mem_cons.mpr ⟨Or.inl (hc.path ▸ h.inside), h.known⟩
  · rintro id hretired ⟨v, hv, hid⟩
    exact (live_iff.mp (hvars v hv) id hid).2 hretired

theorem move (h : s.Coherent) (hevent : ¬ event.IsSettled) (hc : c.Succeeds s.context)
    (hvars : ∀ v ∈ c.bindings, (s.move event c).Live v.type) : (s.move event c).Coherent := by
  refine h.note hc (fun id hretired => ?_) hvars
  rw [retired_move hevent, hc.path] at hretired
  exact Nat.lt_of_lt_of_le (h.given id hretired) hc.nextId

end Checking.Coherent

end

/-! ## From one state to a later one -/

namespace Checking

def held (s : Checking) (level : Nat) : List Ty :=
  heldTypes level s.history

/-- A check leads from `s` to `s'`. Types that are held less than `k` levels deep stay live. -/
structure Reaches (k : Nat) (s s' : Checking) : Prop where
  coherent : s'.Coherent
  framed : ∃ σ declared exported, s.context.Framed σ declared exported s'.context
  /-- The file goes on inside the innermost open phrase, and the files around it rest. -/
  added : ∃ added, s'.workspace.trail = added ++ s.workspace.trail ∧
    ∀ m ∈ added, m.context.path = s.context.path ∧ s.context.depth ≤ m.context.depth ∨
      m.context.path ∉ s.context.importStack
  live : ∀ level < k, ∀ t ∈ s.held level, s.Live t → s'.Live t

def Plain (s : Checking) : Prop :=
  s.context.unscoped s.history = true

/-- The innermost open phrase holds the types, and they are live. -/
structure Carries (ts : List Ty) (s : Checking) : Prop where
  plain : s.Plain
  each : ∀ t ∈ ts, s.Live t ∧ t ∈ s.held s.context.depth

theorem Carries.live {ts : List Ty} {s : Checking} (h : s.Carries ts) {t : Ty} (ht : t ∈ ts) :
    s.Live t :=
  (h.each t ht).1

theorem Carries.subset {ts us : List Ty} {s : Checking} (h : s.Carries ts) (hus : us ⊆ ts) :
    s.Carries us :=
  ⟨h.plain, fun t ht => h.each t (hus ht)⟩

variable {s s₁ s₂ : Checking} {k : Nat}

theorem Coherent.reaches_refl (h : s.Coherent) : s.Reaches k s :=
  ⟨h, ⟨[], [], [], .refl _⟩, ⟨[], rfl, by simp⟩, fun _ _ _ _ h => h⟩

namespace Reaches

theorem path (h : s.Reaches k s₁) : s₁.context.path = s.context.path := by
  obtain ⟨_, _, _, hframed⟩ := h.framed
  exact hframed.path

theorem depth (h : s.Reaches k s₁) : s₁.context.depth = s.context.depth := by
  obtain ⟨_, _, _, hframed⟩ := h.framed
  exact hframed.depth

theorem length_scopes (h : s.Reaches k s₁) :
    s₁.context.scopes.length = s.context.scopes.length := by
  obtain ⟨_, _, _, hframed⟩ := h.framed
  exact hframed.length_scopes

theorem scopes_ne_nil (h : s.Reaches k s₁) (hs : s.context.scopes ≠ []) :
    s₁.context.scopes ≠ [] := by
  rw [← List.length_pos_iff, h.length_scopes]
  exact List.length_pos_iff.mpr hs

theorem mono {k' : Nat} (h : s.Reaches k s₁) (hk : k' ≤ k) : s.Reaches k' s₁ :=
  { h with live := fun level hlevel => h.live level (Nat.lt_of_lt_of_le hlevel hk) }

/-- What the file goes through on the way. -/
theorem history (h : s.Reaches k s₁) (hs : s.Coherent) : ∃ added,
    s₁.history = added ++ s.history ∧ ∀ m ∈ added, s.context.depth ≤ m.context.depth := by
  obtain ⟨added, htrail, hadded⟩ := h.added
  refine ⟨Moment.ofFile s.context.path added, ?_, fun m hm => ?_⟩
  · rw [Checking.history, Checking.history, h.path, htrail, Moment.ofFile, List.filter_append]
    rfl
  · obtain ⟨hm, hpath⟩ := List.mem_filter.mp hm
    rcases hadded m hm with hm | hm
    · exact hm.2
    · rw [of_decide_eq_true hpath] at hm
      exact absurd hs.inside hm

theorem held (h : s.Reaches k s₁) (hs : s.Coherent) {level : Nat}
    (hlevel : level ≤ s.context.depth) : s.held level ⊆ s₁.held level := by
  obtain ⟨added, hhistory, hadded⟩ := h.history hs
  rw [Checking.held, Checking.held, hhistory]
  exact heldTypes_subset_append (fun m hm => hlevel.trans (hadded m hm)) _

theorem plain (h : s.Reaches k s₁) (hs : s.Coherent) : s₁.Plain ↔ s.Plain := by
  obtain ⟨added, hhistory, hadded⟩ := h.history hs
  have hcontext : ∀ history, s₁.context.unscoped history = s.context.unscoped history := by
    intro history
    rw [Context.unscoped, Context.unscoped, h.depth, h.length_scopes]
  rw [Plain, Plain, hhistory, hcontext, Context.unscoped_append hadded]

theorem isDeclared (h : s.Reaches k s₁) {x : String} (hx : s.context.isDeclared x = true) :
    s₁.context.isDeclared x = true := by
  obtain ⟨_, _, _, hframed⟩ := h.framed
  exact hframed.isDeclared hx

theorem carries (h : s.Reaches (s.context.depth + 1) s₁) (hs : s.Coherent) {ts : List Ty}
    (hts : s.Carries ts) : s₁.Carries ts := by
  refine ⟨(h.plain hs).mpr hts.1, fun t ht => ?_⟩
  obtain ⟨hlive, hheld⟩ := hts.2 t ht
  refine ⟨h.live _ (Nat.lt_succ_self _) t hheld hlive, ?_⟩
  rw [h.depth]
  exact h.held hs (Nat.le_refl _) hheld

theorem trans (h : s.Reaches k s₁) (hs : s.Coherent) (hk : k ≤ s.context.depth + 1)
    (h' : s₁.Reaches k s₂) : s.Reaches k s₂ := by
  obtain ⟨σ, declared, exported, hframed⟩ := h.framed
  obtain ⟨σ', declared', exported', hframed'⟩ := h'.framed
  obtain ⟨added, htrail, hadded⟩ := h.added
  obtain ⟨added', htrail', hadded'⟩ := h'.added
  refine ⟨h'.coherent, ⟨_, _, _, hframed.trans hframed'⟩, ⟨added' ++ added, ?_, ?_⟩, ?_⟩
  · rw [htrail', htrail, List.append_assoc]
  · rw [hframed.path, hframed.depth, hframed.importStack] at hadded'
    exact List.forall_mem_append.mpr ⟨hadded', hadded⟩
  · intro level hlevel t ht hlive
    refine h'.live level hlevel t (h.held hs (by omega) ht) ?_
    exact h.live level hlevel t ht hlive

end Reaches

/-- A single event that settles nothing. -/
theorem Coherent.reaches_move {event : Event} {c : Context} (h : s.Coherent)
    (hevent : ¬ event.IsSettled)
    (hframed : ∃ σ declared exported, s.context.Framed σ declared exported c)
    (hvars : ∀ v ∈ c.bindings, (s.move event c).Live v.type) : s.Reaches k (s.move event c) := by
  have hc : c.Succeeds s.context := by
    obtain ⟨_, _, _, hframed⟩ := hframed
    exact hframed.succeeds
  refine ⟨h.move hevent hc hvars, hframed, ⟨[⟨event, c⟩], rfl, ?_⟩, ?_⟩
  · rintro m hm
    obtain ⟨_, _, _, hframed⟩ := hframed
    rw [List.mem_singleton.mp hm]
    exact Or.inl ⟨hframed.path, hframed.depth.ge⟩
  · exact fun _ _ _ _ hlive => hlive.move hevent hc

/-- A check between two events that settle nothing, which open and close something. -/
theorem Reaches.around {event : Event} {c c' : Context} (hc : c.Succeeds s.context)
    (hdepth : s.context.depth ≤ c.depth) (hk : k ≤ s.context.depth + 1)
    (h : (s.move .changed c).Reaches k s₁) (hevent : ¬ event.IsSettled)
    (hc' : c'.Succeeds s₁.context) (hdepth' : s.context.depth ≤ c'.depth)
    (hvars : ∀ v ∈ c'.bindings, v ∈ s₁.context.bindings)
    (hframed : ∃ σ declared exported, s.context.Framed σ declared exported c') :
    s.Reaches k (s₁.move event c') := by
  obtain ⟨added, htrail, hadded⟩ := h.added
  have hpath : c'.path = s.context.path := hc'.path.trans (h.path.trans hc.path)
  refine ⟨h.coherent.move hevent hc' fun v hv => ?_, hframed,
    ⟨⟨event, c'⟩ :: added ++ [⟨.changed, c⟩], ?_, ?_⟩, fun level hlevel t ht hlive => ?_⟩
  · exact (h.coherent.bindings v (hvars v hv)).move hevent hc'
  · show _ :: s₁.workspace.trail = _
    rw [htrail]
    simp [Checking.move, Workspace.note]
  · rw [List.cons_append, List.forall_mem_cons, List.forall_mem_append]
    refine ⟨Or.inl ⟨hpath, hdepth'⟩, fun m hm => ?_, fun m hm => ?_⟩
    · rcases hadded m hm with hm | hm
      · exact Or.inl ⟨hm.1.trans hc.path, hdepth.trans hm.2⟩
      · exact Or.inr (hc.importStack ▸ hm)
    · rw [List.mem_singleton.mp hm]
      exact Or.inl ⟨hc.path, hdepth⟩
  · refine (h.live level hlevel t ?_ (hlive.move id hc)).move hevent hc'
    rw [Checking.held, history_move hc.path]
    exact heldTypes_subset_cons (by show level ≤ c.depth; omega) _ ht

/-- A call settles what it can. What is held by the phrases around it stays live, unless that
mentions a placeholder which is settled, and then the placeholder is not retired. -/
theorem Coherent.reaches_settle {parameters arguments : List Ty} (h : s.Coherent)
    (hparameters : ∀ t ∈ parameters, s.Live t) (harguments : ∀ t ∈ arguments, s.Live t) :
    let σ := callSubstitution parameters arguments
    let s' := s.move (.settled σ) (s.context.apply σ)
    s.Reaches s.context.depth s' ∧ ∀ t, s.Live t → s'.Live (t.apply σ) := by
  intro σ s'
  have hframed := s.context.framed_apply σ
  have hnext : s'.context.nextId = s.context.nextId := Context.nextId_apply σ s.context
  have hpath : s'.context.path = s.context.path := hframed.path
  have hsteps : ∀ step ∈ σ, s.Live step.2 :=
    Discipline.strict_callSubstitution hparameters harguments
  -- What this call retires, and what was retired before.
  have hcases : ∀ id, Retired s'.context.path id s'.workspace.trail →
      Ty.Removes id σ ∧ (∀ t ∈ s.held (s.context.depth - 1), ¬ t.Mentions id) ∨
      Retired s.context.path id s.workspace.trail := by
    rintro id (⟨-, hσ, hheld⟩ | hretired)
    · refine Or.inl ⟨hσ, ?_⟩
      dsimp only at hheld
      rwa [hframed.depth, hframed.path] at hheld
    · exact Or.inr (hpath ▸ hretired)
  have happly : ∀ t, s.Live t → s'.Live (t.apply σ) := by
    intro t ht
    rw [live_iff]
    intro id hid
    have hlive := live_iff.mp (Discipline.strict_apply ht hsteps) id hid
    refine ⟨hnext ▸ hlive.1, fun hretired => ?_⟩
    rcases hcases id hretired with ⟨hσ, -⟩ | hretired
    · exact hσ.not_mentions t hid
    · exact hlive.2 hretired
  have hgiven : ∀ id, Retired s'.context.path id s'.workspace.trail → id < s'.context.nextId := by
    intro id hretired
    rw [hnext]
    rcases hcases id hretired with ⟨hσ, -⟩ | hretired
    · obtain ⟨r, hstep⟩ := hσ.mem
      rcases mem_leaves_callSubstitution hstep (Or.inl rfl) with hl | hl
      · obtain ⟨t, ht, hl⟩ := Ty.mem_leavesEach.mp hl
        exact (live_iff.mp (hparameters t ht) id hl).1
      · obtain ⟨t, ht, hl⟩ := Ty.mem_leavesEach.mp hl
        exact (live_iff.mp (harguments t ht) id hl).1
    · exact h.given id hretired
  refine ⟨⟨h.note hframed.succeeds hgiven fun v hv => ?_, ⟨_, _, _, hframed⟩,
    ⟨[⟨.settled σ, s.context.apply σ⟩], rfl, ?_⟩, ?_⟩, happly⟩
  · obtain ⟨v₀, hv₀, e⟩ := Context.mem_bindings_apply hv
    rw [e]
    exact happly _ (h.bindings v₀ hv₀)
  · intro m hm
    rw [List.mem_singleton.mp hm]
    exact Or.inl ⟨hframed.path, hframed.depth.ge⟩
  · intro level hlevel t ht hlive
    rw [live_iff] at hlive ⊢
    intro id hid
    obtain ⟨hlt, hnot⟩ := hlive id hid
    refine ⟨hnext ▸ hlt, fun hretired => ?_⟩
    rcases hcases id hretired with ⟨-, hheld⟩ | hretired
    · exact hheld t (heldTypes_mono (Nat.le_sub_one_of_lt hlevel) _ ht) hid
    · exact hnot hretired

end Checking

end ShapeCheck
