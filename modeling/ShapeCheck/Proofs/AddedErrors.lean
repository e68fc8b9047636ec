import ShapeCheck.Proofs.FailedParts
import ShapeCheck.Proofs.Since

/-!
# Errors that a failure adds

Two checks of one phrase are compared, where parts of the types that the second starts with have
failed. As long as the first settles nothing, the second finds no error where the first finds none:
what it still compares is as in the first check, and both go through the phrase in the same way.

`AddsNoErrors` says so of the parts of a check. A part comes with what it declares in the first
check, since a function looks its parameters up again after its body.
-/

namespace ShapeCheck

/-! ## Checks that settle nothing -/

def Event.settles : Event → Bool
  | .settled σ => !σ.isEmpty
  | _ => false

/-- A function that has no value was used as one. -/
def Cause.blamesFunction : Cause → Bool
  | .valueExpected (.function _ _ _) => true
  | _ => false

/-- From `s` to `t` the check of the file settled no placeholder and used no function that has no
value. -/
structure Checking.SettlesNothing (s t : Checking) : Prop where
  unsettled : ∀ m ∈ s.momentsTo t, m.context.path = s.context.path → m.event.settles = false
  valued : ∀ e ∈ s.errorsTo t, e.cause.blamesFunction = false

namespace Checking

variable {s t u : Checking}

theorem SettlesNothing.left (h : s.SettlesNothing u) (hst : s.Leads t) (htu : t.Leads u) :
    s.SettlesNothing t := by
  constructor
  · intro m hm
    exact h.unsettled m (by simp [hst.momentsTo htu, hm])
  · intro e he
    exact h.valued e (by simp [hst.errorsTo htu, he])

theorem SettlesNothing.right (h : s.SettlesNothing u) (hst : s.Leads t) (htu : t.Leads u) :
    t.SettlesNothing u := by
  constructor
  · intro m hm hpath
    exact h.unsettled m (by simp [hst.momentsTo htu, hm]) (hpath.trans hst.path)
  · intro e he
    exact h.valued e (by simp [hst.errorsTo htu, he])

theorem SettlesNothing.of_move {event : Event} {c : Context} (h : s.SettlesNothing (s.move event c))
    (hpath : c.path = s.context.path) : event.settles = false := by
  have hmoments : s.momentsTo (s.move event c) = [⟨event, c⟩] := momentsTo_eq rfl
  exact h.unsettled ⟨event, c⟩ (by simp [hmoments]) hpath

theorem not_settlesNothing_report {cause : Cause} (h : cause.blamesFunction = true) (span : Span) :
    ¬ s.SettlesNothing (CheckM.report cause span s).2 := by
  intro hsettles
  have herrors : s.errorsTo (CheckM.report cause span s).2 = [⟨cause, span.start⟩] :=
    errorsTo_eq rfl
  have hfalse : cause.blamesFunction = false :=
    hsettles.valued ⟨cause, span.start⟩ (by simp [herrors])
  rw [h] at hfalse
  cases hfalse

end Checking

/-! ## States with failed parts -/

/-- Exports and errors are never looked at. -/
structure Context.FailsTo (c c' : Context) : Prop where
  environment : c'.environment = c.environment
  path : c'.path = c.path
  importStack : c'.importStack = c.importStack
  nextId : c'.nextId = c.nextId
  depth : c'.depth = c.depth
  scopes : List.Forall₂ Scope.FailsTo c.scopes c'.scopes
  opened : c.scopes ≠ []

namespace Context.FailsTo

variable {c c' : Context}

theorem enter? (h : c.FailsTo c') (hc : c.enter? = none) : c'.enter? = none := by
  unfold Context.enter? at hc ⊢
  rw [h.environment, h.depth]
  split at hc
  · rename_i hfull
    rw [if_pos hfull]
  · cases hc

theorem enter (h : c.FailsTo c') {inner : Context} (hc : c.enter? = some inner) :
    ∃ inner', c'.enter? = some inner' ∧ inner.FailsTo inner' := by
  refine ⟨{ c' with depth := c'.depth + 1 }, ?_, ?_⟩
  · unfold Context.enter? at hc ⊢
    rw [h.environment, h.depth]
    split at hc
    · cases hc
    · rename_i hroom
      rw [if_neg hroom]
  · rw [CheckM.enter?_eq_some hc]
    exact ⟨h.environment, h.path, h.importStack, h.nextId, congrArg (· + 1) h.depth, h.scopes,
      h.opened⟩

theorem leave (h : c.FailsTo c') : c.leave.FailsTo c'.leave :=
  ⟨h.environment, h.path, h.importStack, h.nextId, congrArg (· - 1) h.depth, h.scopes, h.opened⟩

theorem report_left (h : c.FailsTo c') (cause : Cause) (span : Span) :
    (c.report cause span).FailsTo c' :=
  ⟨h.environment, h.path, h.importStack, h.nextId, h.depth, h.scopes, h.opened⟩

theorem report (h : c.FailsTo c') (cause cause' : Cause) (span : Span) :
    (c.report cause span).FailsTo (c'.report cause' span) :=
  ⟨h.environment, h.path, h.importStack, h.nextId, h.depth, h.scopes, h.opened⟩

theorem push (h : c.FailsTo c') : c.push.FailsTo c'.push :=
  ⟨h.environment, h.path, h.importStack, h.nextId, h.depth, .cons .nil h.scopes,
    List.cons_ne_nil _ _⟩

theorem declare (h : c.FailsTo c') {v v' : Variable} (hv : v.FailsTo v') :
    (c.declare v).FailsTo (c'.declare v') := by
  obtain ⟨scope, outer, hscopes⟩ := List.exists_cons_of_ne_nil h.opened
  have hfails := h.scopes
  rw [hscopes] at hfails
  unfold Context.declare
  cases hscopes' : c'.scopes with
  | nil =>
    rw [hscopes'] at hfails
    cases hfails
  | cons scope' outer' =>
    rw [hscopes'] at hfails
    cases hfails with
    | cons hscope houter =>
      rw [hscopes]
      exact ⟨h.environment, h.path, h.importStack, h.nextId, h.depth,
        .cons (.cons hv hscope) houter,
        List.cons_ne_nil _ _⟩

theorem innermost (h : c.FailsTo c') : c.innermost.FailsTo c'.innermost := by
  have hscopes := h.scopes
  unfold Context.innermost
  generalize c.scopes = scopes, c'.scopes = scopes' at hscopes
  cases hscopes with
  | nil => exact .nil
  | cons hscope _ => exact hscope

theorem resolve? (h : c.FailsTo c') (x : String) :
    Option.Rel Variable.FailsTo (c.resolve? x) (c'.resolve? x) := by
  have hscopes := h.scopes
  unfold Context.resolve?
  generalize c.scopes = scopes, c'.scopes = scopes' at hscopes ⊢
  induction hscopes with
  | nil => exact .none
  | @cons scope scope' outer outer' hscope _ ih =>
    have hget := hscope.get? (x := x)
    rw [List.findSome?_cons, List.findSome?_cons]
    generalize scope.get? x = o, scope'.get? x = o' at hget
    cases hget with
    | none => exact ih
    | some hv => exact .some hv

theorem isDeclared (h : c.FailsTo c') (x : String) : c'.isDeclared x = c.isDeclared x := by
  have hget := h.innermost.get? (x := x)
  unfold Context.isDeclared
  generalize c.innermost.get? x = o, c'.innermost.get? x = o' at hget ⊢
  cases hget <;> rfl

theorem atFileRoot (h : c.FailsTo c') : c'.atFileRoot = c.atFileRoot := by
  unfold Context.atFileRoot
  rw [h.scopes.length_eq]

end Context.FailsTo

structure Checking.FailsTo (s s' : Checking) : Prop where
  context : s.context.FailsTo s'.context
  workspace : s.workspace.Twin s'.workspace

theorem Checking.FailsTo.move {s s' : Checking} (h : s.FailsTo s') {c c' : Context}
    (hc : c.FailsTo c')
    (event event' : Event) : (s.move event c).FailsTo (s'.move event' c') :=
  ⟨hc, h.workspace.note _ _⟩

/-! ## Pairs of checks -/

/-- From `s` and `s'` two checks came to `r` and `r'`: values related by `R`, the second state the
first with failed parts, and no error in the second without one at the same place in the first. `D`
relates the value of the first to the variables that it declared. -/
structure Checking.FewerErrors {α : Type} (D : α → List Variable → Prop) (R : α → α → Prop)
    (s s' : Checking) (r r' : α × Checking) : Prop where
  value : R r.1 r'.1
  states : r.2.FailsTo r'.2
  errors : ((s'.errorsTo r'.2).map Error.position).Sublist ((s.errorsTo r.2).map Error.position)
  frame : ∃ declared, D r.1 declared ∧
    r.2.context.scopes = s.context.scopes.modifyHead (declared ++ ·)

theorem modifyHead_nil_append (scopes : List Scope) : scopes.modifyHead ([] ++ ·) = scopes := by
  cases scopes <;> rfl

/-- Two steps that declare nothing, of which the second reports nothing. -/
theorem Checking.FewerErrors.silent {α : Type} {D : α → List Variable → Prop} {R : α → α → Prop}
    {s s' t t' : Checking} {a a' : α} (hvalue : R a a') (hstates : t.FailsTo t') (hD : D a [])
    (hscopes : t.context.scopes = s.context.scopes)
    (herrors : t'.context.errors = s'.context.errors) : s.FewerErrors D R s' (a, t) (a', t') := by
  refine ⟨hvalue, hstates, ?_, [], hD, ?_⟩
  · have hnone : s'.errorsTo t' = [] := errorsTo_eq (by rw [herrors, List.append_nil])
    rw [hnone]
    exact List.nil_sublist _
  · rw [modifyHead_nil_append]
    exact hscopes

/-- Under `P`, and if `m` settles nothing, `m'` finds no other errors. -/
structure CheckM.AddsNoErrors {α : Type} (P : Prop) (D : α → List Variable → Prop)
    (R : α → α → Prop)
    (m m' : CheckM α) : Prop where
  adds : m.Adds
  adds' : m'.Adds
  fewerErrors : P → ∀ s s' : Checking, s.FailsTo s' → s.SettlesNothing (m s).2 →
    s.FewerErrors D R s' (m s) (m' s')

def CheckM.DeclaresNothing {α : Type} (_ : α) (declared : List Variable) : Prop :=
  declared = []

namespace CheckM

section
variable {α β : Type} {P Q : Prop} {D D' : α → List Variable → Prop} {R R' : α → α → Prop}

namespace AddsNoErrors

/-- It may be assumed what a result is claimed under, except for what checks add. -/
theorem assume {m m' : CheckM α} (hm : m.Adds) (hm' : m'.Adds)
    (h : P → AddsNoErrors True D R m m') :
    AddsNoErrors P D R m m' :=
  ⟨hm, hm', fun hP => (h hP).fewerErrors trivial⟩

theorem weaken {m m' : CheckM α} (h : AddsNoErrors P D R m m') (hP : Q → P)
    (hD : ∀ a declared, D a declared → D' a declared) (hR : ∀ a a', R a a' → R' a a') :
    AddsNoErrors Q D' R' m m' := by
  refine ⟨h.adds, h.adds', fun hQ s s' hs hsettles => ?_⟩
  obtain ⟨hvalue, hstates, herrors, declared, hdeclared, hscopes⟩ :=
    h.fewerErrors (hP hQ) s s' hs hsettles
  exact ⟨hR _ _ hvalue, hstates, herrors, declared, hD _ _ hdeclared, hscopes⟩

theorem given {m m' : CheckM α} (h : AddsNoErrors P D R m m') (hP : Q → P) :
    AddsNoErrors Q D R m m' :=
  h.weaken hP (fun _ _ => id) fun _ _ => id

theorem read {f f' : Context → α} (h : P → ∀ c c', c.FailsTo c' → R (f c) (f' c'))
    (hD : ∀ c, D (f c) []) : AddsNoErrors P D R (CheckM.read f) (CheckM.read f') := by
  refine ⟨fun s => .refl s, fun s => .refl s, fun hP s s' hs _ => ?_⟩
  exact .silent (h hP _ _ hs.context) hs (hD _) rfl rfl

theorem pure {a a' : α} (h : P → R a a') (hD : D a []) :
    AddsNoErrors P D R (Pure.pure a) (Pure.pure a') :=
  read (fun hP _ _ _ => h hP) fun _ => hD

/-- One check after another. The second may rely on how the values of the first are related. -/
theorem bind {D₁ : β → List Variable → Prop} {S : β → β → Prop} {m m' : CheckM β}
    {f f' : β → CheckM α} {D₂ : β → α → List Variable → Prop} (hm : AddsNoErrors P D₁ S m m')
    (hf : ∀ b b', AddsNoErrors (P ∧ S b b') (D₂ b) R (f b) (f' b'))
    (hD : ∀ b a first second, D₁ b first → D₂ b a second → D a (second ++ first)) :
    AddsNoErrors P D R (m >>= f) (m' >>= f') where
  adds s := (hm.adds s).trans ((hf (m s).1 (m s).1).adds _)
  adds' s := (hm.adds' s).trans ((hf (m' s).1 (m' s).1).adds' _)
  fewerErrors hP s s' hs hsettles := by
    have hadds := (hf (m s).1 (m' s').1).adds (m s).2
    have hadds' := (hf (m s).1 (m' s').1).adds' (m' s').2
    have hfirst := hm.fewerErrors hP s s' hs (hsettles.left (hm.adds s) hadds)
    have hsecond := (hf (m s).1 (m' s').1).fewerErrors ⟨hP, hfirst.value⟩ _ _ hfirst.states
      (hsettles.right (hm.adds s) hadds)
    obtain ⟨first, hD₁, hscopes₁⟩ := hfirst.frame
    obtain ⟨second, hD₂, hscopes₂⟩ := hsecond.frame
    rw [bind_run, bind_run]
    refine ⟨hsecond.value, hsecond.states, ?_, second ++ first, hD _ _ _ _ hD₁ hD₂, ?_⟩
    · rw [(hm.adds s).errorsTo hadds, (hm.adds' s').errorsTo hadds', List.map_append,
        List.map_append]
      exact hfirst.errors.append hsecond.errors
    · rw [hscopes₂, hscopes₁]
      cases s.context.scopes <;> simp

theorem after {S : β → β → Prop} {m m' : CheckM β} {f f' : β → CheckM α}
    (hm : AddsNoErrors P DeclaresNothing S m m')
    (hf : ∀ b b', AddsNoErrors (P ∧ S b b') D R (f b) (f' b')) :
    AddsNoErrors P D R (m >>= f) (m' >>= f') := by
  refine hm.bind hf fun b a first second hfirst hsecond => ?_
  obtain rfl : first = [] := hfirst
  rwa [List.append_nil]

theorem afterSame {m m' : CheckM β} {f f' : β → CheckM α}
    (hm : AddsNoErrors P DeclaresNothing Eq m m')
    (hf : ∀ b, AddsNoErrors P D R (f b) (f' b)) : AddsNoErrors P D R (m >>= f) (m' >>= f') := by
  refine hm.after fun b b' => .assume (hf b).adds (hf b').adds' ?_
  rintro ⟨hP, rfl⟩
  exact (hf b).given fun _ => hP

theorem step {f f' : Context → α × Context} {event event' : α → Event} (hf : Local f)
    (hf' : Local f')
    (h : P → ∀ c c', c.FailsTo c' → R (f c).1 (f' c').1 ∧ (f c).2.FailsTo (f' c').2 ∧
      ∃ declared, D (f c).1 declared ∧ (f c).2.scopes = c.scopes.modifyHead (declared ++ ·)) :
    AddsNoErrors P D R (onContext event f) (onContext event' f') := by
  refine ⟨.step event hf, .step event' hf', fun hP s s' hs _ => ?_⟩
  obtain ⟨hvalue, hcontext, hframe⟩ := h hP _ _ hs.context
  have hsilent : (f' s'.context).2.errors = s'.context.errors ++ [] := by
    rw [hf'.within_self, List.append_nil]
    rfl
  rw [onContext_run, onContext_run]
  refine ⟨hvalue, hs.move hcontext _ _, ?_, hframe⟩
  have herrors : s'.errorsTo (s'.move (event' (f' s'.context).1) (f' s'.context).2) = [] :=
    Checking.errorsTo_eq hsilent
  rw [herrors]
  exact List.nil_sublist _

theorem note (event event' : Event) :
    AddsNoErrors P DeclaresNothing (fun _ _ => True) (CheckM.note event) (CheckM.note event') := by
  show AddsNoErrors P DeclaresNothing _ (onContext (fun _ => event) fun c => ((), c))
    (onContext (fun _ => event') fun c => ((), c))
  exact .step .stay .stay fun _ _ _ hc => ⟨trivial, hc, [], rfl, (modifyHead_nil_append _).symm⟩

/-! ### Errors -/

theorem report (cause cause' : Cause) (span : Span) :
    AddsNoErrors P DeclaresNothing (fun _ _ => True) (report cause span)
      (CheckM.report cause' span) := by
  refine ⟨.report cause span, .report cause' span, fun _ s s' hs _ => ?_⟩
  have herrors : s.errorsTo (CheckM.report cause span s).2 = [⟨cause, span.start⟩] :=
    Checking.errorsTo_eq rfl
  have herrors' : s'.errorsTo (CheckM.report cause' span s').2 = [⟨cause', span.start⟩] :=
    Checking.errorsTo_eq rfl
  refine ⟨trivial, hs.move (hs.context.report cause cause' span) _ _, ?_, [], rfl,
    (modifyHead_nil_append _).symm⟩
  rw [herrors, herrors']
  exact List.Sublist.refl _

/-- Only the check that knows more has something to report. -/
theorem report_left (cause : Cause) (span : Span) :
    AddsNoErrors P DeclaresNothing (fun _ _ => True) (CheckM.report cause span) (Pure.pure ()) := by
  refine ⟨.report cause span, fun s => .refl s, fun _ s s' hs _ => ?_⟩
  have hstates : (s.move .changed (s.context.report cause span)).FailsTo s' :=
    ⟨hs.context.report_left cause span, hs.workspace.note_left _⟩
  exact .silent trivial hstates rfl rfl rfl

theorem fail (cause cause' : Cause) (span : Span) :
    AddsNoErrors P DeclaresNothing Ty.FailsTo (fail cause span) (CheckM.fail cause' span) :=
  (report cause cause' span).after fun _ _ => pure (fun _ => rfl) rfl

theorem fail_left (cause : Cause) (span : Span) :
    AddsNoErrors P DeclaresNothing Ty.FailsTo (CheckM.fail cause span) (Pure.pure .ignore) := by
  have hignore : ∀ _ _ : Unit, AddsNoErrors (P ∧ True) DeclaresNothing Ty.FailsTo
      (Pure.pure Ty.ignore)
      (Pure.pure Ty.ignore) := fun _ _ => pure (fun _ => rfl) rfl
  exact (report_left cause span).after hignore

theorem of_not_settlesNothing {m m' : CheckM α} (hm : m.Adds) (hm' : m'.Adds)
    (h : ∀ s : Checking, ¬ s.SettlesNothing (m s).2) : AddsNoErrors P D R m m' :=
  ⟨hm, hm', fun _ s _ _ hsettles => absurd hsettles (h s)⟩

/-! ### Levels and scopes -/

theorem nested {D : Ty → List Variable → Prop} {m m' : CheckM Ty} (span : Span)
    (h : AddsNoErrors P D Ty.FailsTo m m') (hD : D .ignore []) :
    AddsNoErrors P D Ty.FailsTo (nested span m) (CheckM.nested span m') where
  adds := h.adds.nested span
  adds' := h.adds'.nested span
  fewerErrors hP s s' hs hsettles := by
    cases he : s.context.enter? with
    | none =>
      rw [nested_none he, nested_none (hs.context.enter? he)]
      have hreport := (report (P := True) (.nestingTooDeep s.context.environment.config.maxDepth)
        (.nestingTooDeep s'.context.environment.config.maxDepth) span).fewerErrors
        trivial s s' hs ?_
      · have hcontext := hs.context.report (.nestingTooDeep s.context.environment.config.maxDepth)
          (.nestingTooDeep s'.context.environment.config.maxDepth) span
        exact ⟨rfl, hreport.states.move hcontext _ _, hreport.errors, [], hD,
          (modifyHead_nil_append _).symm⟩
      · rw [nested_none he] at hsettles
        exact hsettles.left (Adds.report _ span s) (.move _ rfl List.prefix_rfl)
    | some inner =>
      obtain ⟨inner', he', hinner⟩ := hs.context.enter he
      rw [nested_some he, nested_some he']
      rw [nested_some he] at hsettles
      have hrun := h.adds (s.move .changed inner)
      have hleave := Checking.Leads.leave (m (s.move .changed inner)).2
        (.typed (m (s.move .changed inner)).1)
      have hfewer := h.fewerErrors hP _ _ (hs.move hinner .changed .changed)
        ((hsettles.right (.enter he) (hrun.trans hleave)).left hrun hleave)
      have hcontext := hfewer.states.context.leave
      obtain rfl := enter?_eq_some he
      obtain rfl := enter?_eq_some he'
      exact ⟨hfewer.value, (hfewer.states.move hcontext _ _).move hcontext _ _, hfewer.errors,
        hfewer.frame⟩

/-- A check in a scope of its own, of whose value `g` is made. -/
theorem inScope {D₁ : β → List Variable → Prop} {S : β → β → Prop} {m m' : CheckM β}
    (h : AddsNoErrors P D₁ S m m') (g : β → α) (hg : ∀ b b', S b b' → R (g b) (g b')) :
    AddsNoErrors P DeclaresNothing R
      (do
        modifyContext Context.push
        let b ← m
        modifyContext Context.pop
        return g b)
      (do
        modifyContext Context.push
        let b ← m'
        modifyContext Context.pop
        return g b) := by
  have hpush : ∀ s : Checking, s.Leads (s.move .changed s.context.push) :=
    fun _ => .move .changed rfl List.prefix_rfl
  have hpop : ∀ s : Checking, s.Leads (s.move .changed s.context.pop) :=
    fun _ => .move .changed rfl List.prefix_rfl
  refine ⟨fun s => ((hpush s).trans (h.adds _)).trans (hpop _),
    fun s => ((hpush s).trans (h.adds' _)).trans (hpop _), fun hP s s' hs hsettles => ?_⟩
  have hrun := h.adds (s.move .changed s.context.push)
  have hfewer := h.fewerErrors hP _ _ (hs.move hs.context.push .changed .changed)
    ((hsettles.right (hpush s) (hrun.trans (hpop _))).left hrun (hpop _))
  obtain ⟨declared, -, hscopes⟩ := hfewer.frame
  have hclosed : (m (s.move .changed s.context.push)).2.context.pop.scopes = s.context.scopes := by
    show (m (s.move .changed s.context.push)).2.context.scopes.tail = _
    rw [hscopes]
    rfl
  have hcontext : (m (s.move .changed s.context.push)).2.context.pop.FailsTo
      (m' (s'.move .changed s'.context.push)).2.context.pop := by
    have hinner := hfewer.states.context
    refine ⟨hinner.environment, hinner.path, hinner.importStack, hinner.nextId, hinner.depth, ?_,
      ?_⟩
    · have htail := List.forall₂_drop 1 hinner.scopes
      rwa [List.drop_one, List.drop_one] at htail
    · rw [hclosed]
      exact hs.context.opened
  refine ⟨hg _ _ hfewer.value, hfewer.states.move hcontext _ _, hfewer.errors, [], rfl, ?_⟩
  rw [modifyHead_nil_append]
  exact hclosed

/-- A check after which the innermost scope is looked at. -/
theorem inspect {D₁ : β → List Variable → Prop} {S : β → β → Prop} {m m' : CheckM β}
    (h : AddsNoErrors P D₁ S m m') (g : Scope → β → α)
    (hg : ∀ b b' declared outer scope', S b b' → D₁ b declared →
      Scope.FailsTo (declared ++ outer) scope' → R (g (declared ++ outer) b) (g scope' b')) :
    AddsNoErrors P (fun _ _ => True) R (do let b ← m; return g (← CheckM.read Context.innermost) b)
      (do let b ← m'; return g (← CheckM.read Context.innermost) b) := by
  refine ⟨h.adds, h.adds', fun hP s s' hs hsettles => ?_⟩
  have hfewer := h.fewerErrors hP s s' hs hsettles
  obtain ⟨declared, hdeclared, hscopes⟩ := hfewer.frame
  refine ⟨?_, hfewer.states, hfewer.errors, declared, trivial, hscopes⟩
  obtain ⟨scope, outer, hopened⟩ := List.exists_cons_of_ne_nil hs.context.opened
  have hinnermost : (m s).2.context.innermost = declared ++ scope := by
    unfold Context.innermost
    rw [hscopes, hopened]
    rfl
  have hfails := hfewer.states.context.innermost
  rw [hinnermost] at hfails
  show R (g (m s).2.context.innermost (m s).1) (g (m' s').2.context.innermost (m' s').1)
  rw [hinnermost]
  exact hg _ _ declared scope _ hfewer.value hdeclared hfails

end AddsNoErrors
end

/-! ## Steps -/

section
variable {P : Prop}

theorem checkName_addsNoErrors (x : String) (span : Span) :
    AddsNoErrors P DeclaresNothing Ty.FailsTo (checkName x span) (checkName x span) := by
  have hresolve : AddsNoErrors P DeclaresNothing (Option.Rel Variable.FailsTo)
    (read (Context.resolve? x))
      (read (Context.resolve? x)) := .read (fun _ _ _ h => h.resolve? x) fun _ => rfl
  refine hresolve.after fun v v' => ?_
  refine .assume ?_ ?_ fun h => ?_
  · cases v with
    | none => exact .fail _ span
    | some v => exact fun s => .refl s
  · cases v' with
    | none => exact .fail _ span
    | some v => exact fun s => .refl s
  · cases h.2 with
    | none => exact .fail _ _ span
    | some hv => exact .pure (fun _ => hv.2) rfl

theorem checkAccess_addsNoErrors (t t' : Ty) (entry : String) (span : Span) :
    AddsNoErrors (t.FailsTo t') DeclaresNothing Ty.FailsTo (checkAccess t entry span)
      (checkAccess t' entry span) := by
  refine .assume (Adds.congruence.checkAccess t entry span)
    (Adds.congruence.checkAccess t' entry span) fun h => ?_
  have hignore : AddsNoErrors True DeclaresNothing Ty.FailsTo (checkAccess t entry span)
      (checkAccess .ignore entry span) := by
    unfold checkAccess
    split
    · exact .pure (fun _ => rfl) rfl
    · split
      · exact .pure (fun _ => Ty.failsTo_ignore _) rfl
      · exact .fail_left _ span
    · exact .fail_left _ span
  cases t with
  | record v es =>
    rcases h with rfl | ⟨w, fs, rfl, -, hfs⟩
    · exact hignore
    · have hget := hfs.get? (x := entry)
      dsimp only [checkAccess]
      generalize Entries.get? entry es = o, Entries.get? entry fs = o' at hget ⊢
      cases hget with
      | none => exact .fail _ _ span
      | some ht => exact .pure (fun _ => ht) rfl
  | number | string | placeholder =>
    rcases h with rfl | ⟨_, rfl, -⟩
    · exact hignore
    · exact .fail _ _ span
  | tuple | union =>
    rcases h with rfl | ⟨_, _, rfl, -⟩
    · exact hignore
    · exact .fail _ _ span
  | function =>
    rcases h with rfl | ⟨_, _, _, rfl, -⟩
    · exact hignore
    · exact .fail _ _ span
  | atom =>
    rcases h with rfl | ⟨_, rfl, -⟩
    · exact hignore
    · exact .fail _ _ span
  | empty =>
    rcases h with rfl | rfl
    · exact hignore
    · exact .fail _ _ span
  | ignore =>
    cases h
    exact hignore

theorem requireValue_addsNoErrors (t t' : Ty) (span : Span) :
    AddsNoErrors (t.FailsTo t') DeclaresNothing (fun _ _ => True) (requireValue t span)
      (requireValue t' span) := by
  refine .assume (Adds.congruence.requireValue t span) (Adds.congruence.requireValue t' span)
    fun h => ?_
  unfold requireValue
  cases hv : t.hasValue with
  | true =>
    rw [h.hasValue hv]
    exact .pure (fun _ => trivial) rfl
  | false =>
    cases ht' : t'.hasValue with
    | true => exact .report_left _ span
    | false => exact .report _ _ span

def misfits (expected received : Ty) : Bool :=
  !expected.containsIgnore && !received.containsIgnore && !received.subtype .strict expected

theorem misfits_of_failsTo {expected expected' received received' : Ty}
    (hexpected : expected.FailsTo expected') (hreceived : received.FailsTo received')
    (h : misfits expected' received' = true) : misfits expected received = true := by
  simp only [misfits, Bool.and_eq_true, Bool.not_eq_true'] at h ⊢
  obtain ⟨⟨hexpected', hreceived'⟩, hsubtype⟩ := h
  refine ⟨⟨hexpected.clean hexpected', hreceived.clean hreceived'⟩, ?_⟩
  rw [← hreceived.subtype_eq hexpected hreceived' hexpected']
  exact hsubtype

theorem requireFit_addsNoErrors (x : String) (declared declared' value value' : Option Ty)
    (span : Span) :
    AddsNoErrors (Option.Rel Ty.FailsTo declared declared' ∧ Option.Rel Ty.FailsTo value value')
      DeclaresNothing
      (fun _ _ => True) (requireFit x declared value span)
      (requireFit x declared' value' span) := by
  refine .assume (Adds.congruence.requireFit x declared value span)
    (Adds.congruence.requireFit x declared' value' span) fun h => ?_
  obtain ⟨hdeclared, hvalue⟩ := h
  cases hdeclared with
  | none => exact .pure (fun _ => trivial) rfl
  | @some expected expected' hexpected =>
    cases hvalue with
    | none => exact .pure (fun _ => trivial) rfl
    | @some received received' hreceived =>
      have hfit : ∀ expected received, requireFit x (some expected) (some received) span =
          if misfits expected received = true then
            report (.variableMismatch x expected received) span
          else Pure.pure () := fun _ _ => rfl
      rw [hfit, hfit]
      by_cases hmisfits : misfits expected' received' = true
      · rw [if_pos hmisfits, if_pos (misfits_of_failsTo hexpected hreceived hmisfits)]
        exact .report _ _ span
      · rw [if_neg hmisfits]
        split
        · exact .report_left _ span
        · exact .pure (fun _ => trivial) rfl

theorem noteDeclared_addsNoErrors {declared declared' : Option Ty} {type type' : Ty}
    (h : P → Option.Rel Ty.FailsTo declared declared') :
    AddsNoErrors P DeclaresNothing (fun _ _ => True) (noteDeclared declared type)
      (noteDeclared declared' type') := by
  have hadds := fun declared type => Adds.congruence.noteDeclared declared type
  refine .assume (hadds _ _) (hadds _ _) fun hP => ?_
  cases h hP with
  | none => exact .pure (fun _ => trivial) rfl
  | some _ => exact .note _ _

theorem assignedType_failsTo {declared declared' value value' : Option Ty}
    (hdeclared : Option.Rel Ty.FailsTo declared declared')
    (hvalue : Option.Rel Ty.FailsTo value value') :
    (assignedType declared value).FailsTo (assignedType declared' value') := by
  unfold assignedType
  cases hvalue with
  | none =>
    cases hdeclared with
    | none => exact .refl _
    | some ht => exact ht.withValue id
  | some hv =>
    cases hdeclared with
    | none => exact hv.withValue hv.hasValue
    | some ht => exact ht.withValue hv.hasValue

theorem checkRedeclared_addsNoErrors (x : String) (span : Span) :
    AddsNoErrors P DeclaresNothing Eq (checkRedeclared x span) (checkRedeclared x span) := by
  have hdeclared : AddsNoErrors P DeclaresNothing Eq (read (Context.isDeclared x))
    (read (Context.isDeclared x)) :=
    .read (fun _ _ _ h => (h.isDeclared x).symm) fun _ => rfl
  refine hdeclared.afterSame fun redeclared => ?_
  cases redeclared with
  | true => exact (AddsNoErrors.report _ _ span).after fun _ _ => .pure (fun _ => rfl) rfl
  | false => exact .pure (fun _ => rfl) rfl

theorem declare_addsNoErrors (x : String) (redeclared : Bool) (t t' : Ty) :
    AddsNoErrors (t.FailsTo t') (fun v declared => declared = [v] ∧ v.name = x) Variable.FailsTo
      (declare x redeclared t) (declare x redeclared t') := by
  refine .assume (Adds.congruence.declare x redeclared t) (Adds.congruence.declare x redeclared t')
    fun ht => ?_
  have hv : Variable.FailsTo ⟨x, if redeclared then .ignore else t⟩
      ⟨x, if redeclared then .ignore else t'⟩ := by
    refine ⟨rfl, ?_⟩
    cases redeclared with
    | true => exact Ty.failsTo_ignore _
    | false => exact ht
  have hlocal : ∀ v : Variable, Local fun c => (v, c.declare v) := by
    intro v d c
    have hdeclare := congrArg Prod.snd (Local.declare v d c)
    exact Prod.ext rfl hdeclare
  have hrun : ∀ t : Ty, declare x redeclared t = onContext (fun _ => .changed) fun c =>
      (⟨x, if redeclared then .ignore else t⟩,
        c.declare ⟨x, if redeclared then .ignore else t⟩) := fun _ => rfl
  rw [hrun, hrun]
  refine .step (hlocal _) (hlocal _) fun _ c c' hc => ⟨hv, hc.declare hv, [_], ⟨rfl, rfl⟩, ?_⟩
  obtain ⟨scope, outer, hscopes⟩ := List.exists_cons_of_ne_nil hc.opened
  unfold Context.declare
  rw [hscopes]
  rfl

theorem exportVariable_addsNoErrors (v v' : Variable) :
    AddsNoErrors P DeclaresNothing (fun _ _ => True) (modifyContext (Context.exportVariable v))
      (modifyContext (Context.exportVariable v')) := by
  have hrun : ∀ v : Variable, modifyContext (Context.exportVariable v) =
      onContext (fun _ => .changed) fun c => ((), c.exportVariable v) := fun _ => rfl
  rw [hrun, hrun]
  refine .step (.exportVariable v) (.exportVariable v') fun _ c c' hc => ?_
  exact ⟨trivial, ⟨hc.environment, hc.path, hc.importStack, hc.nextId, hc.depth, hc.scopes,
    hc.opened⟩, [], rfl, (modifyHead_nil_append _).symm⟩

/-! ### Calls -/

/-- What is known of a callee. Nothing is, once it has failed. -/
def Callees : Option (List Ty × Ty) → Option (List Ty × Ty) → Prop
  | _, none => True
  | none, some _ => False
  | some (parameters, result), some (parameters', result') =>
    Ty.FailsToEach parameters parameters' ∧ result.FailsTo result'

theorem signature?_dims (t t' : Ty) (span : Span) :
    AddsNoErrors (t.FailsTo t') DeclaresNothing Callees (signature? t span)
      (signature? t' span) := by
  have hadds := fun t => Adds.congruence.signature? t span
  refine .assume (hadds t) (hadds t') fun h => ?_
  have hreport : ∀ cause cause' : Cause, AddsNoErrors True DeclaresNothing Callees
      (report cause span >>= fun _ => Pure.pure none)
      (report cause' span >>= fun _ => Pure.pure none) :=
    fun cause cause' => (AddsNoErrors.report cause cause' span).after fun _ _ =>
      .pure (fun _ => trivial) rfl
  have hreport_left : ∀ cause : Cause, AddsNoErrors True DeclaresNothing Callees
      (report cause span >>= fun _ => Pure.pure none) (Pure.pure none) := by
    intro cause
    have hnone : ∀ _ _ : Unit, AddsNoErrors (True ∧ True) DeclaresNothing Callees (Pure.pure none)
      (Pure.pure none) :=
      fun _ _ => .pure (fun _ => trivial) rfl
    exact (AddsNoErrors.report_left cause span).after hnone
  cases t with
  | function v parameters result =>
    cases v with
    | true =>
      rcases h with rfl | ⟨w, parameters', result', rfl, hw, hparameters, hresult⟩
      · exact .pure (fun _ => trivial) rfl
      · rw [show w = true from hw rfl]
        exact .pure (fun _ => ⟨hparameters, hresult⟩) rfl
    | false =>
      -- the one callee that a failure could make callable
      refine .of_not_settlesNothing (hadds _) (hadds t') fun s => ?_
      exact Checking.not_settlesNothing_report rfl span
  | number | string | placeholder =>
    rcases h with rfl | ⟨_, rfl, -⟩
    · exact hreport_left _
    · exact hreport _ _
  | tuple | record | union =>
    rcases h with rfl | ⟨_, _, rfl, -⟩
    · exact hreport_left _
    · exact hreport _ _
  | atom =>
    rcases h with rfl | ⟨_, rfl, -⟩
    · exact hreport_left _
    · exact hreport _ _
  | empty =>
    rcases h with rfl | rfl
    · exact hreport_left _
    · exact hreport _ _
  | ignore =>
    cases h
    exact .pure (fun _ => trivial) rfl

def accept (parameters : List Ty) (result : Ty) (arguments : List Ty) : CheckM Ty := do
  let type ← onContext (fun _ => .settled (callSubstitution parameters arguments))
    (Context.resolveCall parameters arguments result)
  return type.withValue true

section
variable {parameters parameters' arguments arguments' : List Ty} {result result' : Ty}

theorem accept_adds : Adds (accept parameters result arguments) :=
  fun s => Adds.step (fun _ => .settled (callSubstitution parameters arguments))
    (.resolveCall parameters arguments result) s

theorem callSubstitution_of_settlesNothing {s : Checking}
    (h : s.SettlesNothing (accept parameters result arguments s).2) :
    callSubstitution parameters arguments = [] := by
  have hpath : (s.context.resolveCall parameters arguments result).2.path = s.context.path := by
    rw [(Local.resolveCall parameters arguments result).within_self]
    rfl
  have hevent := Checking.SettlesNothing.of_move h hpath
  simpa [Event.settles] using hevent

theorem accept_run (h : callSubstitution parameters arguments = []) (s : Checking) :
    accept parameters result arguments s =
      (result.withValue true, s.move (.settled []) s.context) := by
  have hresolve : s.context.resolveCall parameters arguments result = (result, s.context) := by
    unfold Context.resolveCall
    rw [h]
    rfl
  unfold accept
  rw [bind_run, onContext_run, hresolve, h]
  rfl

theorem accept_left : AddsNoErrors P DeclaresNothing Ty.FailsTo (accept parameters result arguments)
    (Pure.pure .ignore) := by
  refine ⟨accept_adds, fun s => .refl s, fun _ s s' hs hsettles => ?_⟩
  rw [accept_run (callSubstitution_of_settlesNothing hsettles)]
  exact .silent (Ty.failsTo_ignore _) ⟨hs.context, hs.workspace.note_left _⟩ rfl rfl rfl

theorem accept_addsNoErrors (harguments : Ty.FailsToEach arguments arguments')
    (hparameters : Ty.FailsToEach parameters parameters') (hresult : result.FailsTo result')
    (harguments' : Ty.anyContainsIgnore arguments' = false)
    (hparameters' : Ty.anyContainsIgnore parameters' = false) :
    AddsNoErrors P DeclaresNothing Ty.FailsTo (accept parameters result arguments)
      (accept parameters' result' arguments') := by
  refine ⟨accept_adds, accept_adds, fun _ s s' hs hsettles => ?_⟩
  have hnil := callSubstitution_of_settlesNothing hsettles
  have hnil' := callSubstitution_eq_nil harguments hparameters harguments' hparameters' hnil
  rw [accept_run hnil, accept_run hnil']
  exact .silent (hresult.withValue id) (hs.move hs.context _ _) rfl rfl rfl

theorem checkCall_left (span : Span) : AddsNoErrors P DeclaresNothing Ty.FailsTo
    (checkCall parameters result arguments span) (Pure.pure .ignore) := by
  unfold checkCall
  split
  · exact .pure (fun _ => rfl) rfl
  · split
    · exact .fail_left _ span
    · exact accept_left

theorem checkCall_addsNoErrors (span : Span) (harguments : Ty.FailsToEach arguments arguments')
    (hparameters : Ty.FailsToEach parameters parameters') (hresult : result.FailsTo result') :
    AddsNoErrors P DeclaresNothing Ty.FailsTo (checkCall parameters result arguments span)
      (checkCall parameters' result' arguments' span) := by
  by_cases hfailed : (Ty.anyContainsIgnore arguments' || Ty.anyContainsIgnore parameters') = true
  · have hignore : checkCall parameters' result' arguments' span = Pure.pure .ignore := by
      unfold checkCall
      rw [if_pos hfailed]
    rw [hignore]
    exact checkCall_left span
  · rw [Bool.not_eq_true, Bool.or_eq_false_iff] at hfailed
    have hcompared : ∀ {parameters arguments : List Ty} {result : Ty},
        Ty.anyContainsIgnore arguments = false → Ty.anyContainsIgnore parameters = false →
        checkCall parameters result arguments span =
          if (!Ty.subtypes .inferring arguments parameters) = true then
            CheckM.fail (.argumentMismatch parameters arguments) span
          else accept parameters result arguments := by
      intro parameters arguments result ha hp
      unfold checkCall
      rw [ha, hp]
      rfl
    rw [hcompared hfailed.1 hfailed.2,
      hcompared (harguments.clean hfailed.1) (hparameters.clean hfailed.2),
      harguments.subtypes_eq hparameters hfailed.1 hfailed.2]
    split
    · exact .fail _ _ span
    · exact accept_addsNoErrors harguments hparameters hresult hfailed.1 hfailed.2

end

/-! ### Imports -/

theorem checkReport_addsNoErrors (path : String) (span : Span) (report : Option Report) :
    AddsNoErrors P DeclaresNothing Ty.FailsTo (checkReport path span report)
      (checkReport path span report) := by
  cases report with
  | none => exact .fail _ _ span
  | some report =>
    unfold checkReport
    dsimp only
    split
    · exact .fail _ _ span
    · have hinstantiate : AddsNoErrors P DeclaresNothing Eq
          (onContext .imported (Context.instantiate report.exports))
          (onContext .imported (Context.instantiate report.exports)) := by
        refine .step (.instantiate _) (.instantiate _) fun _ c c' hc => ?_
        unfold Context.instantiate
        rw [hc.nextId]
        exact ⟨rfl, ⟨hc.environment, hc.path, hc.importStack, rfl, hc.depth, hc.scopes, hc.opened⟩,
          [], rfl, (modifyHead_nil_append _).symm⟩
      exact hinstantiate.afterSame fun exports => .pure (fun _ => .refl _) rfl

/-- An import finds the same report, whatever has failed. -/
theorem importer_addsNoErrors (n : Nat) (requested : String) (span : Span) :
    AddsNoErrors P DeclaresNothing Ty.FailsTo (importer n requested span)
      (importer n requested span) := by
  refine ⟨importer_adds n requested span, importer_adds n requested span,
    fun _ s s' hs hsettles => ?_⟩
  rw [importer_eq] at hsettles ⊢
  have hpath := hs.context.path
  have hstack := hs.context.importStack
  cases htarget : Path.target? s.context.path requested with
  | none =>
    rw [importWith_invalid _ span htarget] at hsettles ⊢
    rw [importWith_invalid _ span (hpath ▸ htarget)]
    exact (AddsNoErrors.fail (P := True) _ _ span).fewerErrors trivial s s' hs hsettles
  | some b =>
    by_cases hb : b ∈ s.context.importStack
    · rw [importWith_cyclic _ span htarget hb] at hsettles ⊢
      rw [importWith_cyclic _ span (hpath ▸ htarget) (hstack ▸ hb)]
      exact (AddsNoErrors.fail (P := True) _ _ span).fewerErrors trivial s s' hs hsettles
    · have htwin := hs.workspace.report? (opener n s.context b) (opener n s'.context b) b
        fun tree _ _ => opener_alike n _ s'.context b tree hs.context.environment hstack
          (hs.workspace.opening b)
      rw [importWith_report _ span htarget hb] at hsettles ⊢
      rw [importWith_report _ span (hpath ▸ htarget) (hstack ▸ hb)]
      dsimp only at hsettles ⊢
      rw [htwin.1]
      have hreport := checkReport_addsNoErrors (P := True) b span
        (s.workspace.report? (opener n s.context b) b).1
      have hanswered := Checking.Leads.report? (opener_trail n) s b
      have hstates : Checking.FailsTo
          ⟨s.context, (s.workspace.report? (opener n s.context b) b).2⟩
          ⟨s'.context, (s'.workspace.report? (opener n s'.context b) b).2⟩ :=
        ⟨hs.context, htwin.2⟩
      have hfewer := hreport.fewerErrors trivial _ _ hstates
        (hsettles.right hanswered (hreport.adds _))
      exact ⟨hfewer.value, hfewer.states, hfewer.errors, hfewer.frame⟩

end

end CheckM

end ShapeCheck
