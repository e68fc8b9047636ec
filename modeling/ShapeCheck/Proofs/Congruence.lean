import ShapeCheck.Proofs.Leaves
import ShapeCheck.Proofs.Steps

/-!
# Checks are built from a few steps

A check reads and changes the open scopes, reports errors, nests and imports, one step after
another. So a relation between checks that holds of each such step and is closed under sequencing
and nesting holds of the checks of every tree, as soon as it holds of its imports. The relation
comes with the list of the imports that a check goes through, in their order.
-/

namespace ShapeCheck

/-! ## Local steps -/

def Context.within (c d : Context) : Context :=
  { c with
    environment := d.environment
    path := d.path
    importStack := d.importStack
    errors := d.errors
    depth := d.depth }

/-- The step neither reads nor changes where its context stands and which errors it has. -/
def Local {α : Type} (f : Context → α × Context) : Prop :=
  ∀ d c : Context, f (c.within d) = ((f c).1, (f c).2.within d)

namespace Local

/-- Its context stays where it stands. -/
theorem within_self {α : Type} {f : Context → α × Context} (hf : Local f) (c : Context) :
    (f c).2 = (f c).2.within c :=
  congrArg Prod.snd (hf c c)

theorem stay : Local fun c => ((), c) :=
  fun _ _ => rfl

theorem push : Local fun c => ((), c.push) :=
  fun _ _ => rfl

theorem pop : Local fun c => ((), c.pop) :=
  fun _ _ => rfl

theorem exportVariable (v : Variable) : Local fun c => ((), c.exportVariable v) :=
  fun _ _ => rfl

theorem declare (v : Variable) : Local fun c => ((), c.declare v) := by
  intro d c
  unfold Context.declare
  cases hs : c.scopes with
  | nil => simp [Context.within, hs]
  | cons scope outer => simp [Context.within, hs]

theorem allocate : Local Context.allocate :=
  fun _ _ => rfl

theorem instantiate (vs : List Variable) : Local (Context.instantiate vs) :=
  fun _ _ => rfl

theorem resolveCall (parameters arguments : List Ty) (result : Ty) :
    Local (Context.resolveCall parameters arguments result) := by
  have apply : ∀ (σ : Ty.Substitution) (d c : Context),
      (c.within d).apply σ = (c.apply σ).within d := by
    intro σ d
    unfold Context.apply
    induction σ with
    | nil => exact fun _ => rfl
    | cons step σ ih => exact fun c => ih (c.substitute step.1 step.2)
  intro d c
  unfold Context.resolveCall
  dsimp only
  rw [apply]

end Local

/-! ## Causes -/

/-- What the cause says of the types that it names is so. -/
@[simp] def Cause.Founded : Cause → Prop
  | .valueExpected found => found.hasValue = false
  | .variableMismatch _ expected received =>
    expected.containsIgnore = false ∧ received.containsIgnore = false ∧
      received.subtype .strict expected = false
  | .argumentMismatch expected received =>
    Ty.anyContainsIgnore expected = false ∧ Ty.anyContainsIgnore received = false ∧
      Ty.subtypes .inferring received expected = false
  | .notCallable callee =>
    callee.hasValue = true ∧ callee ≠ .ignore ∧ ∀ v ps r, callee ≠ .function v ps r
  | .missingEntry record entry =>
    ∃ v es, record = .record v es ∧ Entries.get? entry es = none
  | .notRecord accessed => accessed ≠ .ignore ∧ ∀ v es, accessed ≠ .record v es
  | _ => True

/-- The cause may be reported by a step other than an import. -/
@[simp] def Cause.Arises (cause : Cause) : Prop :=
  (∀ p, cause ≠ .cyclicImport p) ∧ cause.Founded

/-! ## Events -/

def Event.steps : Event → Ty.Substitution
  | .settled σ => σ
  | _ => []

/-- Placeholders are settled only by types that have not failed. -/
def Event.Sound (event : Event) : Prop :=
  ∀ s ∈ event.steps, s.2.containsIgnore = false

theorem Event.sound_of_steps {event : Event} (h : event.steps = []) : event.Sound := by
  simp [Sound, h]

theorem Event.sound_settled {parameters arguments : List Ty}
    (hparameters : Ty.anyContainsIgnore parameters = false)
    (harguments : Ty.anyContainsIgnore arguments = false) :
    (Event.settled (callSubstitution parameters arguments)).Sound := by
  intro s hs
  rw [Ty.containsIgnore_eq, decide_eq_false_iff_not]
  intro hl
  rw [Ty.anyContainsIgnore_eq, decide_eq_false_iff_not] at hparameters harguments
  exact (mem_leaves_callSubstitution hs (Or.inr hl)).elim hparameters harguments

/-! ## Congruences -/

/-- A relation between checks that each step of a check is in. -/
structure Congruence (J : (α : Type) → List String → CheckM α → CheckM α → Prop) : Prop where
  pure : ∀ {α : Type} (a : α), J α [] (pure a) (pure a)
  bind : ∀ {α β : Type} {rs ss : List String} {m₁ m₂ : CheckM α} {f₁ f₂ : α → CheckM β},
    J α rs m₁ m₂ → (∀ a, J β ss (f₁ a) (f₂ a)) → J β (rs ++ ss) (m₁ >>= f₁) (m₂ >>= f₂)
  read : ∀ {α : Type} (f : List Scope → α),
    J α [] (CheckM.read fun c => f c.scopes) (CheckM.read fun c => f c.scopes)
  step : ∀ {α : Type} {f : Context → α × Context} (event : α → Event), Local f →
    (∀ a, (event a).Sound) → J α [] (CheckM.onContext event f) (CheckM.onContext event f)
  report : ∀ {cause : Cause} (span : Span), cause.Arises →
    J Unit [] (CheckM.report cause span) (CheckM.report cause span)
  nested : ∀ {rs : List String} {m₁ m₂ : CheckM Ty} (span : Span), J Ty rs m₁ m₂ →
    J Ty rs (CheckM.nested span m₁) (CheckM.nested span m₂)

section
variable {J : (α : Type) → List String → CheckM α → CheckM α → Prop} (hJ : Congruence J)
variable {α β : Type} {rs ss : List String}
include hJ

namespace Congruence

/-- Steps without imports may follow. -/
theorem andThen {m₁ m₂ : CheckM α} {f₁ f₂ : α → CheckM β} (hm : J α rs m₁ m₂)
    (hf : ∀ a, J β [] (f₁ a) (f₂ a)) : J β rs (m₁ >>= f₁) (m₂ >>= f₂) := by
  have h := hJ.bind hm hf
  rwa [List.append_nil] at h

/-- Steps without imports may precede. -/
theorem after {m₁ m₂ : CheckM α} {f₁ f₂ : α → CheckM β} (hm : J α [] m₁ m₂)
    (hf : ∀ a, J β rs (f₁ a) (f₂ a)) : J β rs (m₁ >>= f₁) (m₂ >>= f₂) :=
  hJ.bind hm hf

theorem modifyContext {f : Context → Context} (hf : Local fun c => ((), f c)) :
    J Unit [] (CheckM.modifyContext f) (CheckM.modifyContext f) :=
  hJ.step (fun _ => .changed) hf fun _ => Event.sound_of_steps rfl

theorem note {event : Event} (h : event.steps = []) :
    J Unit [] (CheckM.note event) (CheckM.note event) :=
  hJ.step (fun _ => event) .stay fun _ => Event.sound_of_steps h

theorem fail {cause : Cause} (span : Span) (h : cause.Arises) :
    J Ty [] (CheckM.fail cause span) (CheckM.fail cause span) :=
  hJ.andThen (hJ.report span h) fun _ => hJ.pure _

/-! ## Steps -/

theorem checkName (x : String) (span : Span) :
    J Ty [] (CheckM.checkName x span) (CheckM.checkName x span) := by
  refine hJ.andThen (hJ.read fun scopes => scopes.findSome? (Scope.get? x)) fun v => ?_
  cases v with
  | none => exact hJ.fail span (by simp)
  | some v => exact hJ.pure _

theorem checkAccess (t : Ty) (entry : String) (span : Span) :
    J Ty [] (CheckM.checkAccess t entry span) (CheckM.checkAccess t entry span) := by
  unfold CheckM.checkAccess
  split
  · exact hJ.pure _
  · split
    · exact hJ.pure _
    · rename_i hentry
      exact hJ.fail span ⟨by simp, _, _, rfl, hentry⟩
  · rename_i hignore hrecord
    exact hJ.fail span ⟨by simp, hignore, hrecord⟩

theorem requireValue (t : Ty) (span : Span) :
    J Unit [] (CheckM.requireValue t span) (CheckM.requireValue t span) := by
  unfold CheckM.requireValue
  split
  · rename_i hvalue
    exact hJ.report span (by simpa using hvalue)
  · exact hJ.pure _

theorem requireFit (x : String) (declared value : Option Ty) (span : Span) :
    J Unit [] (CheckM.requireFit x declared value span)
      (CheckM.requireFit x declared value span) := by
  unfold CheckM.requireFit
  split
  · split
    · rename_i hfit
      exact hJ.report span (by simpa [and_assoc] using hfit)
    · exact hJ.pure _
  · exact hJ.pure _

theorem noteDeclared (declared : Option Ty) (type : Ty) :
    J Unit [] (CheckM.noteDeclared declared type) (CheckM.noteDeclared declared type) := by
  unfold CheckM.noteDeclared
  split
  · exact hJ.note rfl
  · exact hJ.pure _

theorem signature? (callee : Ty) (span : Span) :
    J _ [] (CheckM.signature? callee span) (CheckM.signature? callee span) := by
  unfold CheckM.signature?
  split
  · exact hJ.pure _
  · exact hJ.pure _
  · rename_i hignore hfunction
    refine hJ.andThen (hJ.report span ?_) fun _ => hJ.pure _
    split
    · rename_i hvalue
      refine ⟨by simp, hvalue, hignore, ?_⟩
      rintro v ps r rfl
      cases hvalue
      exact hfunction ps r rfl
    · rename_i hvalue
      simpa using hvalue

theorem isDeclared (x : String) :
    J Bool [] (CheckM.read (Context.isDeclared x)) (CheckM.read (Context.isDeclared x)) :=
  hJ.read fun scopes => (Scope.get? x (scopes.headD [])).isSome

theorem checkRedeclared (x : String) (span : Span) :
    J Bool [] (CheckM.checkRedeclared x span) (CheckM.checkRedeclared x span) := by
  refine hJ.andThen (hJ.isDeclared x) fun redeclared => ?_
  cases redeclared with
  | true => exact hJ.andThen (hJ.report span (by simp)) fun _ => hJ.pure _
  | false => exact hJ.pure _

theorem declare (x : String) (redeclared : Bool) (type : Ty) :
    J Variable [] (CheckM.declare x redeclared type) (CheckM.declare x redeclared type) :=
  hJ.andThen (hJ.modifyContext (.declare _)) fun _ => hJ.pure _

theorem checkCall (parameters : List Ty) (result : Ty) (arguments : List Ty) (span : Span) :
    J Ty [] (CheckM.checkCall parameters result arguments span)
      (CheckM.checkCall parameters result arguments span) := by
  unfold CheckM.checkCall
  split
  · exact hJ.pure _
  · rename_i hignore
    simp only [Bool.or_eq_true, not_or, Bool.not_eq_true] at hignore
    split
    · rename_i hfit
      exact hJ.fail span ⟨by simp, hignore.2, hignore.1, by simpa using hfit⟩
    · refine hJ.andThen (hJ.step _ (.resolveCall parameters arguments result) fun _ => ?_) fun _ =>
        hJ.pure _
      exact Event.sound_settled hignore.2 hignore.1

theorem checkReport (path : String) (span : Span) (report : Option Report) :
    J Ty [] (ShapeCheck.checkReport path span report) (ShapeCheck.checkReport path span report) := by
  cases report with
  | none => exact hJ.fail span (by simp)
  | some report =>
    unfold ShapeCheck.checkReport
    dsimp only
    split
    · exact hJ.fail span (by simp)
    · refine hJ.andThen (hJ.step _ (.instantiate _) fun _ => ?_) fun _ => hJ.pure _
      exact Event.sound_of_steps rfl

end Congruence

/-! ## Type expressions and parameters -/

mutual
theorem TypeExpr.check_congr : ∀ t : TypeExpr, J Ty [] t.check t.check
  | .name x span => hJ.nested span (hJ.checkName x span)
  | .number span => hJ.nested span (hJ.pure _)
  | .string span => hJ.nested span (hJ.pure _)
  | .tuple items span => by
    apply hJ.nested
    exact hJ.andThen (TypeExpr.checkEach_congr items) fun _ => hJ.pure _
  | .record entries span => by
    apply hJ.nested
    exact hJ.andThen (TypeExpr.checkEntries_congr entries) fun _ => hJ.pure _
  | .access t entry span => by
    apply hJ.nested
    exact hJ.andThen (TypeExpr.check_congr t) fun accessed => hJ.checkAccess accessed entry span
  | .function parameters result span => by
    apply hJ.nested
    refine hJ.andThen (TypeExpr.checkEach_congr parameters) fun _ => ?_
    exact hJ.andThen (TypeExpr.check_congr result) fun _ => hJ.pure _
  | .atom a => by
    apply hJ.nested
    exact hJ.andThen (TypeExpr.checkAtom_congr a) fun _ => hJ.pure _
  | .union atoms span => by
    apply hJ.nested
    exact hJ.andThen (TypeExpr.checkAtoms_congr atoms) fun _ => hJ.pure _
termination_by structural t => t
theorem TypeExpr.checkEach_congr : ∀ ts : List TypeExpr,
    J _ [] (TypeExpr.checkEach ts) (TypeExpr.checkEach ts)
  | [] => hJ.pure _
  | t :: ts => by
    refine hJ.andThen (TypeExpr.check_congr t) fun _ => ?_
    exact hJ.andThen (TypeExpr.checkEach_congr ts) fun _ => hJ.pure _
termination_by structural ts => ts
theorem TypeExpr.checkEntries_congr : ∀ es : List (String × TypeExpr),
    J _ [] (TypeExpr.checkEntries es) (TypeExpr.checkEntries es)
  | [] => hJ.pure _
  | (_, t) :: es => by
    refine hJ.andThen (TypeExpr.check_congr t) fun _ => ?_
    exact hJ.andThen (TypeExpr.checkEntries_congr es) fun _ => hJ.pure _
termination_by structural es => es
theorem TypeExpr.checkAtom_congr : ∀ a : AtomNode TypeExpr,
    J _ [] (TypeExpr.checkAtom a) (TypeExpr.checkAtom a)
  | ⟨_, arguments, _⟩ => hJ.andThen (TypeExpr.checkEach_congr arguments) fun _ => hJ.pure _
termination_by structural a => a
theorem TypeExpr.checkAtoms_congr : ∀ as : List (AtomNode TypeExpr),
    J _ [] (TypeExpr.checkAtoms as) (TypeExpr.checkAtoms as)
  | [] => hJ.pure _
  | a :: as => by
    refine hJ.andThen (TypeExpr.checkAtom_congr a) fun _ => ?_
    exact hJ.andThen (TypeExpr.checkAtoms_congr as) fun _ => hJ.pure _
termination_by structural as => as
end

theorem TypeExpr.checkOptional_congr (t : Option TypeExpr) :
    J _ [] (TypeExpr.checkOptional t) (TypeExpr.checkOptional t) := by
  cases t with
  | none => exact hJ.pure _
  | some t => exact hJ.andThen (TypeExpr.check_congr hJ t) fun _ => hJ.pure _

theorem Parameter.checkType_congr (p : Parameter) : J _ [] p.checkType p.checkType := by
  unfold Parameter.checkType
  split
  · refine hJ.andThen (TypeExpr.check_congr hJ _) fun _ => ?_
    exact hJ.andThen (hJ.note rfl) fun _ => hJ.pure _
  · exact hJ.step _ .allocate fun _ => Event.sound_of_steps rfl

theorem Parameter.check_congr (p : Parameter) : J _ [] p.check p.check := by
  refine hJ.andThen (Parameter.checkType_congr hJ p) fun type => ?_
  refine hJ.andThen (hJ.checkRedeclared p.name p.span) fun redeclared => ?_
  exact hJ.declare p.name redeclared type

theorem Parameter.checkEach_congr : ∀ ps : List Parameter,
    J _ [] (Parameter.checkEach ps) (Parameter.checkEach ps)
  | [] => hJ.pure _
  | p :: ps => by
    refine hJ.andThen (Parameter.check_congr hJ p) fun _ => ?_
    exact hJ.andThen (Parameter.checkEach_congr ps) fun _ => hJ.pure _

end

/-! ## Expressions and statements -/

def Importers (J : (α : Type) → List String → CheckM α → CheckM α → Prop)
    (imports₁ imports₂ : Importer) (rs : List String) : Prop :=
  ∀ r ∈ rs, ∀ span, J Ty [r] (imports₁ r span) (imports₂ r span)

section
variable {J : (α : Type) → List String → CheckM α → CheckM α → Prop}
variable {imports₁ imports₂ : Importer} {rs ss : List String}

theorem Importers.left (h : Importers J imports₁ imports₂ (rs ++ ss)) :
    Importers J imports₁ imports₂ rs :=
  fun r hr => h r (List.mem_append_left _ hr)

theorem Importers.right (h : Importers J imports₁ imports₂ (rs ++ ss)) :
    Importers J imports₁ imports₂ ss :=
  fun r hr => h r (List.mem_append_right _ hr)

variable (hJ : Congruence J)
include hJ

mutual
theorem Expr.check_congr : ∀ e : Expr, Importers J imports₁ imports₂ e.imports →
    J _ e.imports (e.check imports₁) (e.check imports₂)
  | .name x span, _ => hJ.nested span (hJ.checkName x span)
  | .number _ span, _ => hJ.nested span (hJ.pure _)
  | .string _ span, _ => hJ.nested span (hJ.pure _)
  | .tuple items span, h => by
    apply hJ.nested
    exact hJ.andThen (Expr.checkValues_congr items h) fun _ => hJ.pure _
  | .record entries span, h => by
    apply hJ.nested
    exact hJ.andThen (Expr.checkEntries_congr entries h) fun _ => hJ.pure _
  | .access e entry span, h => by
    apply hJ.nested
    refine hJ.andThen (Expr.check_congr e h) fun accessed => ?_
    refine hJ.andThen (hJ.checkAccess accessed entry span) fun type => ?_
    exact hJ.andThen (hJ.note rfl) fun _ => hJ.pure _
  | .function parameters body span, h => by
    apply hJ.nested
    refine hJ.after (hJ.modifyContext .push) fun _ => ?_
    refine hJ.after (Parameter.checkEach_congr hJ parameters) fun bound => ?_
    refine hJ.andThen (Stmt.check_congr body h) fun result => ?_
    refine hJ.andThen (hJ.read fun scopes => scopes.headD []) fun scope => ?_
    exact hJ.andThen (hJ.modifyContext .pop) fun _ => hJ.pure _
  | .call callee arguments span, h => by
    apply hJ.nested
    refine hJ.bind (Expr.check_congr callee h.left) fun type => ?_
    refine hJ.after (hJ.signature? type callee.span) fun signature => ?_
    refine hJ.andThen (Expr.checkValues_congr arguments h.right) fun types => ?_
    cases signature with
    | none => exact hJ.pure _
    | some signature => exact hJ.checkCall signature.1 signature.2 types span
  | .importFile path span, h => by
    apply hJ.nested
    exact h path (List.mem_singleton_self path) span
  | .atom x arguments span, h => by
    apply hJ.nested
    exact hJ.andThen (Expr.checkValues_congr arguments h) fun _ => hJ.pure _
termination_by structural e => e
theorem Expr.checkValues_congr : ∀ es : List Expr,
    Importers J imports₁ imports₂ (Expr.importsEach es) →
    J _ (Expr.importsEach es) (Expr.checkValues imports₁ es) (Expr.checkValues imports₂ es)
  | [], _ => hJ.pure _
  | e :: es, h => by
    refine hJ.bind (Expr.check_congr e h.left) fun type => ?_
    refine hJ.after (hJ.requireValue type e.span) fun _ => ?_
    exact hJ.andThen (Expr.checkValues_congr es h.right) fun _ => hJ.pure _
termination_by structural es => es
theorem Expr.checkEntries_congr : ∀ es : List (String × Expr),
    Importers J imports₁ imports₂ (Expr.importsEntries es) →
    J _ (Expr.importsEntries es) (Expr.checkEntries imports₁ es) (Expr.checkEntries imports₂ es)
  | [], _ => hJ.pure _
  | (_, e) :: es, h => by
    refine hJ.bind (Expr.check_congr e h.left) fun type => ?_
    refine hJ.after (hJ.requireValue type e.span) fun _ => ?_
    refine hJ.after (hJ.note rfl) fun _ => ?_
    exact hJ.andThen (Expr.checkEntries_congr es h.right) fun _ => hJ.pure _
termination_by structural es => es
theorem Expr.checkOptional_congr : ∀ e : Option Expr,
    Importers J imports₁ imports₂ (Expr.importsOptional e) →
    J _ (Expr.importsOptional e) (Expr.checkOptional imports₁ e) (Expr.checkOptional imports₂ e)
  | none, _ => hJ.pure _
  | some e, h => by
    refine hJ.andThen (Expr.check_congr e h) fun type => ?_
    exact hJ.andThen (hJ.requireValue type e.span) fun _ => hJ.pure _
termination_by structural e => e
theorem Stmt.checkAssignment_congr : ∀ a : Assignment Expr,
    Importers J imports₁ imports₂ (Stmt.importsAssignment a) →
    J _ (Stmt.importsAssignment a) (Stmt.checkAssignment imports₁ a)
      (Stmt.checkAssignment imports₂ a)
  | ⟨name, declared, value, span⟩, h => by
    refine hJ.after (hJ.checkRedeclared name span) fun redeclared => ?_
    refine hJ.after (TypeExpr.checkOptional_congr hJ declared) fun expected => ?_
    refine hJ.andThen (Expr.checkOptional_congr value h) fun received => ?_
    refine hJ.andThen (hJ.requireFit name expected received span) fun _ => ?_
    exact hJ.andThen (hJ.noteDeclared expected _) fun _ => hJ.declare name redeclared _
termination_by structural a => a
theorem Stmt.check_congr : ∀ s : Stmt, Importers J imports₁ imports₂ s.imports →
    J _ s.imports (s.check imports₁) (s.check imports₂)
  | .block [] span, _ => by
    apply hJ.nested
    exact hJ.andThen (hJ.report span (by simp)) fun _ => hJ.pure _
  | .block (first :: rest) span, h => by
    apply hJ.nested
    refine hJ.after (hJ.modifyContext .push) fun _ => ?_
    refine hJ.bind (Stmt.check_congr first h.left) fun type => ?_
    refine hJ.andThen (Stmt.checkRest_congr rest type h.right) fun type => ?_
    exact hJ.andThen (hJ.modifyContext .pop) fun _ => hJ.pure _
  | .assign a, h => by
    apply hJ.nested
    exact hJ.andThen (Stmt.checkAssignment_congr a h) fun _ => hJ.pure _
  | .exported a span, h => by
    apply hJ.nested
    refine hJ.after (hJ.read fun scopes => decide (scopes.length = 2)) fun atFileRoot => ?_
    refine hJ.after (hJ.isDeclared a.name) fun redeclared => ?_
    refine hJ.andThen (Stmt.checkAssignment_congr a h) fun v => ?_
    split
    · exact hJ.andThen (hJ.report span (by simp)) fun _ => hJ.pure _
    · split
      · exact hJ.andThen (hJ.modifyContext (.exportVariable v)) fun _ => hJ.pure _
      · exact hJ.pure _
  | .expr e, h => Expr.check_congr e h
  | .type t, _ => TypeExpr.check_congr hJ t
termination_by structural s => s
theorem Stmt.checkRest_congr : ∀ (ss : List Stmt) (type : Ty),
    Importers J imports₁ imports₂ (Stmt.importsEach ss) →
    J _ (Stmt.importsEach ss) (Stmt.checkRest imports₁ type ss) (Stmt.checkRest imports₂ type ss)
  | [], _, _ => hJ.pure _
  | s :: ss, _, h => by
    refine hJ.bind (Stmt.check_congr s h.left) fun type => ?_
    exact Stmt.checkRest_congr ss type h.right
termination_by structural ss => ss
end

end

end ShapeCheck
