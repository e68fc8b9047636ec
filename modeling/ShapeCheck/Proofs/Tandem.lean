import ShapeCheck.Proofs.Matching
import ShapeCheck.Proofs.Steps

/-!
# Checks in step

Two runs over files that match go through the same steps. They may differ in the places of their
errors and in variables that no file names, and in nothing else: at every moment they hold the same
scopes as far as they are seen, have got the same exports and have asked for the same files. What
becomes of the errors is left open. `errors q` says how those in the file at `q` correspond.
-/

namespace ShapeCheck

/-- Files on two sides that match at every path that imports lead to. -/
structure Correspondence where
  left : Sources
  right : Sources
  paths : String → Prop
  seen : String → Bool
  errors : String → Error → Error → Prop
  target : ∀ {q r b : String}, paths q → Path.target? q r = some b → paths b
  parse : ∀ {q : String}, paths q → ParsedAlike (errors q) seen (left.parse? q) (right.parse? q)

/-! ## What is seen of a scope -/

section
variable (seen : String → Bool)

def Scope.seenBy (scope : Scope) : Scope :=
  scope.filter fun v => seen v.name

theorem Scope.seenBy_map_substitute (id : Nat) (replacement : Ty) (scope : Scope) :
    Scope.seenBy seen (scope.map (Variable.substitute id replacement)) =
      (scope.seenBy seen).map (Variable.substitute id replacement) := by
  unfold seenBy
  rw [List.filter_map]
  rfl

theorem Scope.seenBy_headD (scopes : List Scope) :
    Scope.seenBy seen (scopes.headD []) = (scopes.map (Scope.seenBy seen)).headD [] := by
  cases scopes <;> rfl

variable {seen} {x : String} (hx : seen x)
include hx

theorem Scope.get?_seenBy (scope : Scope) : Scope.get? x (scope.seenBy seen) = scope.get? x := by
  unfold get? seenBy
  induction scope with
  | nil => rfl
  | cons v scope ih =>
    by_cases hv : v.name = x
    · subst hv
      simp [hx]
    · by_cases hseen : seen v.name
      · simp [hseen, hv, ih]
      · simp [hseen, hv, ih]

theorem Scope.findSome?_seenBy (scopes : List Scope) :
    (scopes.map (Scope.seenBy seen)).findSome? (Scope.get? x) =
      scopes.findSome? (Scope.get? x) := by
  rw [List.findSome?_map]
  congr 1
  funext scope
  exact Scope.get?_seenBy hx scope

end

theorem refreshParameters_eq_of_seenBy {seen : String → Bool} {scope scope' : Scope}
    (hscope : scope.seenBy seen = scope'.seenBy seen) :
    ∀ {bound : List Variable} (result : Ty), AllSeen seen (bound.map Variable.name) →
      refreshParameters scope bound result = refreshParameters scope' bound result
  | [], _, _ => rfl
  | v :: bound, result, h => by
    have hget : scope.get? v.name = scope'.get? v.name := by
      rw [← Scope.get?_seenBy h.head scope, hscope, Scope.get?_seenBy h.head]
    unfold refreshParameters
    rw [hget]
    dsimp only
    rw [refreshParameters_eq_of_seenBy hscope _ h.tail]

/-! ## States in step -/

structure Environment.Matches (seen : String → Bool) (env env' : Environment) : Prop where
  config_eq : env.config = env'.config
  globals_eq : Scope.seenBy seen env.globals = Scope.seenBy seen env'.globals

theorem Environment.Matches.refl {seen : String → Bool} (env : Environment) :
    env.Matches seen env :=
  ⟨rfl, rfl⟩

structure Report.Matches (E : Error → Error → Prop) (r r' : Report) : Prop where
  errors : List.Forall₂ E r.errors r'.errors
  exports_eq : r.exports = r'.exports
  unparsable_eq : r.unparsable = r'.unparsable

theorem Report.Matches.eq {r r' : Report} (h : r.Matches Eq r') : r = r' := by
  obtain ⟨herrors, hexports, hunparsable⟩ := h
  rw [List.forall₂_eq_eq_eq] at herrors
  cases r
  cases r'
  simp only [Report.mk.injEq]
  exact ⟨herrors, hexports, hunparsable⟩

theorem Report.matches_self (r : Report) : r.Matches Eq r := by
  refine ⟨?_, rfl, rfl⟩
  rw [List.forall₂_eq_eq_eq]

theorem Report.ofSyntaxError_matches {E : Error → Error → Prop} {e e' : Error} (h : E e e') :
    (Report.ofSyntaxError e).Matches E (.ofSyntaxError e') :=
  ⟨.cons h .nil, rfl, rfl⟩

theorem Entries.eq_of_matches {es es' : Entries Report}
    (h : List.Forall₂ (fun e e' => e.1 = e'.1 ∧ e.2.Matches Eq e'.2) es es') : es = es' := by
  induction h with
  | nil => rfl
  | cons he _ ih => rw [Prod.ext he.1 he.2.eq, ih]

section
variable (K : Correspondence) (E : Error → Error → Prop)

structure Context.Matches (c c' : Context) : Prop where
  path : K.paths c.path
  path_eq : c.path = c'.path
  importStack_eq : c.importStack = c'.importStack
  environment : c.environment.Matches K.seen c'.environment
  scopes_eq : c.scopes.map (Scope.seenBy K.seen) = c'.scopes.map (Scope.seenBy K.seen)
  exports_eq : c.exports = c'.exports
  errors : List.Forall₂ E c.errors c'.errors
  nextId_eq : c.nextId = c'.nextId
  depth_eq : c.depth = c'.depth

/-- Reports are kept for the same files. The trails of the runs are not compared. -/
structure Workspace.Matches (ws ws' : Workspace) : Prop where
  left : ws.sources = K.left
  right : ws'.sources = K.right
  reports : List.Forall₂ (fun e e' => e.1 = e'.1 ∧ e.2.Matches (K.errors e.1) e'.2)
    ws.reports ws'.reports
  journal_eq : ws.journal = ws'.journal

structure Checking.Matches (s s' : Checking) : Prop where
  context : s.context.Matches K E s'.context
  workspace : s.workspace.Matches K s'.workspace

def InStep {α : Type} (m m' : CheckM α) : Prop :=
  ∀ s s', Checking.Matches K E s s' → (m s).1 = (m' s').1 ∧ (m s).2.Matches K E (m' s').2

end

section
variable {K : Correspondence} {E : Error → Error → Prop}

/-! ## Contexts -/

namespace Context.Matches

variable {c c' : Context} (h : c.Matches K E c')
include h

theorem resolve?_eq {x : String} (hx : K.seen x) : c.resolve? x = c'.resolve? x := by
  unfold Context.resolve?
  rw [← Scope.findSome?_seenBy hx, h.scopes_eq, Scope.findSome?_seenBy hx]

theorem innermost_eq : c.innermost.seenBy K.seen = c'.innermost.seenBy K.seen := by
  unfold Context.innermost
  rw [Scope.seenBy_headD, h.scopes_eq, ← Scope.seenBy_headD]

theorem isDeclared_eq {x : String} (hx : K.seen x) : c.isDeclared x = c'.isDeclared x := by
  unfold Context.isDeclared
  rw [← Scope.get?_seenBy hx, h.innermost_eq, Scope.get?_seenBy hx]

theorem atFileRoot_eq : c.atFileRoot = c'.atFileRoot := by
  have hlength : c.scopes.length = c'.scopes.length := by
    simpa using congrArg List.length h.scopes_eq
  unfold Context.atFileRoot
  rw [hlength]

theorem push : c.push.Matches K E c'.push :=
  { h with scopes_eq := congrArg (Scope.seenBy K.seen [] :: ·) h.scopes_eq }

theorem pop : c.pop.Matches K E c'.pop :=
  { h with
    scopes_eq := by
      have htail := congrArg List.tail h.scopes_eq
      rwa [← List.map_tail, ← List.map_tail] at htail }

theorem declare (v : Variable) : (c.declare v).Matches K E (c'.declare v) := by
  have hscopes := h.scopes_eq
  unfold Context.declare
  cases hc : c.scopes with
  | nil =>
    rw [hc, List.map_nil, eq_comm, List.map_eq_nil_iff] at hscopes
    rw [hscopes]
    exact { h with scopes_eq := rfl }
  | cons scope outer =>
    rw [hc, List.map_cons, eq_comm, List.map_eq_cons_iff] at hscopes
    obtain ⟨scope', outer', hc', hscope, houter⟩ := hscopes
    rw [hc']
    refine { h with scopes_eq := ?_ }
    have hcons : Scope.seenBy K.seen (v :: scope) = Scope.seenBy K.seen (v :: scope') := by
      unfold Scope.seenBy at hscope ⊢
      rw [List.filter_cons, List.filter_cons, hscope]
    rw [List.map_cons, List.map_cons, hcons, houter]

theorem exportVariable (v : Variable) :
    (c.exportVariable v).Matches K E (c'.exportVariable v) :=
  { h with exports_eq := congrArg (· ++ [v]) h.exports_eq }

theorem report (cause : Cause) {span span' : Span} (hs : placesOf E span.start span'.start) :
    (c.report cause span).Matches K E (c'.report cause span') :=
  { h with errors := List.rel_append h.errors (.cons (hs cause) .nil) }

theorem deeper (d : Nat) :
    Context.Matches K E { c with depth := d } { c' with depth := d } :=
  { h with depth_eq := rfl }

theorem substitute (id : Nat) (replacement : Ty) :
    (c.substitute id replacement).Matches K E (c'.substitute id replacement) := by
  refine { h with scopes_eq := ?_, exports_eq := congrArg (List.map _) h.exports_eq }
  have hmap : ∀ scopes : List Scope,
      (scopes.map fun scope => scope.map (Variable.substitute id replacement)).map
          (Scope.seenBy K.seen) =
        (scopes.map (Scope.seenBy K.seen)).map
          fun scope => scope.map (Variable.substitute id replacement) := by
    intro scopes
    rw [List.map_map, List.map_map]
    exact List.map_congr_left fun scope _ => Scope.seenBy_map_substitute K.seen id replacement scope
  show List.map _ (List.map _ _) = List.map _ (List.map _ _)
  rw [hmap, hmap, h.scopes_eq]

omit h in
theorem apply (σ : Ty.Substitution) : ∀ {c c' : Context}, c.Matches K E c' →
    (c.apply σ).Matches K E (c'.apply σ) := by
  unfold Context.apply
  induction σ with
  | nil => exact fun h => h
  | cons step σ ih => exact fun h => ih (h.substitute step.1 step.2)

theorem allocate : c.allocate.1 = c'.allocate.1 ∧ c.allocate.2.Matches K E c'.allocate.2 := by
  unfold Context.allocate
  rw [h.nextId_eq]
  exact ⟨rfl, { h with nextId_eq := rfl }⟩

theorem instantiate (vs : List Variable) : (c.instantiate vs).1 = (c'.instantiate vs).1 ∧
    (c.instantiate vs).2.Matches K E (c'.instantiate vs).2 := by
  unfold Context.instantiate
  rw [h.nextId_eq]
  exact ⟨rfl, { h with nextId_eq := rfl }⟩

end Context.Matches

theorem Context.start_matches {env env' : Environment} (h : env.Matches K.seen env') {path : String}
    (hpath : K.paths path) (stack : List String) :
    (Context.start env path stack).Matches K E (Context.start env' path stack) where
  path := hpath
  path_eq := rfl
  importStack_eq := rfl
  environment := h
  scopes_eq := by
    have hglobals := congrArg List.reverse h.globals_eq
    unfold Scope.seenBy at hglobals
    rw [← List.filter_reverse, ← List.filter_reverse] at hglobals
    exact congrArg (fun scope => [scope]) hglobals
  exports_eq := rfl
  errors := .nil
  nextId_eq := rfl
  depth_eq := rfl

theorem Checking.Matches.move {s s' : Checking} (h : s.Matches K E s') {c c' : Context}
    (hc : c.Matches K E c') (event event' : Event) :
    (s.move event c).Matches K E (s'.move event' c') :=
  ⟨hc, { h.workspace with }⟩

/-! ## Workspaces -/

namespace Workspace.Matches

variable {ws ws' : Workspace} (h : ws.Matches K ws')
include h

theorem record (r : Request) : (ws.record r).Matches K (ws'.record r) :=
  { h with journal_eq := congrArg (r :: ·) h.journal_eq }

theorem get?_reports (q : String) :
    Option.Rel (Report.Matches (K.errors q)) (ws.reports.get? q) (ws'.reports.get? q) := by
  have hreports := h.reports
  generalize ws.reports = es at hreports ⊢
  generalize ws'.reports = es' at hreports ⊢
  induction hreports with
  | nil => exact .none
  | @cons e e' _ _ he _ ih =>
    obtain ⟨hname, hreport⟩ := he
    unfold Entries.get?
    rw [← hname]
    by_cases hq : e.1 = q
    · rw [if_pos hq, if_pos hq, ← hq]
      exact .some hreport
    · rw [if_neg hq, if_neg hq]
      exact ih

theorem save {q : String} {r r' : Report} (hr : r.Matches (K.errors q) r') :
    (ws.save q r).Matches K (ws'.save q r') := by
  refine { h.record (.save q) with reports := ?_ }
  show List.Forall₂ _ (ws.reports.insert q r) (ws'.reports.insert q r')
  have hreports := h.reports
  generalize ws.reports = es at hreports ⊢
  generalize ws'.reports = es' at hreports ⊢
  induction hreports with
  | nil => exact .cons ⟨rfl, hr⟩ .nil
  | @cons e e' _ _ he hes ih =>
    unfold Entries.insert
    rw [← he.1]
    by_cases hlt : q < e.1
    · rw [if_pos hlt, if_pos hlt]
      exact .cons ⟨rfl, hr⟩ (.cons ⟨rfl, he.2⟩ hes)
    · rw [if_neg hlt, if_neg hlt]
      by_cases hq : q = e.1
      · rw [if_pos hq, if_pos hq]
        exact .cons ⟨rfl, hr⟩ hes
      · rw [if_neg hq, if_neg hq]
        exact .cons ⟨rfl, he.2⟩ ih

end Workspace.Matches

theorem Workspace.matches_self {K : Correspondence} {ws : Workspace} (hleft : ws.sources = K.left)
    (hright : ws.sources = K.right) (hreports : ∀ e ∈ ws.reports, e.2.Matches (K.errors e.1) e.2) :
    ws.Matches K ws :=
  ⟨hleft, hright, List.forall₂_same.mpr fun e he => ⟨rfl, hreports e he⟩, rfl⟩

theorem Workspace.ofSources_matches (K : Correspondence) :
    (Workspace.ofSources K.left).Matches K (.ofSources K.right) :=
  ⟨rfl, rfl, .nil, rfl⟩

def ReportedAlike (K : Correspondence) (q : String)
    (o o' : Option Report × Workspace) : Prop :=
  Option.Rel (Report.Matches (K.errors q)) o.1 o'.1 ∧ o.2.Matches K o'.2

theorem Workspace.report?_matches {q : String} (hq : K.paths q) {ws ws' : Workspace}
    (h : ws.Matches K ws') {check check' : Stmt → Workspace → Option Report × Workspace}
    (hcheck : ∀ {tree tree' : Stmt}, tree.Matches (placesOf (K.errors q)) K.seen tree' →
      ReportedAlike K q (check tree (ws.opening q)) (check' tree' (ws'.opening q))) :
    ReportedAlike K q (ws.report? check q) (ws'.report? check' q) := by
  have hload : (ws.record (.lookup q)).load q = (K.left.parse? q, ws.opening q) := by
    rw [← h.left]
    rfl
  have hload' : (ws'.record (.lookup q)).load q = (K.right.parse? q, ws'.opening q) := by
    rw [← h.right]
    rfl
  have hopening : (ws.opening q).Matches K (ws'.opening q) := (h.record _).record _
  have hget := h.get?_reports q
  have hparse := K.parse hq
  unfold report? lookup
  generalize ws.reports.get? q = o at hget ⊢
  generalize ws'.reports.get? q = o' at hget ⊢
  cases hget with
  | some hreport => exact ⟨.some hreport, h.record _⟩
  | none =>
    dsimp only
    rw [hload, hload']
    generalize K.left.parse? q = parsed at hparse ⊢
    generalize K.right.parse? q = parsed' at hparse ⊢
    cases hparse with
    | missing => exact ⟨.none, hopening⟩
    | unparsable he =>
      have hreport := Report.ofSyntaxError_matches he
      exact ⟨.some hreport, hopening.save hreport⟩
    | parsed htree =>
      have hchecked := hcheck htree
      dsimp only
      generalize check _ (ws.opening q) = r at hchecked ⊢
      generalize check' _ (ws'.opening q) = r' at hchecked ⊢
      obtain ⟨o, v⟩ := r
      obtain ⟨o', v'⟩ := r'
      obtain ⟨hrel, hv⟩ := hchecked
      cases hrel with
      | none => exact ⟨.none, hv⟩
      | some hreport => exact ⟨.some hreport, hv.save hreport⟩

/-! ## Rules -/

namespace InStep

variable {α β : Type}

theorem pure (a : α) : InStep K E (pure a) (pure a) :=
  fun _ _ h => ⟨rfl, h⟩

/-- Of the value of the first check something may be known. -/
theorem bind_of {m m' : CheckM α} {f f' : α → CheckM β} {Q : α → Prop} (hm : InStep K E m m')
    (hQ : ∀ s, Q (m s).1) (hf : ∀ a, Q a → InStep K E (f a) (f' a)) :
    InStep K E (m >>= f) (m' >>= f') := by
  intro s s' h
  obtain ⟨hvalue, hstate⟩ := hm s s' h
  rw [CheckM.bind_run, CheckM.bind_run, ← hvalue]
  exact hf _ (hQ s) _ _ hstate

theorem bind {m m' : CheckM α} {f f' : α → CheckM β} (hm : InStep K E m m')
    (hf : ∀ a, InStep K E (f a) (f' a)) : InStep K E (m >>= f) (m' >>= f') :=
  hm.bind_of (Q := fun _ => True) (fun _ => trivial) fun a _ => hf a

theorem read {f : Context → α} (hf : ∀ {c c'}, Context.Matches K E c c' → f c = f c') :
    InStep K E (CheckM.read f) (CheckM.read f) :=
  fun _ _ h => ⟨hf h.context, h⟩

theorem onContext {event : α → Event} {f : Context → α × Context}
    (hf : ∀ {c c'}, Context.Matches K E c c' → (f c).1 = (f c').1 ∧ (f c).2.Matches K E (f c').2) :
    InStep K E (CheckM.onContext event f) (CheckM.onContext event f) := by
  intro s s' h
  obtain ⟨hvalue, hcontext⟩ := hf h.context
  exact ⟨hvalue, h.move hcontext _ _⟩

theorem modifyContext {f : Context → Context}
    (hf : ∀ {c c'}, Context.Matches K E c c' → (f c).Matches K E (f c')) :
    InStep K E (CheckM.modifyContext f) (CheckM.modifyContext f) :=
  fun _ _ h => ⟨rfl, h.move (hf h.context) _ _⟩

theorem note (event event' : Event) : InStep K E (CheckM.note event) (CheckM.note event') :=
  fun _ _ h => ⟨rfl, h.move h.context _ _⟩

theorem noteDeclared (declared : Option Ty) (type : Ty) :
    InStep K E (CheckM.noteDeclared declared type) (CheckM.noteDeclared declared type) := by
  unfold CheckM.noteDeclared
  split
  · exact note _ _
  · exact .pure _

section
variable {span span' : Span} (hs : placesOf E span.start span'.start)
include hs

theorem report (cause : Cause) :
    InStep K E (CheckM.report cause span) (CheckM.report cause span') :=
  fun _ _ h => ⟨rfl, h.move (h.context.report cause hs) _ _⟩

theorem fail (cause : Cause) : InStep K E (CheckM.fail cause span) (CheckM.fail cause span') :=
  (report hs cause).bind fun _ => .pure _

theorem nested {m m' : CheckM Ty} (hm : InStep K E m m') :
    InStep K E (CheckM.nested span m) (CheckM.nested span' m') := by
  intro s s' h
  have hconfig := h.context.environment.config_eq
  by_cases hdeep : s.context.environment.config.maxDepth ≤ s.context.depth
  · have hdeep' : s'.context.environment.config.maxDepth ≤ s'.context.depth := by
      rwa [← hconfig, ← h.context.depth_eq]
    rw [CheckM.nested_none (if_pos hdeep), CheckM.nested_none (if_pos hdeep'), ← hconfig]
    have hreport := h.context.report (.nestingTooDeep s.context.environment.config.maxDepth) hs
    exact ⟨rfl, (h.move hreport _ _).move hreport _ _⟩
  · have hdeep' : ¬ s'.context.environment.config.maxDepth ≤ s'.context.depth := by
      rwa [← hconfig, ← h.context.depth_eq]
    rw [CheckM.nested_some (if_neg hdeep), CheckM.nested_some (if_neg hdeep'),
      ← h.context.depth_eq]
    have hdeeper := h.context.deeper (s.context.depth + 1)
    obtain ⟨hvalue, hstate⟩ := hm _ _ (h.move hdeeper .changed .changed)
    have hleave : (m _).2.context.leave.Matches K E (m' _).2.context.leave :=
      { hstate.context with depth_eq := congrArg (· - 1) hstate.context.depth_eq }
    exact ⟨hvalue, (hstate.move hleave _ _).move hleave _ _⟩

/-! ## Steps -/

theorem checkName {x : String} (hx : K.seen x) :
    InStep K E (CheckM.checkName x span) (CheckM.checkName x span') := by
  refine (read fun h => h.resolve?_eq hx).bind fun v => ?_
  cases v with
  | none => exact fail hs _
  | some v => exact .pure _

theorem checkAccess (t : Ty) (entry : String) :
    InStep K E (CheckM.checkAccess t entry span) (CheckM.checkAccess t entry span') := by
  unfold CheckM.checkAccess
  split
  · exact .pure _
  · split
    · exact .pure _
    · exact fail hs _
  · exact fail hs _

theorem requireValue (t : Ty) :
    InStep K E (CheckM.requireValue t span) (CheckM.requireValue t span') := by
  unfold CheckM.requireValue
  split
  · exact report hs _
  · exact .pure _

theorem requireFit (x : String) (declared value : Option Ty) :
    InStep K E (CheckM.requireFit x declared value span)
      (CheckM.requireFit x declared value span') := by
  unfold CheckM.requireFit
  split
  · split
    · exact report hs _
    · exact .pure _
  · exact .pure _

theorem signature? (callee : Ty) :
    InStep K E (CheckM.signature? callee span) (CheckM.signature? callee span') := by
  unfold CheckM.signature?
  split
  · exact .pure _
  · exact .pure _
  · exact (report hs _).bind fun _ => .pure _

theorem checkRedeclared {x : String} (hx : K.seen x) :
    InStep K E (CheckM.checkRedeclared x span) (CheckM.checkRedeclared x span') := by
  refine (read fun h => h.isDeclared_eq hx).bind fun redeclared => ?_
  cases redeclared with
  | true => exact (report hs _).bind fun _ => .pure _
  | false => exact .pure _

theorem checkCall (parameters : List Ty) (result : Ty) (arguments : List Ty) :
    InStep K E (CheckM.checkCall parameters result arguments span)
      (CheckM.checkCall parameters result arguments span') := by
  unfold CheckM.checkCall
  split
  · exact .pure _
  · split
    · exact fail hs _
    · refine (onContext fun h => ?_).bind fun _ => .pure _
      exact ⟨rfl, Context.Matches.apply _ h⟩

theorem checkReport (path : String) {r r' : Option Report} {F : Error → Error → Prop}
    (hr : Option.Rel (Report.Matches F) r r') :
    InStep K E (ShapeCheck.checkReport path span r) (ShapeCheck.checkReport path span' r') := by
  cases hr with
  | none => exact fail hs _
  | some hreport =>
    unfold ShapeCheck.checkReport
    dsimp only
    rw [← hreport.unparsable_eq, ← hreport.exports_eq]
    split
    · exact fail hs _
    · exact (onContext fun h => h.instantiate _).bind fun _ => .pure _

end

theorem declare (x : String) (redeclared : Bool) (type : Ty) :
    InStep K E (CheckM.declare x redeclared type) (CheckM.declare x redeclared type) :=
  (modifyContext fun h => h.declare _).bind fun _ => .pure _

end InStep

/-! ## Type expressions and parameters -/

mutual
theorem TypeExpr.check_inStep : ∀ {t t' : TypeExpr}, t.Matches (placesOf E) K.seen t' →
    InStep K E t.check t'.check
  | .name x s, _, h => by
    obtain ⟨s', rfl, hx, hs⟩ := h
    exact .nested hs (.checkName hs hx)
  | .number s, _, h => by
    obtain ⟨s', rfl, hs⟩ := h
    exact .nested hs (.pure _)
  | .string s, _, h => by
    obtain ⟨s', rfl, hs⟩ := h
    exact .nested hs (.pure _)
  | .tuple items s, _, h => by
    obtain ⟨items', s', rfl, hitems, hs⟩ := h
    apply InStep.nested hs
    exact (TypeExpr.checkEach_inStep hitems).bind fun _ => .pure _
  | .record entries s, _, h => by
    obtain ⟨entries', s', rfl, hentries, hs⟩ := h
    apply InStep.nested hs
    exact (TypeExpr.checkEntries_inStep hentries).bind fun _ => .pure _
  | .access t entry s, _, h => by
    obtain ⟨t', s', rfl, ht, hs⟩ := h
    apply InStep.nested hs
    exact (TypeExpr.check_inStep ht).bind fun accessed => .checkAccess hs accessed entry
  | .function parameters result s, _, h => by
    obtain ⟨parameters', result', s', rfl, hparameters, hresult, hs⟩ := h
    apply InStep.nested hs
    refine (TypeExpr.checkEach_inStep hparameters).bind fun _ => ?_
    exact (TypeExpr.check_inStep hresult).bind fun _ => .pure _
  | .atom a, _, h => by
    obtain ⟨a', rfl, ha⟩ := h
    apply InStep.nested ha.start
    exact (TypeExpr.checkAtom_inStep ha).bind fun _ => .pure _
  | .union atoms s, _, h => by
    obtain ⟨atoms', s', rfl, hatoms, hs⟩ := h
    apply InStep.nested hs
    exact (TypeExpr.checkAtoms_inStep hatoms).bind fun _ => .pure _
termination_by structural t => t
theorem TypeExpr.checkEach_inStep : ∀ {ts ts' : List TypeExpr},
    TypeExpr.MatchesEach (placesOf E) K.seen ts ts' →
      InStep K E (TypeExpr.checkEach ts) (TypeExpr.checkEach ts')
  | [], _, h => by
    subst h
    exact .pure _
  | t :: ts, _, h => by
    obtain ⟨t', ts', rfl, ht, hts⟩ := h
    refine (TypeExpr.check_inStep ht).bind fun _ => ?_
    exact (TypeExpr.checkEach_inStep hts).bind fun _ => .pure _
termination_by structural ts => ts
theorem TypeExpr.checkEntries_inStep : ∀ {es es' : List (String × TypeExpr)},
    TypeExpr.MatchesEntries (placesOf E) K.seen es es' →
      InStep K E (TypeExpr.checkEntries es) (TypeExpr.checkEntries es')
  | [], _, h => by
    subst h
    exact .pure _
  | (x, t) :: es, _, h => by
    obtain ⟨⟨_, t'⟩, es', rfl, ⟨rfl, ht⟩, hes⟩ := h
    refine (TypeExpr.check_inStep ht).bind fun _ => ?_
    exact (TypeExpr.checkEntries_inStep hes).bind fun _ => .pure _
termination_by structural es => es
theorem TypeExpr.checkAtom_inStep : ∀ {a a' : AtomNode TypeExpr},
    TypeExpr.MatchesAtom (placesOf E) K.seen a a' →
      InStep K E (TypeExpr.checkAtom a) (TypeExpr.checkAtom a')
  | ⟨x, arguments, s⟩, _, h => by
    obtain ⟨arguments', s', rfl, harguments, -⟩ := h
    exact (TypeExpr.checkEach_inStep harguments).bind fun _ => .pure _
termination_by structural a => a
theorem TypeExpr.checkAtoms_inStep : ∀ {as as' : List (AtomNode TypeExpr)},
    TypeExpr.MatchesAtoms (placesOf E) K.seen as as' →
      InStep K E (TypeExpr.checkAtoms as) (TypeExpr.checkAtoms as')
  | [], _, h => by
    subst h
    exact .pure _
  | a :: as, _, h => by
    obtain ⟨a', as', rfl, ha, has⟩ := h
    refine (TypeExpr.checkAtom_inStep ha).bind fun _ => ?_
    exact (TypeExpr.checkAtoms_inStep has).bind fun _ => .pure _
termination_by structural as => as
end

theorem TypeExpr.checkOptional_inStep {t t' : Option TypeExpr}
    (h : Option.Rel (TypeExpr.Matches (placesOf E) K.seen) t t') :
    InStep K E (TypeExpr.checkOptional t) (TypeExpr.checkOptional t') := by
  cases h with
  | none => exact .pure _
  | some h => exact (TypeExpr.check_inStep h).bind fun _ => .pure _

theorem Parameter.checkType_inStep {p p' : Parameter} (h : p.Matches (placesOf E) K.seen p') :
    InStep K E p.checkType p'.checkType := by
  have hdeclared := h.declared
  unfold Parameter.checkType
  generalize p.declared = t at hdeclared ⊢
  generalize p'.declared = t' at hdeclared ⊢
  cases hdeclared with
  | none => exact .onContext fun h => h.allocate
  | some h => exact (TypeExpr.check_inStep h).bind fun _ => (InStep.note _ _).bind fun _ => .pure _

theorem Parameter.check_inStep {p p' : Parameter} (h : p.Matches (placesOf E) K.seen p') :
    InStep K E p.check p'.check := by
  unfold Parameter.check
  rw [← h.name_eq]
  refine (Parameter.checkType_inStep h).bind fun type => ?_
  refine (InStep.checkRedeclared h.start h.seen_name).bind fun redeclared => ?_
  exact .declare p.name redeclared type

theorem Parameter.checkEach_inStep {ps ps' : List Parameter}
    (h : List.Forall₂ (Parameter.Matches (placesOf E) K.seen) ps ps') :
    InStep K E (Parameter.checkEach ps) (Parameter.checkEach ps') := by
  induction h with
  | nil => exact .pure _
  | cons hp _ ih => exact (Parameter.check_inStep hp).bind fun _ => ih.bind fun _ => .pure _

theorem Parameter.allSeen_of_matches {ρ : Position → Position → Prop} {seen : String → Bool}
    {ps ps' : List Parameter} (h : List.Forall₂ (Parameter.Matches ρ seen) ps ps') :
    AllSeen seen (ps.map Parameter.name) := by
  induction h with
  | nil => simp [AllSeen]
  | cons hp _ ih => exact List.forall_mem_cons.mpr ⟨hp.seen_name, ih⟩

/-! ## Expressions and statements -/

/-- The importers go in step in every file whose errors correspond by `E`. -/
def ImportInStep (K : Correspondence) (E : Error → Error → Prop) (imports imports' : Importer) :
    Prop :=
  ∀ (requested : String) {span span' : Span}, placesOf E span.start span'.start →
    InStep K E (imports requested span) (imports' requested span')

variable {imports imports' : Importer}

mutual
theorem Expr.check_inStep (himports : ImportInStep K E imports imports') :
    ∀ {e e' : Expr}, e.Matches (placesOf E) K.seen e' →
    InStep K E (e.check imports) (e'.check imports')
  | .name x s, _, h => by
    obtain ⟨s', rfl, hx, hs⟩ := h
    exact .nested hs (.checkName hs hx)
  | .number _ s, _, h => by
    obtain ⟨s', rfl, hs⟩ := h
    exact .nested hs (.pure _)
  | .string _ s, _, h => by
    obtain ⟨s', rfl, hs⟩ := h
    exact .nested hs (.pure _)
  | .tuple items s, _, h => by
    obtain ⟨items', s', rfl, hitems, hs⟩ := h
    apply InStep.nested hs
    exact (Expr.checkValues_inStep himports hitems).bind fun _ => .pure _
  | .record entries s, _, h => by
    obtain ⟨entries', s', rfl, hentries, hs⟩ := h
    apply InStep.nested hs
    exact (Expr.checkEntries_inStep himports hentries).bind fun _ => .pure _
  | .access e entry s, _, h => by
    obtain ⟨e', s', rfl, he, hs⟩ := h
    apply InStep.nested hs
    refine (Expr.check_inStep himports he).bind fun accessed => ?_
    refine (InStep.checkAccess hs accessed entry).bind fun type => ?_
    exact (InStep.note _ _).bind fun _ => .pure _
  | .function parameters body s, _, h => by
    obtain ⟨parameters', body', s', rfl, hparameters, hbody, hs⟩ := h
    let Seen (bound : List Variable) : Prop := AllSeen K.seen (bound.map Variable.name)
    have hseen : ∀ s, Seen (Parameter.checkEach parameters s).1 := by
      intro s
      show AllSeen K.seen _
      rw [Parameter.names_checkEach]
      exact Parameter.allSeen_of_matches hparameters
    apply InStep.nested hs
    refine (InStep.modifyContext fun h => h.push).bind fun _ => ?_
    refine (Parameter.checkEach_inStep hparameters).bind_of hseen fun bound hbound => ?_
    refine (Stmt.check_inStep himports hbody).bind fun result => ?_
    -- The innermost scopes may differ in what is not seen, but not in what becomes of them.
    intro s s' hstate
    have hrefresh := refreshParameters_eq_of_seenBy hstate.context.innermost_eq result hbound
    rw [CheckM.bind_run, CheckM.bind_run, CheckM.read_run, CheckM.read_run]
    dsimp only
    rw [hrefresh]
    exact ((InStep.modifyContext fun h => h.pop).bind fun _ => .pure _) s s' hstate
  | .call callee arguments s, _, h => by
    obtain ⟨callee', arguments', s', rfl, hcallee, harguments, hs⟩ := h
    apply InStep.nested hs
    refine (Expr.check_inStep himports hcallee).bind fun type => ?_
    refine (InStep.signature? hcallee.start type).bind fun signature => ?_
    refine (Expr.checkValues_inStep himports harguments).bind fun types => ?_
    cases signature with
    | none => exact .pure _
    | some signature => exact .checkCall hs signature.1 signature.2 types
  | .importFile path s, _, h => by
    obtain ⟨s', rfl, hs⟩ := h
    exact .nested hs (himports path hs)
  | .atom x arguments s, _, h => by
    obtain ⟨arguments', s', rfl, harguments, hs⟩ := h
    apply InStep.nested hs
    exact (Expr.checkValues_inStep himports harguments).bind fun _ => .pure _
termination_by structural e => e
theorem Expr.checkValues_inStep (himports : ImportInStep K E imports imports') :
    ∀ {es es' : List Expr},
    Expr.MatchesEach (placesOf E) K.seen es es' →
      InStep K E (Expr.checkValues imports es) (Expr.checkValues imports' es')
  | [], _, h => by
    subst h
    exact .pure _
  | e :: es, _, h => by
    obtain ⟨e', es', rfl, he, hes⟩ := h
    refine (Expr.check_inStep himports he).bind fun type => ?_
    refine (InStep.requireValue he.start type).bind fun _ => ?_
    exact (Expr.checkValues_inStep himports hes).bind fun _ => .pure _
termination_by structural es => es
theorem Expr.checkEntries_inStep (himports : ImportInStep K E imports imports') :
    ∀ {es es' : List (String × Expr)},
    Expr.MatchesEntries (placesOf E) K.seen es es' →
      InStep K E (Expr.checkEntries imports es) (Expr.checkEntries imports' es')
  | [], _, h => by
    subst h
    exact .pure _
  | (x, e) :: es, _, h => by
    obtain ⟨⟨_, e'⟩, es', rfl, ⟨rfl, he⟩, hes⟩ := h
    refine (Expr.check_inStep himports he).bind fun type => ?_
    refine (InStep.requireValue he.start type).bind fun _ => (InStep.note _ _).bind fun _ => ?_
    exact (Expr.checkEntries_inStep himports hes).bind fun _ => .pure _
termination_by structural es => es
theorem Expr.checkOptional_inStep (himports : ImportInStep K E imports imports') :
    ∀ {e e' : Option Expr},
    Expr.MatchesOptional (placesOf E) K.seen e e' →
      InStep K E (Expr.checkOptional imports e) (Expr.checkOptional imports' e')
  | none, _, h => by
    subst h
    exact .pure _
  | some e, _, h => by
    obtain ⟨e', rfl, he⟩ := h
    refine (Expr.check_inStep himports he).bind fun type => ?_
    exact (InStep.requireValue he.start type).bind fun _ => .pure _
termination_by structural e => e
theorem Stmt.checkAssignment_inStep (himports : ImportInStep K E imports imports') :
    ∀ {a a' : Assignment Expr},
    Stmt.MatchesAssignment (placesOf E) K.seen a a' →
      InStep K E (Stmt.checkAssignment imports a) (Stmt.checkAssignment imports' a')
  | ⟨x, declared, value, s⟩, _, h => by
    obtain ⟨declared', value', s', rfl, hx, hdeclared, hvalue, hs⟩ := h
    refine (InStep.checkRedeclared hs hx).bind fun redeclared => ?_
    refine (TypeExpr.checkOptional_inStep hdeclared).bind fun expected => ?_
    refine (Expr.checkOptional_inStep himports hvalue).bind fun received => ?_
    refine (InStep.requireFit hs x expected received).bind fun _ => ?_
    exact (InStep.noteDeclared expected _).bind fun _ => .declare x redeclared _
termination_by structural a => a
theorem Stmt.check_inStep (himports : ImportInStep K E imports imports') :
    ∀ {t t' : Stmt}, t.Matches (placesOf E) K.seen t' →
    InStep K E (t.check imports) (t'.check imports')
  | .block [] s, _, h => by
    obtain ⟨_, s', rfl, rfl, hs⟩ := h
    apply InStep.nested hs
    exact (InStep.report hs _).bind fun _ => .pure _
  | .block (first :: rest) s, _, h => by
    obtain ⟨_, s', rfl, ⟨first', rest', rfl, hfirst, hrest⟩, hs⟩ := h
    apply InStep.nested hs
    refine (InStep.modifyContext fun h => h.push).bind fun _ => ?_
    refine (Stmt.check_inStep himports hfirst).bind fun type => ?_
    refine (Stmt.checkRest_inStep himports hrest type).bind fun type => ?_
    exact (InStep.modifyContext fun h => h.pop).bind fun _ => .pure _
  | .assign a, _, h => by
    obtain ⟨a', rfl, ha⟩ := h
    apply InStep.nested ha.start
    exact (Stmt.checkAssignment_inStep himports ha).bind fun _ => .pure _
  | .exported a s, _, h => by
    obtain ⟨a', s', rfl, ha, hs⟩ := h
    apply InStep.nested hs
    refine (InStep.read fun h => h.atFileRoot_eq).bind fun atFileRoot => ?_
    rw [← ha.name_eq]
    refine (InStep.read fun h => h.isDeclared_eq ha.seen_name).bind fun redeclared => ?_
    refine (Stmt.checkAssignment_inStep himports ha).bind fun v => ?_
    split
    · exact (InStep.report hs _).bind fun _ => .pure _
    · split
      · exact (InStep.modifyContext fun h => h.exportVariable v).bind fun _ => .pure _
      · exact .pure _
  | .expr e, _, h => by
    obtain ⟨e', rfl, he⟩ := h
    exact Expr.check_inStep himports he
  | .type t, _, h => by
    obtain ⟨t', rfl, ht⟩ := h
    exact TypeExpr.check_inStep ht
termination_by structural t => t
theorem Stmt.checkRest_inStep (himports : ImportInStep K E imports imports') :
    ∀ {ss ss' : List Stmt},
    Stmt.MatchesEach (placesOf E) K.seen ss ss' → ∀ type : Ty,
      InStep K E (Stmt.checkRest imports type ss) (Stmt.checkRest imports' type ss')
  | [], _, h, _ => by
    subst h
    exact .pure _
  | t :: ss, _, h, _ => by
    obtain ⟨t', ss', rfl, ht, hss⟩ := h
    exact (Stmt.check_inStep himports ht).bind fun type => Stmt.checkRest_inStep himports hss type
termination_by structural ss => ss
end

/-! ## Files -/

theorem checkFile_matches (himports : ImportInStep K E imports imports') {tree tree' : Stmt}
    (htree : tree.Matches (placesOf E) K.seen tree') {path : String} (hpath : K.paths path)
    {env env' : Environment} (henv : env.Matches K.seen env') (stack : List String)
    {ws ws' : Workspace} (hws : ws.Matches K ws') :
    (checkFile imports env path stack tree ws).1.Matches E
        (checkFile imports' env' path stack tree' ws').1 ∧
      (checkFile imports env path stack tree ws).2.Matches K
        (checkFile imports' env' path stack tree' ws').2 := by
  have hstart : (Checking.start env path stack ws).Matches K E (.start env' path stack ws') :=
    ⟨Context.start_matches henv hpath _, { hws with }⟩
  obtain ⟨-, hend⟩ := Stmt.check_inStep himports htree _ _ hstart
  rw [checkFile_run, checkFile_run]
  exact ⟨⟨hend.context.errors, hend.context.exports_eq, rfl⟩, hend.workspace⟩

/-- Files that are opened with matching trees are reported on alike, if their own imports are. -/
theorem opener_matches {n : Nat}
    (ih : ∀ m < n, ∀ E : Error → Error → Prop, ImportInStep K E (importer m) (importer m))
    {c c' : Context} (hc : c.Matches K E c') {q : String} (hq : K.paths q) {tree tree' : Stmt}
    (htree : tree.Matches (placesOf (K.errors q)) K.seen tree') {ws ws' : Workspace}
    (hws : ws.Matches K ws') :
    ReportedAlike K q (opener n c q tree ws) (opener n c' q tree' ws') := by
  cases n with
  | zero => exact ⟨.none, hws⟩
  | succ m =>
    rw [opener_succ, opener_succ, ← hc.importStack_eq]
    have hfile := checkFile_matches (ih m (Nat.lt_succ_self m) _) htree hq hc.environment
      c.importStack hws
    exact ⟨.some hfile.1, hfile.2⟩

theorem importer_inStep (n : Nat) : ∀ E : Error → Error → Prop,
    ImportInStep K E (importer n) (importer n) := by
  induction n using Nat.strongRecOn with
  | ind n ih =>
    intro E requested span span' hs s s' h
    have hpath := h.context.path_eq
    rw [importer_eq]
    cases ht : Path.target? s.context.path requested with
    | none =>
      rw [importWith_invalid _ span ht, importWith_invalid _ span' (hpath ▸ ht)]
      exact InStep.fail hs _ s s' h
    | some b =>
      by_cases hb : b ∈ s.context.importStack
      · have hb' : b ∈ s'.context.importStack := h.context.importStack_eq ▸ hb
        rw [importWith_cyclic _ span ht hb, importWith_cyclic _ span' (hpath ▸ ht) hb']
        exact InStep.fail hs _ s s' h
      · have hb' : b ∉ s'.context.importStack := h.context.importStack_eq ▸ hb
        have hq := K.target h.context.path ht
        have hopening : (s.workspace.opening b).Matches K (s'.workspace.opening b) :=
          (h.workspace.record _).record _
        have hreport := Workspace.report?_matches hq h.workspace
          fun htree => opener_matches ih h.context hq htree hopening
        rw [importWith_report _ span ht hb, importWith_report _ span' (hpath ▸ ht) hb']
        exact InStep.checkReport hs b hreport.1 _ _ ⟨h.context, hreport.2⟩

end

end ShapeCheck
