import Mathlib.Order.Basic
import ShapeCheck.Proofs.Congruence
import ShapeCheck.Proofs.Matching
import ShapeCheck.Proofs.Parsed

/-!
# Contracts of checks

A contract says what holds in the states of a check and which types the phrases, variables and
entries of a tree may have. What is allowed may grow with the state, so that a type which is held
while other phrases are checked stays allowed. It is shown once for all contracts that the check of
a tree keeps to it, if every single step does and its importer does.
-/

namespace ShapeCheck

open CheckM

/-! ## Bodies of functions

An expression can export only through a function whose body is an export. The body of a function is
a block or an expression, so there is none in a tree that was read from a text. -/

mutual
/-- No outermost function of the expression has an export as its body. -/
def Expr.Bodied : Expr → Prop
  | .name _ _ | .number _ _ | .string _ _ | .importFile _ _ => True
  | .tuple items _ => Expr.BodiedEach items
  | .record entries _ => Expr.BodiedEntries entries
  | .access e _ _ => e.Bodied
  | .function _ body _ => ∀ a span, body ≠ .exported a span
  | .call callee arguments _ => callee.Bodied ∧ Expr.BodiedEach arguments
  | .atom _ arguments _ => Expr.BodiedEach arguments
termination_by structural e => e
def Expr.BodiedEach : List Expr → Prop
  | [] => True
  | e :: es => e.Bodied ∧ Expr.BodiedEach es
termination_by structural es => es
def Expr.BodiedEntries : List (String × Expr) → Prop
  | [] => True
  | (_, e) :: es => e.Bodied ∧ Expr.BodiedEntries es
termination_by structural es => es
end

/-! ## Parts of a check -/

def Ty.Reads (accessed : Ty) (entry : String) (type : Ty) : Prop :=
  type = .ignore ∨ ∃ v es, accessed = .record v es ∧ Entries.get? entry es = some type

namespace CheckM

def inScope {α β : Type} (m : CheckM α) (f : α → β) : CheckM β := do
  modifyContext Context.push
  let a ← m
  modifyContext Context.pop
  return f a

/-- The parameters and the result of a function, inside its scope. -/
def checkBody (parameters : List Parameter) (body : CheckM Ty) : CheckM (List Ty × Ty) := do
  let bound ← Parameter.checkEach parameters
  let result ← body
  return refreshParameters (← read Context.innermost) bound result

/-- An assignment up to its declaration: whether the name is taken already, and the type. -/
def assigning (imports : Importer) (a : Assignment Expr) : CheckM (Bool × Ty) := do
  let redeclared ← checkRedeclared a.name a.span
  let declared ← TypeExpr.checkOptional a.declared
  let value ← Expr.checkOptional imports a.value
  requireFit a.name declared value a.span
  let type := assignedType declared value
  noteDeclared declared type
  return (redeclared, type)

def exporting (name : String) (span : Span) (assignment : CheckM Variable) : CheckM Ty := do
  let atFileRoot ← read Context.atFileRoot
  let redeclared ← read (Context.isDeclared name)
  let v ← assignment
  if !atFileRoot then report .nestedExport span
  else if !redeclared then modifyContext (Context.exportVariable v)
  return .empty

end CheckM

theorem Expr.check_function (imports : Importer) (parameters : List Parameter) (body : Stmt)
    (span : Span) :
    (Expr.function parameters body span).check imports =
      nested span (inScope (checkBody parameters (body.check imports))
        fun r => .function r.2.hasValue r.1 r.2) := rfl

theorem Stmt.check_block (imports : Importer) (first : Stmt) (rest : List Stmt) (span : Span) :
    (Stmt.block (first :: rest) span).check imports =
      nested span (inScope (do
        let type ← first.check imports
        Stmt.checkRest imports type rest) id) := rfl

theorem Stmt.checkAssignment_eq (imports : Importer) : ∀ a : Assignment Expr,
    Stmt.checkAssignment imports a = do
      let r ← assigning imports a
      declare a.name r.1 r.2
  | ⟨_, _, _, _⟩ => rfl

theorem Stmt.checkAssignment_run (imports : Importer) (a : Assignment Expr) (s : Checking) :
    let r := assigning imports a s
    let v : Variable := ⟨a.name, if r.1.1 then .ignore else r.1.2⟩
    Stmt.checkAssignment imports a s = (v, r.2.move .changed (r.2.context.declare v)) := by
  rw [Stmt.checkAssignment_eq]
  rfl

theorem Stmt.check_exported (imports : Importer) (a : Assignment Expr) (span : Span) :
    (Stmt.exported a span).check imports =
      nested span (exporting a.name span (Stmt.checkAssignment imports a)) := rfl

/-- Only an export at the root of a file that declares a new name is one. -/
theorem exporting_cases {P : Checking → Prop} {name : String} {span : Span}
    {assignment : CheckM Variable} {s : Checking}
    (hnested : s.context.atFileRoot = false →
      P ((assignment s).2.move .changed ((assignment s).2.context.report .nestedExport span)))
    (hexported : s.context.atFileRoot = true → s.context.isDeclared name = false →
      P ((assignment s).2.move .changed ((assignment s).2.context.exportVariable (assignment s).1)))
    (hredeclared : P (assignment s).2) : P (exporting name span assignment s).2 := by
  unfold exporting
  rw [bind_run, read_run, bind_run, read_run, bind_run]
  dsimp only
  cases hroot : s.context.atFileRoot with
  | false => exact hnested hroot
  | true =>
    cases hnew : s.context.isDeclared name with
    | false => exact hexported hroot hnew
    | true => exact hredeclared

/-- How many variables the statement adds to the scope it stands in. -/
def Stmt.declarations : Stmt → Nat
  | .assign _ | .exported _ _ => 1
  | .block _ _ | .expr _ | .type _ => 0

/-! ## Contracts -/

structure Contract (W : Type) where
  /-- What decides which types are allowed. -/
  world : Checking → W
  /-- What holds while `level` scopes are open that the check has opened itself. -/
  Holds : (level : Nat) → Checking → Prop
  /-- What is the case once an error was reported. -/
  Reported : W → Prop
  /-- The types of variables and of the phrases whose values are used. -/
  Value : W → Ty → Prop
  /-- The types of expressions. -/
  Found : W → Ty → Prop
  /-- The types of type expressions. -/
  Described : W → Ty → Prop
  /-- The types of statements. -/
  Result : W → Ty → Prop
  /-- The types of the entries of record expressions, by their names. -/
  Filled : W → String → Ty → Prop
  /-- The names that may be referred to. -/
  Visible : String → Prop
  /-- The level from which on variables may be declared. -/
  least : Nat
  /-- The levels at which a statement may be an export. -/
  Exports : Nat → Prop

namespace Contract

section
variable {W : Type} (C : Contract W)

/-- From any state at or above `w`, the check keeps to the contract and yields what `Q` says. -/
def Ensures [LE W] {α : Type} (level : Nat) (w : W) (Q : W → α → Prop) (m : CheckM α) : Prop :=
  ∀ s, C.Holds level s → w ≤ C.world s →
    C.Holds level (m s).2 ∧ C.world s ≤ C.world (m s).2 ∧ Q (C.world (m s).2) (m s).1

def Moves [LE W] (level : Nat) (s : Checking) (event : Event) (c : Context) : Prop :=
  C.Holds level (s.move event c) ∧ C.world s ≤ C.world (s.move event c)

/-- What the tree of a phrase at `level` has to be like. An assignment without type and value fails,
which only matters if failure is not allowed. -/
structure Admits (level : Nat) (names : List String) (complete bodied : Prop) : Prop where
  names : ∀ x ∈ names, C.Visible x
  complete : complete ∨ ∀ w, C.Value w .ignore
  bodied : C.Exports (level + 1) ∨ bodied

/-- What is said of a type stays true of it. -/
structure Growing [LE W] : Prop where
  reported : ∀ {w w'}, w ≤ w' → C.Reported w → C.Reported w'
  value : ∀ {w w' t}, w ≤ w' → C.Value w t → C.Value w' t
  found : ∀ {w w' t}, w ≤ w' → C.Found w t → C.Found w' t
  described : ∀ {w w' t}, w ≤ w' → C.Described w t → C.Described w' t
  result : ∀ {w w' t}, w ≤ w' → C.Result w t → C.Result w' t
  filled : ∀ {w w' x t}, w ≤ w' → C.Filled w x t → C.Filled w' x t

structure Typing : Prop where
  found_of_value : ∀ {w t}, C.Value w t → C.Found w t
  described_of_value : ∀ {w t}, C.Value w t → C.Described w t
  result_of_found : ∀ {w t}, C.Found w t → C.Result w t
  result_of_described : ∀ {w t}, C.Described w t → C.Result w t
  value_of_found : ∀ {w t}, C.Found w t → t.hasValue = true ∨ C.Reported w → C.Value w t
  ignore : ∀ {w}, C.Reported w → C.Value w .ignore
  empty : ∀ {w}, C.Result w .empty
  number : ∀ {w}, C.Found w (.number true)
  string : ∀ {w}, C.Found w (.string true)
  tuple : ∀ {w ts}, (∀ t ∈ ts, C.Value w t) → C.Found w (.tuple true ts)
  atom : ∀ {w x ts}, (∀ t ∈ ts, C.Value w t) → C.Found w (.atom ⟨x, ts, true⟩)
  record : ∀ {w} {es : List (String × Ty)}, (∀ e ∈ es, C.Filled w e.1 e.2) →
    C.Found w (.record true (Entries.ofList es))
  entry : ∀ {w v es x t}, C.Found w (.record v es) → Entries.get? x es = some t → C.Value w t
  failing : ∀ {w ps r ts}, C.Found w (.function true ps r) → (∀ t ∈ ts, C.Value w t) →
    (Ty.anyContainsIgnore ts || Ty.anyContainsIgnore ps) = true → C.Value w .ignore
  numberType : ∀ {w}, C.Described w (.number false)
  stringType : ∀ {w}, C.Described w (.string false)
  tupleType : ∀ {w ts}, (∀ t ∈ ts, C.Described w t) → C.Described w (.tuple false ts)
  atomType : ∀ {w x ts}, (∀ t ∈ ts, C.Described w t) → C.Described w (.atom ⟨x, ts, false⟩)
  unionType : ∀ {w} {as : List (Atom Ty)}, (∀ a ∈ as, C.Described w (.atom a)) →
    C.Described w (.union false as)
  recordType : ∀ {w} {es : List (String × Ty)}, (∀ e ∈ es, C.Described w e.2) →
    C.Described w (.record false (Entries.ofList es))
  functionType : ∀ {w ps r}, (∀ t ∈ ps, C.Described w t) → C.Described w r →
    C.Described w (.function r.hasValue ps r)
  entryType : ∀ {w v es x t}, C.Described w (.record v es) → Entries.get? x es = some t →
    C.Described w t

/-- What the single steps do, and the parts of a check that close a scope, export or import. -/
structure Stepping [Preorder W] (imports : Importer) : Prop where
  resolve : ∀ {level s x v}, C.Holds level s → C.Visible x → s.context.resolve? x = some v →
    C.Value (C.world s) v.type
  report : ∀ {level w cause span},
    C.Ensures level w (fun w' _ => C.Reported w') (CheckM.report cause span)
  depth : ∀ {level s}, C.Holds level s → ∀ depth,
    C.Moves level s .changed { s.context with depth }
  typed : ∀ {level s t}, C.Holds level s → C.Result (C.world s) t →
    C.Moves level s (.typed t) s.context
  readEntry : ∀ {level s accessed entry t}, C.Holds level s → C.Found (C.world s) accessed →
    accessed.Reads entry t → C.Moves level s (.read accessed entry t) s.context
  fill : ∀ {level w x t}, C.Value w t →
    C.Ensures level w (fun w' _ => C.Filled w' x t) (note (.filled x t))
  annotate : ∀ {level w t v}, C.Described w t →
    C.Ensures level w (fun w' _ => C.Value w' (t.withValue v)) (note (.annotated (t.withValue v)))
  allocate : ∀ {level w}, C.Ensures level w C.Value (onContext .allocated Context.allocate)
  declare : ∀ {level s v}, C.Holds level s → C.least ≤ level → C.Value (C.world s) v.type →
    C.Moves level s .changed (s.context.declare v)
  settle : ∀ {level w ps ts r}, C.Found w (.function true ps r) → (∀ t ∈ ts, C.Value w t) →
    C.Ensures level w (fun w' t => C.Value w' (t.withValue true))
      (onContext (fun _ => .settled (callSubstitution ps ts)) (Context.resolveCall ps ts r))
  push : ∀ {level s}, C.Holds level s → C.Moves (level + 1) s .changed s.context.push
  pop : ∀ {level s}, C.Holds (level + 1) s → C.Moves level s .changed s.context.pop
  function : ∀ {level w ps} {body : Stmt}, (∀ x ∈ ps.flatMap Parameter.names, C.Visible x) →
    (∀ w, C.Ensures (level + 1) w (fun w' vs => ∀ v ∈ vs, C.Value w' v.type)
      (Parameter.checkEach ps)) →
    (∀ w, C.Ensures (level + 1) w C.Result (body.check imports)) →
    C.Ensures (level + 1) w (fun w' r => C.Found w' (.function r.2.hasValue r.1 r.2))
      (checkBody ps (body.check imports))
  exportVariable : ∀ {level w a span}, C.least ≤ level → C.Exports level →
    (∀ w, C.Ensures level w (fun w' v => C.Value w' v.type) (Stmt.checkAssignment imports a)) →
    C.Ensures level w C.Result (exporting a.name span (Stmt.checkAssignment imports a))
  importFile : ∀ {level w requested span}, C.Ensures level w C.Found (imports requested span)
  least_le : C.least ≤ 1
  exports_two : C.Exports 2
  exports_succ : ∀ {level}, C.Exports level → C.Exports (level + 1)

structure Lawful [Preorder W] (imports : Importer) : Prop where
  growing : C.Growing
  typing : C.Typing
  stepping : C.Stepping imports

end

namespace Admits

variable {W : Type} {C : Contract W} {level : Nat} {names more : List String} {p q b b' : Prop}

theorem left (h : C.Admits level (names ++ more) (p ∧ q) (b ∧ b')) : C.Admits level names p b :=
  ⟨fun x hx => h.names x (List.mem_append_left _ hx), h.complete.imp_left And.left,
    h.bodied.imp_right And.left⟩

theorem right (h : C.Admits level (names ++ more) (p ∧ q) (b ∧ b')) : C.Admits level more q b' :=
  ⟨fun x hx => h.names x (List.mem_append_right _ hx), h.complete.imp_left And.right,
    h.bodied.imp_right And.right⟩

/-- A statement may hold any expression. -/
theorem weaken (h : C.Admits level names p False) : C.Admits level names p b :=
  ⟨h.names, h.complete, h.bodied.imp_right False.elim⟩

/-- The parts of a block stand one level deeper. -/
theorem deeper (h : C.Admits level names p b) {level' : Nat} (hexports : C.Exports (level' + 1)) :
    C.Admits level' names p b' :=
  ⟨h.names, h.complete, Or.inl hexports⟩

end Admits

/-! ## Sequences of steps -/

section
variable {W : Type} [Preorder W] {C : Contract W} {α β : Type} {level : Nat} {w : W}

namespace Ensures

variable {P Q : W → α → Prop} {R : W → β → Prop}

theorem pure {a : α} (h : ∀ w', w ≤ w' → Q w' a) : C.Ensures level w Q (Pure.pure a : CheckM α) :=
  fun _ hs hw => ⟨hs, le_refl _, h _ hw⟩

theorem bind {m : CheckM α} {f : α → CheckM β} (hm : C.Ensures level w P m)
    (hf : ∀ a w', w ≤ w' → P w' a → C.Ensures level w' R (f a)) :
    C.Ensures level w R (m >>= f) := by
  intro s hs hw
  obtain ⟨hs₁, hle₁, hp⟩ := hm s hs hw
  obtain ⟨hs₂, hle₂, hr⟩ := hf (m s).1 _ (hw.trans hle₁) hp (m s).2 hs₁ (le_refl _)
  rw [bind_run]
  exact ⟨hs₂, hle₁.trans hle₂, hr⟩

theorem weaken {m : CheckM α} (hm : C.Ensures level w P m) (h : ∀ w' a, P w' a → Q w' a) :
    C.Ensures level w Q m := by
  intro s hs hw
  obtain ⟨hs', hle, hp⟩ := hm s hs hw
  exact ⟨hs', hle, h _ _ hp⟩

theorem read {f : Context → α} (h : ∀ s, C.Holds level s → Q (C.world s) (f s.context)) :
    C.Ensures level w Q (CheckM.read f) := by
  intro s hs _
  rw [read_run]
  exact ⟨hs, le_refl _, h s hs⟩

end Ensures

theorem Moves.ensures {event : Event} {f : Context → Context}
    (h : ∀ s, C.Holds level s → w ≤ C.world s → C.Moves level s event (f s.context)) :
    C.Ensures level w (fun _ _ => True) (onContext (fun _ => event) fun c => ((), f c)) := by
  intro s hs hw
  obtain ⟨hs', hle⟩ := h s hs hw
  exact ⟨hs', hle, trivial⟩

/-- An export keeps to the contract wherever a variable may be added to the exports. -/
theorem exporting_ensures {name : String} {span : Span} {assignment : CheckM Variable}
    (hgrows : ∀ {w w' t}, w ≤ w' → C.Value w t → C.Value w' t) (hempty : ∀ {w}, C.Result w .empty)
    (hreport : ∀ w, C.Ensures level w (fun _ _ => True) (report .nestedExport span))
    (hexport : ∀ {s v}, C.Holds level s → C.Value (C.world s) (Variable.type v) →
      C.Moves level s .changed (s.context.exportVariable v))
    (h : ∀ w, C.Ensures level w (fun w' v => C.Value w' v.type) assignment) :
    C.Ensures level w C.Result (exporting name span assignment) := by
  have hroot : C.Ensures level w (fun _ _ => True) (CheckM.read Context.atFileRoot) :=
    .read fun _ _ => trivial
  refine hroot.bind fun atFileRoot w₁ _ _ => ?_
  have hdeclared : C.Ensures level w₁ (fun _ _ => True) (CheckM.read (Context.isDeclared name)) :=
    .read fun _ _ => trivial
  refine hdeclared.bind fun redeclared w₂ _ _ => ?_
  refine (h w₂).bind fun v w₃ _ hv => ?_
  split
  · exact (hreport w₃).bind fun _ _ _ _ => .pure fun _ _ => hempty
  · split
    · have hexported : C.Ensures level w₃ (fun _ _ => True)
          (modifyContext (Context.exportVariable v)) :=
        Moves.ensures fun s hs hw => hexport hs (hgrows hw hv)
      exact hexported.bind fun _ _ _ _ => .pure fun _ _ => hempty
    · exact .pure fun _ _ => hempty

/-- An importer keeps to the contract if the answers to its requests do, and what the reports
export may be used. -/
theorem importThrough_ensures {answer : Context → String → Workspace → Option Report × Workspace}
    (hfail : ∀ w cause span, C.Ensures level w C.Found (fail cause span))
    (hanswer : ∀ s b, C.Holds level s → b ∉ s.context.importStack →
      let r := answer s.context b s.workspace
      let s' : Checking := ⟨s.context, r.2⟩
      C.Holds level s' ∧ C.world s ≤ C.world s' ∧
        ∀ report, r.1 = some report → report.unparsable = false →
          let i := s.context.instantiate report.exports
          C.Moves level s' (.imported i.1) i.2 ∧
            C.Found (C.world (s'.move (.imported i.1) i.2)) (exportRecord i.1))
    (requested : String) (span : Span) :
    C.Ensures level w C.Found (importThrough answer requested span) := by
  intro s hs hw
  cases ht : Path.target? s.context.path requested with
  | none =>
    rw [importThrough_invalid answer span ht]
    exact hfail w _ span s hs hw
  | some b =>
    by_cases hb : b ∈ s.context.importStack
    · rw [importThrough_cyclic answer span ht hb]
      exact hfail w _ span s hs hw
    · rw [importThrough_answer answer span ht hb]
      have hanswered := hanswer s b hs hb
      generalize answer s.context b s.workspace = r at hanswered ⊢
      obtain ⟨report, ws⟩ := r
      obtain ⟨hs', hle, hreport⟩ := hanswered
      have hfailed : ∀ cause, C.Holds level (fail cause span ⟨s.context, ws⟩).2 ∧
          C.world s ≤ C.world (fail cause span ⟨s.context, ws⟩).2 ∧
          C.Found (C.world (fail cause span ⟨s.context, ws⟩).2)
            (fail cause span ⟨s.context, ws⟩).1 := by
        intro cause
        obtain ⟨hs₁, hle₁, htype⟩ := hfail _ cause span _ hs' (le_refl _)
        exact ⟨hs₁, hle.trans hle₁, htype⟩
      cases report with
      | none => exact hfailed _
      | some report =>
        unfold checkReport
        dsimp only
        split
        · exact hfailed _
        · rename_i hparsable
          obtain ⟨⟨hs₁, hle₁⟩, htype⟩ := hreport report rfl (by simpa using hparsable)
          exact ⟨hs₁, hle.trans hle₁, htype⟩

end

/-! ## Steps -/

section
variable {W : Type} [Preorder W] {C : Contract W} {imports : Importer} (hC : C.Lawful imports)
variable {α β : Type} {level : Nat} {w : W}
include hC

theorem fail_ensures (cause : Cause) (span : Span) :
    C.Ensures level w C.Value (fail cause span) := by
  refine hC.stepping.report.bind fun _ w₁ _ h => .pure fun w₂ hw => ?_
  exact hC.typing.ignore (hC.growing.reported hw h)

/-- `Q` may be what is said of the types of any kind of phrase. -/
theorem nested_ensures {Q : W → Ty → Prop} (hvalue : ∀ {w t}, C.Value w t → Q w t)
    (hresult : ∀ {w t}, Q w t → C.Result w t) (hgrows : ∀ {w w' t}, w ≤ w' → Q w t → Q w' t)
    {m : CheckM Ty} (hm : C.Ensures level w Q m) (span : Span) :
    C.Ensures level w Q (nested span m) := by
  have htyped : ∀ (s : Checking) (t : Ty), C.Holds level s → Q (C.world s) t →
      C.Moves level s (.typed t) s.context ∧ Q (C.world (s.move (.typed t) s.context)) t := by
    intro s t hs ht
    have hmoves := hC.stepping.typed hs (hresult ht)
    exact ⟨hmoves, hgrows hmoves.2 ht⟩
  intro s hs hw
  cases he : s.context.enter? with
  | none =>
    rw [nested_none he]
    obtain ⟨hs₁, hle₁, hr⟩ := fail_ensures hC
      (.nestingTooDeep s.context.environment.config.maxDepth) span s hs hw
    obtain ⟨⟨hs₂, hle₂⟩, hr₂⟩ := htyped _ _ hs₁ (hvalue hr)
    exact ⟨hs₂, hle₁.trans hle₂, hr₂⟩
  | some inner =>
    rw [nested_some he, enter?_eq_some he]
    obtain ⟨hs₁, hle₁⟩ := hC.stepping.depth hs (s.context.depth + 1)
    obtain ⟨hs₂, hle₂, ht⟩ := hm _ hs₁ (hw.trans hle₁)
    obtain ⟨hs₃, hle₃⟩ := hC.stepping.depth hs₂ _
    obtain ⟨⟨hs₄, hle₄⟩, ht₄⟩ := htyped _ _ hs₃ (hgrows hle₃ ht)
    exact ⟨hs₄, hle₁.trans (hle₂.trans (hle₃.trans hle₄)), ht₄⟩

theorem nested_found {m : CheckM Ty} (hm : C.Ensures level w C.Found m) (span : Span) :
    C.Ensures level w C.Found (nested span m) :=
  nested_ensures hC hC.typing.found_of_value hC.typing.result_of_found hC.growing.found hm span

theorem nested_described {m : CheckM Ty} (hm : C.Ensures level w C.Described m) (span : Span) :
    C.Ensures level w C.Described (nested span m) :=
  nested_ensures hC hC.typing.described_of_value hC.typing.result_of_described
    hC.growing.described hm span

theorem nested_result {m : CheckM Ty} (hm : C.Ensures level w C.Result m) (span : Span) :
    C.Ensures level w C.Result (nested span m) :=
  nested_ensures hC (fun h => hC.typing.result_of_found (hC.typing.found_of_value h)) id
    hC.growing.result hm span

theorem inScope_ensures {Q : W → β → Prop} (hgrows : ∀ {w w' b}, w ≤ w' → Q w b → Q w' b)
    {m : CheckM α} {f : α → β} (hm : C.Ensures (level + 1) w (fun w' a => Q w' (f a)) m) :
    C.Ensures level w Q (inScope m f) := by
  intro s hs hw
  obtain ⟨hs₁, hle₁⟩ := hC.stepping.push hs
  obtain ⟨hs₂, hle₂, hq⟩ := hm _ hs₁ (hw.trans hle₁)
  obtain ⟨hs₃, hle₃⟩ := hC.stepping.pop hs₂
  exact ⟨hs₃, hle₁.trans (hle₂.trans hle₃), hgrows hle₃ hq⟩

theorem checkName_ensures {x : String} (hx : C.Visible x) (span : Span) :
    C.Ensures level w C.Value (checkName x span) := by
  have hread : C.Ensures level w (fun w' o => ∀ v : Variable, o = some v → C.Value w' v.type)
      (CheckM.read (Context.resolve? x)) :=
    .read fun s hs v hv => hC.stepping.resolve hs hx hv
  refine hread.bind fun o w₁ _ ho => ?_
  cases o with
  | none => exact fail_ensures hC _ span
  | some v => exact .pure fun w₂ hw => hC.growing.value hw (ho v rfl)

theorem checkAccess_ensures {t : Ty} (ht : C.Found w t) (entry : String) (span : Span) :
    C.Ensures level w (fun w' u => C.Value w' u ∧ t.Reads entry u) (checkAccess t entry span) := by
  have hfail : ∀ cause, C.Ensures level w (fun w' u => C.Value w' u ∧ t.Reads entry u)
      (fail cause span) := by
    intro cause
    refine hC.stepping.report.bind fun _ w₁ _ h => .pure fun w₂ hw => ⟨?_, Or.inl rfl⟩
    exact hC.typing.ignore (hC.growing.reported hw h)
  unfold checkAccess
  split
  · refine .pure fun w₁ hw => ⟨?_, Or.inl rfl⟩
    exact hC.typing.value_of_found (hC.growing.found hw ht) (Or.inl rfl)
  · split
    · rename_i type he
      refine .pure fun w₁ hw => ⟨?_, Or.inr ⟨_, _, rfl, he⟩⟩
      exact hC.typing.entry (hC.growing.found hw ht) he
    · exact hfail _
  · exact hfail _

theorem checkAccess_described {t : Ty} (ht : C.Described w t) (entry : String) (span : Span) :
    C.Ensures level w C.Described (checkAccess t entry span) := by
  have hfail : ∀ cause, C.Ensures level w C.Described (fail cause span) :=
    fun cause => (fail_ensures hC cause span).weaken fun _ _ => hC.typing.described_of_value
  unfold checkAccess
  split
  · exact .pure fun w₁ hw => hC.growing.described hw ht
  · split
    · rename_i type he
      exact .pure fun w₁ hw => hC.typing.entryType (hC.growing.described hw ht) he
    · exact hfail _
  · exact hfail _

theorem requireValue_ensures {t : Ty} (ht : C.Found w t) (span : Span) :
    C.Ensures level w (fun w' _ => C.Value w' t) (requireValue t span) := by
  unfold requireValue
  cases hv : t.hasValue with
  | true =>
    exact .pure fun w₁ hw => hC.typing.value_of_found (hC.growing.found hw ht) (Or.inl hv)
  | false =>
    have hreport : C.Ensures level w (fun w' _ => C.Reported w')
        (CheckM.report (.valueExpected t) span) := hC.stepping.report
    intro s hs hw
    obtain ⟨hs₁, hle, hr⟩ := hreport s hs hw
    have hfound := hC.growing.found (hw.trans hle) ht
    exact ⟨hs₁, hle, hC.typing.value_of_found hfound (Or.inr hr)⟩

theorem requireFit_ensures (x : String) (declared value : Option Ty) (span : Span) :
    C.Ensures level w (fun _ _ => True) (requireFit x declared value span) := by
  unfold requireFit
  split
  · split
    · exact hC.stepping.report.weaken fun _ _ _ => trivial
    · exact .pure fun _ _ => trivial
  · exact .pure fun _ _ => trivial

/-- There is no signature only where something has failed. -/
theorem signature?_ensures {callee : Ty} (h : C.Found w callee) (span : Span) :
    C.Ensures level w (fun w' o => (o = none → C.Value w' .ignore) ∧
      ∀ ps r, o = some (ps, r) → callee = .function true ps r) (signature? callee span) := by
  unfold signature?
  split
  · have hignore := hC.typing.value_of_found h (Or.inl rfl)
    exact .pure fun w₁ hw => ⟨fun _ => hC.growing.value hw hignore, fun _ _ e => by cases e⟩
  · exact .pure fun w₁ hw => ⟨fun e => (by cases e), fun _ _ e => by cases e; rfl⟩
  · refine hC.stepping.report.bind fun _ w₁ _ h => .pure fun w₂ hw => ⟨fun _ => ?_, fun _ _ e => ?_⟩
    · exact hC.typing.ignore (hC.growing.reported hw h)
    · cases e

theorem checkCall_ensures {parameters arguments : List Ty} {result : Ty}
    (hcallee : C.Found w (.function true parameters result))
    (harguments : ∀ t ∈ arguments, C.Value w t) (span : Span) :
    C.Ensures level w C.Value (checkCall parameters result arguments span) := by
  unfold checkCall
  split
  · rename_i hignore
    have hfailed := hC.typing.failing hcallee harguments hignore
    exact .pure fun w₁ hw => hC.growing.value hw hfailed
  · split
    · exact fail_ensures hC _ span
    · refine (hC.stepping.settle hcallee harguments).bind fun t w₁ _ ht => .pure fun w₂ hw => ?_
      exact hC.growing.value hw ht

/-! ## Declarations -/

theorem checkRedeclared_ensures (x : String) (span : Span) :
    C.Ensures level w (fun w' redeclared => redeclared = true → C.Value w' .ignore)
      (checkRedeclared x span) := by
  have hread : C.Ensures level w (fun _ _ => True) (CheckM.read (Context.isDeclared x)) :=
    .read fun _ _ => trivial
  refine hread.bind fun redeclared w₁ _ _ => ?_
  cases redeclared with
  | true =>
    refine hC.stepping.report.bind fun _ w₂ _ h => .pure fun w₃ hw _ => ?_
    exact hC.typing.ignore (hC.growing.reported hw h)
  | false => exact .pure fun _ _ h => by cases h

theorem declare_ensures (hlevel : C.least ≤ level) {redeclared : Bool} {t : Ty} (ht : C.Value w t)
    (hredeclared : redeclared = true → C.Value w .ignore) (x : String) :
    C.Ensures level w (fun w' v => C.Value w' v.type) (declare x redeclared t) := by
  have hv : C.Value w (if redeclared then .ignore else t) := by
    split
    · rename_i h
      exact hredeclared h
    · exact ht
  let v : Variable := ⟨x, if redeclared then .ignore else t⟩
  have hdeclare : C.Ensures level w (fun _ _ => True) (modifyContext (Context.declare v)) :=
    Moves.ensures fun s hs hw => hC.stepping.declare hs hlevel (hC.growing.value hw hv)
  refine hdeclare.bind fun _ w₁ hw₁ _ => .pure fun w₂ hw₂ => ?_
  exact hC.growing.value (hw₁.trans hw₂) hv

/-- Without a declared type, a variable has the type of its value. -/
theorem noteDeclared_ensures {declared value : Option Ty}
    (hdeclared : ∀ t, declared = some t → C.Described w t)
    (hvalue : ∀ t, value = some t → C.Value w t)
    (h : (declared.isSome ∨ value.isSome) ∨ C.Value w .ignore) :
    C.Ensures level w (fun w' _ => C.Value w' (assignedType declared value))
      (noteDeclared declared (assignedType declared value)) := by
  cases declared with
  | some t => exact hC.stepping.annotate (hdeclared t rfl)
  | none =>
    have htype : C.Value w (assignedType none value) := by
      cases value with
      | some t =>
        have hself : assignedType none (some t) = t := t.withValue_hasValue
        rw [hself]
        exact hvalue t rfl
      | none => exact h.resolve_left (by simp)
    exact .pure fun w₁ hw => hC.growing.value hw htype

theorem assignment_ensures {a : Assignment Expr} (hlevel : C.least ≤ level)
    (h : C.Ensures level w
      (fun w' r => C.Value w' r.2 ∧ (r.1 = true → C.Value w' .ignore)) (assigning imports a)) :
    C.Ensures level w (fun w' v => C.Value w' v.type) (Stmt.checkAssignment imports a) := by
  rw [Stmt.checkAssignment_eq]
  exact h.bind fun r w₁ _ hr => declare_ensures hC hlevel hr.1 hr.2 a.name

/-! ## Type expressions and parameters -/

mutual
theorem typeExpr_ensures : ∀ t : TypeExpr, (∀ x ∈ t.names, C.Visible x) → ∀ w,
    C.Ensures level w C.Described t.check
  | .name x span, h, w => by
    apply nested_described hC
    have hx := h x (List.mem_singleton_self x)
    exact (checkName_ensures hC hx span).weaken fun _ _ => hC.typing.described_of_value
  | .number span, _, w => nested_described hC (.pure fun _ _ => hC.typing.numberType) span
  | .string span, _, w => nested_described hC (.pure fun _ _ => hC.typing.stringType) span
  | .tuple items span, h, w => by
    apply nested_described hC
    refine (typeExprs_ensures items h w).bind fun ts w₁ _ hts => .pure fun w₂ hw => ?_
    exact hC.typing.tupleType fun t ht => hC.growing.described hw (hts t ht)
  | .record entries span, h, w => by
    apply nested_described hC
    refine (typeEntries_ensures entries h w).bind fun es w₁ _ hes => .pure fun w₂ hw => ?_
    exact hC.typing.recordType fun e he => hC.growing.described hw (hes e he)
  | .access t entry span, h, w => by
    apply nested_described hC
    exact (typeExpr_ensures t h w).bind fun _ w₁ _ ht => checkAccess_described hC ht entry span
  | .function parameters result span, h, w => by
    apply nested_described hC
    have hps := fun x hx => h x (List.mem_append_left _ hx)
    have hr := fun x hx => h x (List.mem_append_right _ hx)
    refine (typeExprs_ensures parameters hps w).bind fun ps w₁ _ hps => ?_
    refine (typeExpr_ensures result hr w₁).bind fun r w₂ hw₂ hr => .pure fun w₃ hw₃ => ?_
    exact hC.typing.functionType (fun t ht => hC.growing.described (hw₂.trans hw₃) (hps t ht))
      (hC.growing.described hw₃ hr)
  | .atom a, h, w => by
    apply nested_described hC
    refine (typeAtom_ensures a h w).bind fun a w₁ _ ha => .pure fun w₂ hw => ?_
    exact hC.growing.described hw ha
  | .union atoms span, h, w => by
    apply nested_described hC
    refine (typeAtoms_ensures atoms h w).bind fun as w₁ _ has => .pure fun w₂ hw => ?_
    exact hC.typing.unionType fun a ha => hC.growing.described hw (has a ha)
termination_by structural t => t
theorem typeExprs_ensures : ∀ ts : List TypeExpr,
    (∀ x ∈ TypeExpr.namesEach ts, C.Visible x) → ∀ w,
    C.Ensures level w (fun w' ts => ∀ t ∈ ts, C.Described w' t) (TypeExpr.checkEach ts)
  | [], _, w => .pure fun _ _ => by simp
  | t :: ts, h, w => by
    have ht := fun x hx => h x (List.mem_append_left _ hx)
    have hts := fun x hx => h x (List.mem_append_right _ hx)
    refine (typeExpr_ensures t ht w).bind fun t w₁ _ ht => ?_
    refine (typeExprs_ensures ts hts w₁).bind fun ts w₂ hw₂ hts => .pure fun w₃ hw₃ => ?_
    exact List.forall_mem_cons.mpr
      ⟨hC.growing.described (hw₂.trans hw₃) ht, fun t ht => hC.growing.described hw₃ (hts t ht)⟩
termination_by structural ts => ts
theorem typeEntries_ensures : ∀ es : List (String × TypeExpr),
    (∀ x ∈ TypeExpr.namesEntries es, C.Visible x) → ∀ w,
    C.Ensures level w (fun w' es => ∀ e ∈ es, C.Described w' e.2) (TypeExpr.checkEntries es)
  | [], _, w => .pure fun _ _ => by simp
  | (_, t) :: es, h, w => by
    have ht := fun x hx => h x (List.mem_append_left _ hx)
    have hes := fun x hx => h x (List.mem_append_right _ hx)
    refine (typeExpr_ensures t ht w).bind fun t w₁ _ ht => ?_
    refine (typeEntries_ensures es hes w₁).bind fun es w₂ hw₂ hes => .pure fun w₃ hw₃ => ?_
    exact List.forall_mem_cons.mpr
      ⟨hC.growing.described (hw₂.trans hw₃) ht, fun e he => hC.growing.described hw₃ (hes e he)⟩
termination_by structural es => es
theorem typeAtom_ensures : ∀ a : AtomNode TypeExpr,
    (∀ x ∈ TypeExpr.namesAtom a, C.Visible x) → ∀ w,
    C.Ensures level w (fun w' a => C.Described w' (.atom a)) (TypeExpr.checkAtom a)
  | ⟨_, arguments, _⟩, h, w => by
    refine (typeExprs_ensures arguments h w).bind fun ts w₁ _ hts => .pure fun w₂ hw => ?_
    exact hC.typing.atomType fun t ht => hC.growing.described hw (hts t ht)
termination_by structural a => a
theorem typeAtoms_ensures : ∀ as : List (AtomNode TypeExpr),
    (∀ x ∈ TypeExpr.namesAtoms as, C.Visible x) → ∀ w,
    C.Ensures level w (fun w' as => ∀ a ∈ as, C.Described w' (.atom a)) (TypeExpr.checkAtoms as)
  | [], _, w => .pure fun _ _ => by simp
  | a :: as, h, w => by
    have ha := fun x hx => h x (List.mem_append_left _ hx)
    have has := fun x hx => h x (List.mem_append_right _ hx)
    refine (typeAtom_ensures a ha w).bind fun a w₁ _ ha => ?_
    refine (typeAtoms_ensures as has w₁).bind fun as w₂ hw₂ has => .pure fun w₃ hw₃ => ?_
    exact List.forall_mem_cons.mpr
      ⟨hC.growing.described (hw₂.trans hw₃) ha, fun a ha => hC.growing.described hw₃ (has a ha)⟩
termination_by structural as => as
end

theorem typeOptional_ensures (t : Option TypeExpr)
    (h : ∀ x ∈ TypeExpr.namesOptional t, C.Visible x) (w : W) :
    C.Ensures level w
      (fun w' o => (t.isSome → o.isSome) ∧ ∀ type, o = some type → C.Described w' type)
      (TypeExpr.checkOptional t) := by
  cases t with
  | none => exact .pure fun _ _ => by simp
  | some t =>
    refine (typeExpr_ensures hC t h w).bind fun type w₁ _ ht => .pure fun w₂ hw => ?_
    refine ⟨fun _ => rfl, fun type e => ?_⟩
    cases e
    exact hC.growing.described hw ht

theorem parameterType_ensures (p : Parameter) (h : ∀ x ∈ p.names, C.Visible x) (w : W) :
    C.Ensures level w C.Value p.checkType := by
  unfold Parameter.checkType
  unfold Parameter.names at h
  split
  · rename_i t hdeclared
    rw [hdeclared] at h
    have ht := fun x hx => h x (List.mem_cons_of_mem _ hx)
    refine (typeExpr_ensures hC t ht w).bind fun type w₁ _ ht => ?_
    refine (hC.stepping.annotate ht).bind fun _ w₂ _ hvalue => .pure fun w₃ hw => ?_
    exact hC.growing.value hw hvalue
  · exact hC.stepping.allocate

theorem parameter_ensures (hlevel : C.least ≤ level) (p : Parameter)
    (h : ∀ x ∈ p.names, C.Visible x) (w : W) :
    C.Ensures level w (fun w' v => C.Value w' v.type) p.check := by
  refine (parameterType_ensures hC p h w).bind fun type w₁ _ ht => ?_
  refine (checkRedeclared_ensures hC p.name p.span).bind fun redeclared w₂ hw₂ hredeclared => ?_
  exact declare_ensures hC hlevel (hC.growing.value hw₂ ht) hredeclared p.name

theorem parameters_ensures (hlevel : C.least ≤ level) : ∀ ps : List Parameter,
    (∀ x ∈ ps.flatMap Parameter.names, C.Visible x) → ∀ w,
    C.Ensures level w (fun w' vs => ∀ v ∈ vs, C.Value w' v.type) (Parameter.checkEach ps)
  | [], _, w => .pure fun _ _ => by simp
  | p :: ps, h, w => by
    rw [List.flatMap_cons] at h
    have hp := fun x hx => h x (List.mem_append_left _ hx)
    have hps := fun x hx => h x (List.mem_append_right _ hx)
    refine (parameter_ensures hC hlevel p hp w).bind fun v w₁ _ hv => ?_
    refine (parameters_ensures hlevel ps hps w₁).bind fun vs w₂ hw₂ hvs => .pure fun w₃ hw₃ => ?_
    exact List.forall_mem_cons.mpr
      ⟨hC.growing.value (hw₂.trans hw₃) hv, fun v hv => hC.growing.value hw₃ (hvs v hv)⟩

/-! ## Expressions and statements -/

theorem exports_add_two : ∀ level, C.Exports (level + 2)
  | 0 => hC.stepping.exports_two
  | level + 1 => hC.stepping.exports_succ (exports_add_two level)

mutual
theorem expr_ensures : ∀ (e : Expr) (level : Nat), C.Admits level e.names e.Complete e.Bodied →
    ∀ w, C.Ensures level w C.Found (e.check imports)
  | .name x span, _, h, w => by
    apply nested_found hC
    have hx := h.names x (List.mem_singleton_self x)
    exact (checkName_ensures hC hx span).weaken fun _ _ => hC.typing.found_of_value
  | .number _ span, _, _, w => nested_found hC (.pure fun _ _ => hC.typing.number) span
  | .string _ span, _, _, w => nested_found hC (.pure fun _ _ => hC.typing.string) span
  | .tuple items span, level, h, w => by
    apply nested_found hC
    refine (values_ensures items level h w).bind fun ts w₁ _ hts => .pure fun w₂ hw => ?_
    exact hC.typing.tuple fun t ht => hC.growing.value hw (hts t ht)
  | .record entries span, level, h, w => by
    apply nested_found hC
    refine (entries_ensures entries level h w).bind fun es w₁ _ hes => .pure fun w₂ hw => ?_
    exact hC.typing.record fun e he => hC.growing.filled hw (hes e he)
  | .access e entry span, level, h, w => by
    apply nested_found hC
    refine (expr_ensures e level h w).bind fun t w₁ _ ht => ?_
    refine (checkAccess_ensures hC ht entry span).bind fun u w₂ hw₂ hu => ?_
    have hnote : C.Ensures level w₂ (fun _ _ => True) (note (.read t entry u)) := by
      refine Moves.ensures (f := id) fun s hs hw => ?_
      exact hC.stepping.readEntry hs (hC.growing.found (hw₂.trans hw) ht) hu.2
    refine hnote.bind fun _ w₃ hw₃ _ => .pure fun w₄ hw₄ => ?_
    exact hC.typing.found_of_value (hC.growing.value (hw₃.trans hw₄) hu.1)
  | .function parameters body span, level, h, w => by
    rw [Expr.check_function]
    apply nested_found hC
    have hlevel : C.least ≤ level + 1 := Nat.le_trans hC.stepping.least_le (Nat.le_add_left 1 level)
    have hparameters := fun x hx => h.names x (List.mem_append_left _ hx)
    have hbody : C.Admits (level + 1) body.names body.Complete False :=
      ⟨fun x hx => h.names x (List.mem_append_right _ hx), h.complete,
        Or.inl (exports_add_two hC level)⟩
    have hexports : ∀ a span, body = .exported a span → C.Exports (level + 1) :=
      fun a span e => h.bodied.resolve_right fun hbodied => hbodied a span e
    refine inScope_ensures (Q := C.Found) hC hC.growing.found ?_
    refine hC.stepping.function hparameters ?_ ?_
    · exact parameters_ensures hC hlevel parameters hparameters
    · exact stmt_ensures body (level + 1) (Or.inr hlevel) hbody hexports
  | .call callee arguments span, level, h, w => by
    apply nested_found hC
    refine (expr_ensures callee level h.left w).bind fun type w₁ _ htype => ?_
    refine (signature?_ensures hC htype callee.span).bind fun signature w₂ hw₂ hsignature => ?_
    refine (values_ensures arguments level h.right w₂).bind fun types w₃ hw₃ htypes => ?_
    cases signature with
    | none =>
      refine .pure fun w₄ hw₄ => hC.typing.found_of_value ?_
      exact hC.growing.value (hw₃.trans hw₄) (hsignature.1 rfl)
    | some signature =>
      have hcallee : C.Found w₃ (.function true signature.1 signature.2) :=
        hsignature.2 signature.1 signature.2 rfl ▸ hC.growing.found (hw₂.trans hw₃) htype
      exact (checkCall_ensures hC hcallee htypes span).weaken fun _ _ => hC.typing.found_of_value
  | .importFile path span, _, _, w => nested_found hC hC.stepping.importFile span
  | .atom x arguments span, level, h, w => by
    apply nested_found hC
    refine (values_ensures arguments level h w).bind fun ts w₁ _ hts => .pure fun w₂ hw => ?_
    exact hC.typing.atom fun t ht => hC.growing.value hw (hts t ht)
termination_by structural e => e
theorem values_ensures : ∀ (es : List Expr) (level : Nat),
    C.Admits level (Expr.namesEach es) (Expr.CompleteEach es) (Expr.BodiedEach es) → ∀ w,
    C.Ensures level w (fun w' ts => ∀ t ∈ ts, C.Value w' t) (Expr.checkValues imports es)
  | [], _, _, w => .pure fun _ _ => by simp
  | e :: es, level, h, w => by
    refine (expr_ensures e level h.left w).bind fun t w₁ _ ht => ?_
    refine (requireValue_ensures hC ht e.span).bind fun _ w₂ _ ht => ?_
    refine (values_ensures es level h.right w₂).bind fun ts w₃ hw₃ hts => .pure fun w₄ hw₄ => ?_
    exact List.forall_mem_cons.mpr
      ⟨hC.growing.value (hw₃.trans hw₄) ht, fun t ht => hC.growing.value hw₄ (hts t ht)⟩
termination_by structural es => es
theorem entries_ensures : ∀ (es : List (String × Expr)) (level : Nat),
    C.Admits level (Expr.namesEntries es) (Expr.CompleteEntries es) (Expr.BodiedEntries es) → ∀ w,
    C.Ensures level w (fun w' (es : List (String × Ty)) => ∀ e ∈ es, C.Filled w' e.1 e.2)
      (Expr.checkEntries imports es)
  | [], _, _, w => .pure fun _ _ => by simp
  | (x, e) :: es, level, h, w => by
    refine (expr_ensures e level h.left w).bind fun t w₁ _ ht => ?_
    refine (requireValue_ensures hC ht e.span).bind fun _ w₂ _ ht => ?_
    refine (hC.stepping.fill (x := x) ht).bind fun _ w₃ _ hfilled => ?_
    refine (entries_ensures es level h.right w₃).bind fun es w₄ hw₄ hes => .pure fun w₅ hw₅ => ?_
    exact List.forall_mem_cons.mpr
      ⟨hC.growing.filled (hw₄.trans hw₅) hfilled, fun e he => hC.growing.filled hw₅ (hes e he)⟩
termination_by structural es => es
theorem exprOptional_ensures : ∀ (e : Option Expr) (level : Nat),
    C.Admits level (Expr.namesOptional e) (Expr.CompleteOptional e) False → ∀ w,
    C.Ensures level w
      (fun w' o => (e.isSome → o.isSome) ∧ ∀ type, o = some type → C.Value w' type)
      (Expr.checkOptional imports e)
  | none, _, _, w => .pure fun _ _ => by simp
  | some e, level, h, w => by
    refine (expr_ensures e level h.weaken w).bind fun t w₁ _ ht => ?_
    refine (requireValue_ensures hC ht e.span).bind fun _ w₂ _ ht => .pure fun w₃ hw₃ => ?_
    refine ⟨fun _ => rfl, fun type e => ?_⟩
    cases e
    exact hC.growing.value hw₃ ht
termination_by structural e => e
theorem assigning_ensures : ∀ (a : Assignment Expr) (level : Nat),
    C.Admits level (Stmt.namesAssignment a) (Stmt.CompleteAssignment a) False → ∀ w,
    C.Ensures level w (fun w' r => C.Value w' (Prod.snd r) ∧ (r.1 = true → C.Value w' .ignore))
      (assigning imports a)
  | ⟨name, declared, value, span⟩, level, h, w => by
    have hdeclared : ∀ x ∈ TypeExpr.namesOptional declared, C.Visible x :=
      fun x hx => h.names x (List.mem_cons_of_mem _ (List.mem_append_left _ hx))
    have hvalue : C.Admits level (Expr.namesOptional value) (Expr.CompleteOptional value) False :=
      ⟨fun x hx => h.names x (List.mem_cons_of_mem _ (List.mem_append_right _ hx)),
        h.complete.imp_left And.right, h.bodied⟩
    refine (checkRedeclared_ensures hC name span).bind fun redeclared w₁ _ hredeclared => ?_
    refine (typeOptional_ensures hC declared hdeclared w₁).bind fun expected w₂ hw₂ hexpected => ?_
    refine (exprOptional_ensures value level hvalue w₂).bind fun received w₃ hw₃ hreceived => ?_
    refine (requireFit_ensures hC name expected received span).bind fun _ w₄ hw₄ _ => ?_
    have hcomplete : (expected.isSome ∨ received.isSome) ∨ C.Value w₄ .ignore := by
      rcases h.complete with hc | hall
      · exact Or.inl (hc.1.imp hexpected.1 hreceived.1)
      · exact Or.inr (hall w₄)
    refine (noteDeclared_ensures hC
      (fun t e => hC.growing.described (hw₃.trans hw₄) (hexpected.2 t e))
      (fun t e => hC.growing.value hw₄ (hreceived.2 t e)) hcomplete).bind fun _ w₅ hw₅ htype => ?_
    refine .pure fun w₆ hw₆ => ⟨hC.growing.value hw₆ htype, fun e => ?_⟩
    exact hC.growing.value (hw₂.trans (hw₃.trans (hw₄.trans (hw₅.trans hw₆)))) (hredeclared e)
termination_by structural a => a
theorem stmt_ensures : ∀ (s : Stmt) (level : Nat), (s.declarations = 0 ∨ C.least ≤ level) →
    C.Admits level s.names s.Complete False →
    (∀ a span, s = .exported a span → C.Exports level) → ∀ w,
    C.Ensures level w C.Result (s.check imports)
  | .block [] span, _, _, _, _, w => by
    apply nested_result hC
    exact hC.stepping.report.bind fun _ _ _ _ => .pure fun _ _ => hC.typing.empty
  | .block (first :: rest) span, level, _, h, _, w => by
    rw [Stmt.check_block]
    apply nested_result hC
    have hlevel : C.least ≤ level + 1 := Nat.le_trans hC.stepping.least_le (Nat.le_add_left 1 level)
    have hexports : C.Exports (level + 1) := h.bodied.resolve_right id
    have hbody : C.Admits (level + 1) (first.names ++ Stmt.namesEach rest)
        (first.Complete ∧ Stmt.CompleteEach rest) (False ∧ False) :=
      h.deeper (exports_add_two hC level)
    refine inScope_ensures (Q := C.Result) hC hC.growing.result ?_
    refine (stmt_ensures first (level + 1) (Or.inr hlevel) hbody.left
      (fun _ _ _ => hexports) w).bind ?_
    exact fun type w₁ _ htype =>
      stmts_ensures rest (level + 1) hlevel hbody.right hexports type w₁ htype
  | .assign a, level, hlevel, h, _, w => by
    apply nested_result hC
    have hlevel := hlevel.resolve_left Nat.one_ne_zero
    refine (assignment_ensures hC hlevel (assigning_ensures a level h w)).bind ?_
    exact fun _ _ _ _ => .pure fun _ _ => hC.typing.empty
  | .exported a span, level, hlevel, h, hexports, w => by
    rw [Stmt.check_exported]
    apply nested_result hC
    have hlevel := hlevel.resolve_left Nat.one_ne_zero
    refine hC.stepping.exportVariable hlevel (hexports a span rfl) fun w => ?_
    exact assignment_ensures hC hlevel (assigning_ensures a level h w)
  | .expr e, level, _, h, _, w =>
    (expr_ensures e level h.weaken w).weaken fun _ _ => hC.typing.result_of_found
  | .type t, _, _, h, _, w =>
    (typeExpr_ensures hC t h.names w).weaken fun _ _ => hC.typing.result_of_described
termination_by structural s => s
theorem stmts_ensures : ∀ (ss : List Stmt) (level : Nat), C.least ≤ level →
    C.Admits level (Stmt.namesEach ss) (Stmt.CompleteEach ss) False → C.Exports level →
    ∀ (type : Ty) (w : W), C.Result w type →
    C.Ensures level w C.Result (Stmt.checkRest imports type ss)
  | [], _, _, _, _, type, w, htype => .pure fun w₁ hw => hC.growing.result hw htype
  | s :: ss, level, hlevel, h, hexports, type, w, _ => by
    have hbody : C.Admits level (s.names ++ Stmt.namesEach ss)
        (s.Complete ∧ Stmt.CompleteEach ss) (False ∧ False) := h.weaken
    refine (stmt_ensures s level (Or.inr hlevel) hbody.left (fun _ _ _ => hexports) w).bind ?_
    exact fun type w₁ _ htype => stmts_ensures ss level hlevel hbody.right hexports type w₁ htype
termination_by structural ss => ss
end

end

end Contract

end ShapeCheck
