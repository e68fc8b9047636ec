import ShapeCheck.Proofs.AddedErrors
import ShapeCheck.Proofs.Parsed

/-!
# One mistake, one error

A variable whose definition has failed has the type `ignore`, and nothing that is done with it is
reported. So a statement should have no more errors where a variable has failed than where it has
not. That holds as long as no call settles a placeholder, since one that a failed argument keeps from
being settled is missed later on, and as long as no function without a value is used and no function
has two parameters of one name.
-/

namespace ShapeCheck

open CheckM

/-! ## Type expressions -/

section
variable {P : Prop}

mutual
theorem TypeExpr.check_addsNoErrors : ∀ (t : TypeExpr) {P : Prop},
    AddsNoErrors P DeclaresNothing Ty.FailsTo t.check t.check
  | .name x span, _ => .nested span (checkName_addsNoErrors x span) rfl
  | .number span, _ => .nested span (.pure (fun _ => .refl _) rfl) rfl
  | .string span, _ => .nested span (.pure (fun _ => .refl _) rfl) rfl
  | .tuple items span, _ => by
    refine .nested span ?_ rfl
    refine (TypeExpr.checkEach_addsNoErrors items).after fun ts ts' => ?_
    exact .pure (fun h => Or.inr ⟨false, ts', rfl, id, h.2⟩) rfl
  | .record entries span, _ => by
    refine .nested span ?_ rfl
    refine (TypeExpr.checkEntries_addsNoErrors entries).after fun es es' => ?_
    exact .pure (fun h => Or.inr ⟨false, _, rfl, id, h.2.ofList⟩) rfl
  | .access t entry span, _ => by
    refine .nested span ?_ rfl
    refine (TypeExpr.check_addsNoErrors t).after fun accessed accessed' => ?_
    exact (checkAccess_addsNoErrors accessed accessed' entry span).given And.right
  | .function parameters result span, _ => by
    refine .nested span ?_ rfl
    refine (TypeExpr.checkEach_addsNoErrors parameters).after fun ps ps' => ?_
    refine (TypeExpr.check_addsNoErrors result).after fun r r' => ?_
    refine .pure (fun h => ?_) rfl
    obtain ⟨⟨-, hps⟩, hr⟩ := h
    exact Or.inr ⟨r'.hasValue, ps', r', rfl, hr.hasValue, hps, hr⟩
  | .atom a, _ => by
    refine .nested a.span ?_ rfl
    refine (TypeExpr.checkAtom_addsNoErrors a).after fun b b' => ?_
    exact .pure (fun h => Or.inr ⟨b', rfl, h.2⟩) rfl
  | .union atoms span, _ => by
    refine .nested span ?_ rfl
    refine (TypeExpr.checkAtoms_addsNoErrors atoms).after fun bs bs' => ?_
    exact .pure (fun h => Or.inr ⟨false, bs', rfl, id, h.2⟩) rfl
termination_by structural t => t
theorem TypeExpr.checkEach_addsNoErrors : ∀ (ts : List TypeExpr) {P : Prop},
    AddsNoErrors P DeclaresNothing Ty.FailsToEach (TypeExpr.checkEach ts) (TypeExpr.checkEach ts)
  | [], _ => .pure (fun _ => rfl) rfl
  | t :: ts, _ => by
    refine (TypeExpr.check_addsNoErrors t).after fun type type' => ?_
    refine (TypeExpr.checkEach_addsNoErrors ts).after fun types types' => ?_
    exact .pure (fun h => ⟨type', types', rfl, h.1.2, h.2⟩) rfl
termination_by structural ts => ts
theorem TypeExpr.checkEntries_addsNoErrors : ∀ (es : List (String × TypeExpr)) {P : Prop},
    AddsNoErrors P DeclaresNothing Ty.FailsToEntries (TypeExpr.checkEntries es)
      (TypeExpr.checkEntries es)
  | [], _ => .pure (fun _ => rfl) rfl
  | (_, t) :: es, _ => by
    refine (TypeExpr.check_addsNoErrors t).after fun type type' => ?_
    refine (TypeExpr.checkEntries_addsNoErrors es).after fun types types' => ?_
    exact .pure (fun h => ⟨type', types', rfl, h.1.2, h.2⟩) rfl
termination_by structural es => es
theorem TypeExpr.checkAtom_addsNoErrors : ∀ (a : AtomNode TypeExpr) {P : Prop},
    AddsNoErrors P DeclaresNothing Ty.FailsToAtom (TypeExpr.checkAtom a) (TypeExpr.checkAtom a)
  | ⟨_, arguments, _⟩, _ => by
    refine (TypeExpr.checkEach_addsNoErrors arguments).after fun types types' => ?_
    exact .pure (fun h => ⟨types', false, rfl, id, h.2⟩) rfl
termination_by structural a => a
theorem TypeExpr.checkAtoms_addsNoErrors : ∀ (as : List (AtomNode TypeExpr)) {P : Prop},
    AddsNoErrors P DeclaresNothing Ty.FailsToAtoms (TypeExpr.checkAtoms as) (TypeExpr.checkAtoms as)
  | [], _ => .pure (fun _ => rfl) rfl
  | a :: as, _ => by
    refine (TypeExpr.checkAtom_addsNoErrors a).after fun b b' => ?_
    refine (TypeExpr.checkAtoms_addsNoErrors as).after fun bs bs' => ?_
    exact .pure (fun h => ⟨b', bs', rfl, h.1.2, h.2⟩) rfl
termination_by structural as => as
end

theorem TypeExpr.checkOptional_addsNoErrors (t : Option TypeExpr) :
    AddsNoErrors P DeclaresNothing (Option.Rel Ty.FailsTo) (TypeExpr.checkOptional t)
      (TypeExpr.checkOptional t) := by
  cases t with
  | none => exact .pure (fun _ => .none) rfl
  | some t => exact t.check_addsNoErrors.after fun _ _ => .pure (fun h => .some h.2) rfl

/-! ## Parameters -/

def Parameter.Bind (ps : List Parameter) (bound declared : List Variable) : Prop :=
  declared = bound.reverse ∧ bound.map Variable.name = ps.map Parameter.name

theorem Parameter.check_addsNoErrors (p : Parameter) :
    AddsNoErrors P (fun v declared => declared = [v] ∧ v.name = p.name) Variable.FailsTo
      p.check p.check := by
  have htype : AddsNoErrors P DeclaresNothing Ty.FailsTo p.checkType p.checkType := by
    unfold Parameter.checkType
    split
    · rename_i t _
      refine t.check_addsNoErrors.after fun _ _ => (AddsNoErrors.note _ _).after fun _ _ => ?_
      exact .pure (fun h => h.1.2.withValue id) rfl
    · refine .step .allocate .allocate fun _ c c' hc => ?_
      unfold Context.allocate
      rw [hc.nextId]
      exact ⟨.refl _,
        ⟨hc.environment, hc.path, hc.importStack, rfl, hc.depth, hc.scopes, hc.opened⟩,
        [], rfl, (modifyHead_nil_append _).symm⟩
  refine htype.after fun t t' => ?_
  refine (checkRedeclared_addsNoErrors p.name p.span).afterSame fun redeclared => ?_
  exact (declare_addsNoErrors p.name redeclared t t').given And.right

theorem Parameter.checkEach_addsNoErrors : ∀ (ps : List Parameter) {P : Prop},
    AddsNoErrors P (Parameter.Bind ps) (List.Forall₂ Variable.FailsTo) (Parameter.checkEach ps)
      (Parameter.checkEach ps)
  | [], _ => .pure (fun _ => .nil) ⟨rfl, rfl⟩
  | p :: ps, P => by
    let D (v : Variable) (bound declared : List Variable) : Prop :=
      ∃ vs, bound = v :: vs ∧ Parameter.Bind ps vs declared
    have hrest : ∀ v v' : Variable, AddsNoErrors (P ∧ v.FailsTo v') (D v)
      (List.Forall₂ Variable.FailsTo)
        (Parameter.checkEach ps >>= fun vs => pure (v :: vs))
        (Parameter.checkEach ps >>= fun vs => pure (v' :: vs)) := by
      intro v v'
      have hvalue : ∀ vs vs' : List Variable,
          AddsNoErrors ((P ∧ v.FailsTo v') ∧ List.Forall₂ Variable.FailsTo vs vs')
            (fun bound declared => bound = v :: vs ∧ declared = []) (List.Forall₂ Variable.FailsTo)
            (pure (v :: vs)) (pure (v' :: vs')) :=
        fun vs vs' => .pure (fun h => .cons h.1.2 h.2) ⟨rfl, rfl⟩
      refine (Parameter.checkEach_addsNoErrors ps).bind hvalue ?_
      rintro vs bound first second hfirst ⟨rfl, rfl⟩
      exact ⟨vs, rfl, hfirst⟩
    refine (Parameter.check_addsNoErrors p).bind hrest ?_
    rintro v bound first second ⟨rfl, hname⟩ ⟨vs, rfl, rfl, hnames⟩
    exact ⟨by simp, by simp [hname, hnames]⟩

/-- Parameters of distinct names are found where they were declared. -/
theorem Scope.get?_reverse {p : Variable} : ∀ {bound : List Variable} (outer : Scope),
    (bound.map Variable.name).Nodup → p ∈ bound →
      Scope.get? p.name (bound.reverse ++ outer) = some p
  | v :: bound, outer, hnames, hp => by
    rw [List.map_cons, List.nodup_cons] at hnames
    rw [List.reverse_cons, List.append_assoc]
    by_cases hlater : p ∈ bound
    · exact Scope.get?_reverse _ hnames.2 hlater
    · obtain rfl : p = v := by simpa [hlater] using hp
      have hnone : bound.reverse.find? (fun q => decide (q.name = p.name)) = none := by
        rw [List.find?_eq_none]
        intro q hq
        have hmem : q.name ∈ bound.map Variable.name :=
          List.mem_map.mpr ⟨q, List.mem_reverse.mp hq, rfl⟩
        simp only [decide_eq_true_eq]
        rintro hname
        exact hnames.1 (hname ▸ hmem)
      simp [Scope.get?, List.find?_append, hnone]

end

/-! ## Functions -/

/-- A statement that declares a variable has no type of its own. -/
def Stmt.Ends (type : Ty) (declared : List Variable) : Prop :=
  declared = [] ∨ type.Blank

theorem function_addsNoErrors {P : Prop} {parameters : List Parameter} {m m' : CheckM Ty}
    (hnames : (parameters.map Parameter.name).Nodup)
    (hbody : ∀ {P : Prop}, AddsNoErrors P Stmt.Ends Ty.FailsTo m m') :
    AddsNoErrors P DeclaresNothing Ty.FailsTo
      (do
        modifyContext Context.push
        let bound ← Parameter.checkEach parameters
        let result ← m
        let (parameters, result) := refreshParameters (← read Context.innermost) bound result
        modifyContext Context.pop
        return .function result.hasValue parameters result)
      (do
        modifyContext Context.push
        let bound ← Parameter.checkEach parameters
        let result ← m'
        let (parameters, result) := refreshParameters (← read Context.innermost) bound result
        modifyContext Context.pop
        return .function result.hasValue parameters result) := by
  -- the parameters and the type of the body, with all that stands in the scope by then
  let D (r : List Variable × Ty) (declared : List Variable) : Prop :=
    r.2.Blank ∨ declared = r.1.reverse ∧ (r.1.map Variable.name).Nodup
  let R (r r' : List Variable × Ty) : Prop :=
    List.Forall₂ Variable.FailsTo r.1 r'.1 ∧ r.2.FailsTo r'.2
  have hchecked : AddsNoErrors P D R
      (do let bound ← Parameter.checkEach parameters; let result ← m; return (bound, result))
      (do let bound ← Parameter.checkEach parameters; let result ← m'; return (bound, result)) := by
    have hresult : ∀ bound bound' : List Variable,
        AddsNoErrors (P ∧ List.Forall₂ Variable.FailsTo bound bound')
          (fun r declared => r.1 = bound ∧ Stmt.Ends r.2 declared) R
          (m >>= fun result => pure (bound, result))
          (m' >>= fun result => pure (bound', result)) := by
      intro bound bound'
      have hvalue : ∀ result result' : Ty,
          AddsNoErrors ((P ∧ List.Forall₂ Variable.FailsTo bound bound') ∧ result.FailsTo result')
            (fun r declared => r = (bound, result) ∧ declared = []) R (pure (bound, result))
            (pure (bound', result')) :=
        fun _ _ => .pure (fun h => ⟨h.1.2, h.2⟩) ⟨rfl, rfl⟩
      refine hbody.bind hvalue ?_
      rintro result r first second hfirst ⟨rfl, rfl⟩
      exact ⟨rfl, hfirst⟩
    refine (Parameter.checkEach_addsNoErrors parameters).bind hresult ?_
    rintro _ ⟨bound, result⟩ first second ⟨rfl, hbound⟩ ⟨rfl, hends⟩
    rcases hends with rfl | hblank
    · exact Or.inr ⟨rfl, hbound ▸ hnames⟩
    · exact Or.inl hblank
  have hrefreshed := hchecked.inspect (fun scope r => refreshParameters scope r.1 r.2)
    (R := fun r r' => Ty.FailsToEach r.1 r'.1 ∧ r.2.FailsTo r'.2) (by
      rintro ⟨bound, result⟩ ⟨bound', result'⟩ declared outer scope' ⟨hbound, hresult⟩ hD hscope
      refine refreshParameters_failsTo hscope hbound hresult (hD.imp_right ?_)
      rintro ⟨rfl, hdistinct⟩ p hp
      exact Scope.get?_reverse outer hdistinct hp)
  refine hrefreshed.inScope (fun r => Ty.function r.2.hasValue r.1 r.2) ?_
  rintro r r' ⟨hparameters, hresult⟩
  exact Or.inr ⟨_, _, _, rfl, hresult.hasValue, hparameters, hresult⟩

/-! ## Expressions and statements -/

mutual
def Expr.Distinct : Expr → Prop
  | .name _ _ | .number _ _ | .string _ _ | .importFile _ _ => True
  | .tuple items _ => Expr.DistinctEach items
  | .record entries _ => Expr.DistinctEntries entries
  | .access e _ _ => e.Distinct
  | .function parameters body _ => (parameters.map Parameter.name).Nodup ∧ body.Distinct
  | .call callee arguments _ => callee.Distinct ∧ Expr.DistinctEach arguments
  | .atom _ arguments _ => Expr.DistinctEach arguments
termination_by structural e => e
def Expr.DistinctEach : List Expr → Prop
  | [] => True
  | e :: es => e.Distinct ∧ Expr.DistinctEach es
termination_by structural es => es
def Expr.DistinctEntries : List (String × Expr) → Prop
  | [] => True
  | (_, e) :: es => e.Distinct ∧ Expr.DistinctEntries es
termination_by structural es => es
def Expr.DistinctOptional : Option Expr → Prop
  | none => True
  | some e => e.Distinct
termination_by structural e => e
def Stmt.DistinctAssignment : Assignment Expr → Prop
  | ⟨_, _, value, _⟩ => Expr.DistinctOptional value
termination_by structural a => a
def Stmt.Distinct : Stmt → Prop
  | .block body _ => Stmt.DistinctEach body
  | .assign a => Stmt.DistinctAssignment a
  | .exported a _ => Stmt.DistinctAssignment a
  | .expr e => e.Distinct
  | .type _ => True
termination_by structural s => s
def Stmt.DistinctEach : List Stmt → Prop
  | [] => True
  | s :: ss => s.Distinct ∧ Stmt.DistinctEach ss
termination_by structural ss => ss
end

section
variable (n : Nat)

mutual
theorem Expr.check_addsNoErrors : ∀ (e : Expr) {P : Prop}, e.Distinct →
    AddsNoErrors P DeclaresNothing Ty.FailsTo (e.check (importer n)) (e.check (importer n))
  | .name x span, _, _ => .nested span (checkName_addsNoErrors x span) rfl
  | .number _ span, _, _ => .nested span (.pure (fun _ => .refl _) rfl) rfl
  | .string _ span, _, _ => .nested span (.pure (fun _ => .refl _) rfl) rfl
  | .tuple items span, _, hdistinct => by
    refine .nested span ?_ rfl
    refine (Expr.checkValues_addsNoErrors items hdistinct).after fun ts ts' => ?_
    exact .pure (fun h => Or.inr ⟨true, ts', rfl, id, h.2⟩) rfl
  | .record entries span, _, hdistinct => by
    refine .nested span ?_ rfl
    refine (Expr.checkEntries_addsNoErrors entries hdistinct).after fun es es' => ?_
    exact .pure (fun h => Or.inr ⟨true, _, rfl, id, h.2.ofList⟩) rfl
  | .access e entry span, _, hdistinct => by
    refine .nested span ?_ rfl
    refine (Expr.check_addsNoErrors e hdistinct).after fun accessed accessed' => ?_
    refine ((checkAccess_addsNoErrors accessed accessed' entry span).given And.right).after
      fun _ _ => ?_
    exact (AddsNoErrors.note _ _).after fun _ _ => .pure (fun h => h.1.2) rfl
  | .function parameters body span, _, hdistinct => by
    refine .nested span ?_ rfl
    exact function_addsNoErrors hdistinct.1 (Stmt.check_addsNoErrors body hdistinct.2)
  | .call callee arguments span, _, hdistinct => by
    refine .nested span ?_ rfl
    refine (Expr.check_addsNoErrors callee hdistinct.1).after fun type type' => ?_
    refine ((signature?_dims type type' callee.span).given And.right).after fun sig sig' => ?_
    refine (Expr.checkValues_addsNoErrors arguments hdistinct.2).after fun types types' => ?_
    have hadds : ∀ parameters result types, Adds (checkCall parameters result types span) :=
      fun parameters result types => Adds.congruence.checkCall parameters result types span
    cases sig' with
    | none =>
      cases sig with
      | none => exact .pure (fun _ => rfl) rfl
      | some sig => exact checkCall_left span
    | some sig' =>
      cases sig with
      | none => exact .assume (fun s => .refl s) (hadds _ _ _) fun h => h.1.2.elim
      | some sig =>
        refine .assume (hadds _ _ _) (hadds _ _ _) fun h => ?_
        exact checkCall_addsNoErrors span h.2 h.1.2.1 h.1.2.2
  | .importFile path span, _, _ => .nested span (importer_addsNoErrors n path span) rfl
  | .atom x arguments span, _, hdistinct => by
    refine .nested span ?_ rfl
    refine (Expr.checkValues_addsNoErrors arguments hdistinct).after fun ts ts' => ?_
    exact .pure (fun h => Or.inr ⟨⟨x, ts', true⟩, rfl, ts', true, rfl, id, h.2⟩) rfl
termination_by structural e => e
theorem Expr.checkValues_addsNoErrors : ∀ (es : List Expr) {P : Prop}, Expr.DistinctEach es →
    AddsNoErrors P DeclaresNothing Ty.FailsToEach (Expr.checkValues (importer n) es)
      (Expr.checkValues (importer n) es)
  | [], _, _ => .pure (fun _ => rfl) rfl
  | e :: es, _, hdistinct => by
    refine (Expr.check_addsNoErrors e hdistinct.1).after fun type type' => ?_
    refine ((requireValue_addsNoErrors type type' e.span).given And.right).after fun _ _ => ?_
    refine (Expr.checkValues_addsNoErrors es hdistinct.2).after fun types types' => ?_
    exact .pure (fun h => ⟨type', types', rfl, h.1.1.2, h.2⟩) rfl
termination_by structural es => es
theorem Expr.checkEntries_addsNoErrors : ∀ (es : List (String × Expr)) {P : Prop},
    Expr.DistinctEntries es →
    AddsNoErrors P DeclaresNothing Ty.FailsToEntries (Expr.checkEntries (importer n) es)
      (Expr.checkEntries (importer n) es)
  | [], _, _ => .pure (fun _ => rfl) rfl
  | (_, e) :: es, _, hdistinct => by
    refine (Expr.check_addsNoErrors e hdistinct.1).after fun type type' => ?_
    refine ((requireValue_addsNoErrors type type' e.span).given And.right).after fun _ _ => ?_
    refine (AddsNoErrors.note _ _).after fun _ _ => ?_
    refine (Expr.checkEntries_addsNoErrors es hdistinct.2).after fun types types' => ?_
    exact .pure (fun h => ⟨type', types', rfl, h.1.1.1.2, h.2⟩) rfl
termination_by structural es => es
theorem Expr.checkOptional_addsNoErrors : ∀ (e : Option Expr) {P : Prop}, Expr.DistinctOptional e →
    AddsNoErrors P DeclaresNothing (Option.Rel Ty.FailsTo) (Expr.checkOptional (importer n) e)
      (Expr.checkOptional (importer n) e)
  | none, _, _ => .pure (fun _ => .none) rfl
  | some e, _, hdistinct => by
    refine (Expr.check_addsNoErrors e hdistinct).after fun type type' => ?_
    refine ((requireValue_addsNoErrors type type' e.span).given And.right).after fun _ _ => ?_
    exact .pure (fun h => .some h.1.2) rfl
termination_by structural e => e
theorem Stmt.checkAssignment_addsNoErrors : ∀ (a : Assignment Expr) {P : Prop},
    Stmt.DistinctAssignment a →
    AddsNoErrors P (fun v declared => declared = [v] ∧ v.name = a.name) Variable.FailsTo
      (Stmt.checkAssignment (importer n) a) (Stmt.checkAssignment (importer n) a)
  | ⟨name, declared, value, span⟩, _, hdistinct => by
    refine (checkRedeclared_addsNoErrors name span).afterSame fun redeclared => ?_
    refine (TypeExpr.checkOptional_addsNoErrors declared).after fun expected expected' => ?_
    refine (Expr.checkOptional_addsNoErrors value hdistinct).after fun received received' => ?_
    have hfit := requireFit_addsNoErrors name expected expected' received received' span
    refine (hfit.given fun h => ⟨h.1.2, h.2⟩).after fun _ _ => ?_
    refine (noteDeclared_addsNoErrors fun h => h.1.1.2).after fun _ _ => ?_
    refine (declare_addsNoErrors name redeclared _ _).given fun h => ?_
    exact assignedType_failsTo h.1.1.1.2 h.1.1.2
termination_by structural a => a
theorem Stmt.check_addsNoErrors : ∀ (s : Stmt) {P : Prop}, s.Distinct →
    AddsNoErrors P Stmt.Ends Ty.FailsTo (s.check (importer n)) (s.check (importer n))
  | .block [] span, _, _ => by
    refine .nested span ?_ (Or.inl rfl)
    exact (AddsNoErrors.report _ _ span).after fun _ _ => .pure (fun _ => .refl _) (Or.inl rfl)
  | .block (first :: rest) span, P, hdistinct => by
    refine .nested span ?_ (Or.inl rfl)
    have hinner : AddsNoErrors P (fun _ _ => True) Ty.FailsTo
        (first.check (importer n) >>= fun type => Stmt.checkRest (importer n) type rest)
        (first.check (importer n) >>= fun type => Stmt.checkRest (importer n) type rest) :=
      (Stmt.check_addsNoErrors first hdistinct.1).bind
        (fun type type' => Stmt.checkRest_addsNoErrors rest type type' hdistinct.2)
        fun _ _ _ _ _ _ => trivial
    exact (hinner.inScope id fun _ _ h => h).weaken id (fun _ _ => Or.inl) fun _ _ => id
  | .assign a, P, hdistinct => by
    refine .nested a.span ?_ (Or.inl rfl)
    have hempty : ∀ v v' : Variable, AddsNoErrors (P ∧ v.FailsTo v')
      (fun type _ => type = .empty) Ty.FailsTo
        (pure .empty) (pure .empty) := fun _ _ => .pure (fun _ => .refl _) rfl
    exact (Stmt.checkAssignment_addsNoErrors a hdistinct).bind hempty fun _ _ _ _ _ h =>
      Or.inr (Or.inl h)
  | .exported a span, P, hdistinct => by
    refine .nested span ?_ (Or.inl rfl)
    have hroot : AddsNoErrors P DeclaresNothing Eq (read Context.atFileRoot)
      (read Context.atFileRoot) :=
      .read (fun _ _ _ h => h.atFileRoot.symm) fun _ => rfl
    have hdeclared : AddsNoErrors P DeclaresNothing Eq (read (Context.isDeclared a.name))
        (read (Context.isDeclared a.name)) :=
      .read (fun _ _ _ h => (h.isDeclared a.name).symm) fun _ => rfl
    refine hroot.afterSame fun atFileRoot => hdeclared.afterSame fun redeclared => ?_
    have hexport : ∀ v v' : Variable, AddsNoErrors (P ∧ v.FailsTo v')
      (fun type _ => type = .empty) Ty.FailsTo
        (do
          if !atFileRoot then report .nestedExport span
          else if !redeclared then modifyContext (Context.exportVariable v)
          return .empty)
        (do
          if !atFileRoot then report .nestedExport span
          else if !redeclared then modifyContext (Context.exportVariable v')
          return .empty) := by
      intro v v'
      cases atFileRoot with
      | false => exact (AddsNoErrors.report _ _ span).after fun _ _ => .pure (fun _ => .refl _) rfl
      | true =>
        cases redeclared with
        | false =>
          exact (exportVariable_addsNoErrors v v').after fun _ _ => .pure (fun _ => .refl _) rfl
        | true => exact .pure (fun _ => .refl _) rfl
    exact (Stmt.checkAssignment_addsNoErrors a hdistinct).bind hexport fun _ _ _ _ _ h =>
      Or.inr (Or.inl h)
  | .expr e, _, hdistinct =>
    (Expr.check_addsNoErrors e hdistinct).weaken id (fun _ _ => Or.inl) fun _ _ => id
  | .type t, _, _ => t.check_addsNoErrors.weaken id (fun _ _ => Or.inl) fun _ _ => id
termination_by structural s => s
theorem Stmt.checkRest_addsNoErrors : ∀ (ss : List Stmt) {P : Prop} (type type' : Ty),
    Stmt.DistinctEach ss →
    AddsNoErrors (P ∧ type.FailsTo type') (fun _ _ => True) Ty.FailsTo
      (Stmt.checkRest (importer n) type ss)
      (Stmt.checkRest (importer n) type' ss)
  | [], _, _, _, _ => .pure And.right trivial
  | s :: ss, _, _, _, hdistinct => by
    refine (Stmt.check_addsNoErrors s hdistinct.1).bind
      (fun type type' => Stmt.checkRest_addsNoErrors ss type type' hdistinct.2) ?_
    exact fun _ _ _ _ _ _ => trivial
termination_by structural ss => ss
end

end

/-! ## Failed variables -/

/-- The state in which variable `j` of scope `i` has failed. -/
def Checking.ignoring (i j : Nat) (s : Checking) : Checking :=
  let fail : Variable → Variable := fun v => { v with type := .ignore }
  let scopes := s.context.scopes.modify i fun scope => scope.modify j fail
  { s with context := { s.context with scopes } }

theorem forall₂_modify {α : Type} {R : α → α → Prop} {f : α → α} (hrefl : ∀ a, R a a)
    (hf : ∀ a, R a (f a)) : ∀ (as : List α) (i : Nat), List.Forall₂ R as (as.modify i f)
  | [], i => by simp
  | a :: as, 0 => by
    rw [List.modify_zero_cons]
    exact .cons (hf a) (List.forall₂_same.mpr fun b _ => hrefl b)
  | a :: as, i + 1 => by
    rw [List.modify_succ_cons]
    exact .cons (hrefl a) (forall₂_modify hrefl hf as i)

theorem Checking.failsTo_ignoring {s : Checking} (i j : Nat) (h : s.context.scopes ≠ []) :
    s.FailsTo (s.ignoring i j) := by
  refine ⟨⟨rfl, rfl, rfl, rfl, rfl, ?_, h⟩, .refl _⟩
  refine forall₂_modify (fun scope => List.forall₂_same.mpr fun v _ => .refl v) ?_ _ i
  intro scope
  have hfail : ∀ v : Variable, v.FailsTo { v with type := .ignore } :=
    fun v => ⟨rfl, Ty.failsTo_ignore _⟩
  exact forall₂_modify Variable.FailsTo.refl hfail scope j

/-- **One mistake, one error.** Let a variable fail before a statement is checked. If the check
without the failure settles nothing, the one with it has no error that the other does not have at
the same place, and so no more errors. -/
theorem failure_adds_no_errors (n : Nat) {stmt : Stmt} {s : Checking} (i j : Nat)
    (hdistinct : stmt.Distinct) (hsettles : s.SettlesNothing (stmt.check (importer n) s).2) :
    ∃ added added' : List Error,
      (stmt.check (importer n) s).2.context.errors = s.context.errors ++ added ∧
      (stmt.check (importer n) (s.ignoring i j)).2.context.errors = s.context.errors ++ added' ∧
      (added'.map Error.position).Sublist (added.map Error.position) ∧
      added'.length ≤ added.length := by
  have hchecks := stmt.check_addsNoErrors n (P := True) hdistinct
  refine ⟨_, _, (hchecks.adds s).errors_eq, (hchecks.adds' (s.ignoring i j)).errors_eq, ?_⟩
  have hpositions : (((s.ignoring i j).errorsTo (stmt.check (importer n) (s.ignoring i j)).2).map
      Error.position).Sublist ((s.errorsTo (stmt.check (importer n) s).2).map Error.position) := by
    by_cases hscopes : s.context.scopes = []
    · have hsame : s.ignoring i j = s := by
        unfold Checking.ignoring
        dsimp only
        rw [hscopes, List.modify_nil, ← hscopes]
      rw [hsame]
    · exact (hchecks.fewerErrors trivial s _ (s.failsTo_ignoring i j hscopes) hsettles).errors
  refine ⟨hpositions, ?_⟩
  have hlength := hpositions.length_le
  rwa [List.length_map, List.length_map] at hlength

/-- The file `main` with these variables in its root block, of which a later one comes first. -/
def Checking.ofVariables (vs : List Variable) (nextId : Nat) : Checking :=
  let c := Context.start ⟨[], .standard⟩ "main" ["main"]
  ⟨{ c with scopes := [vs, []], nextId, depth := 1 }, .ofSources (.ofFiles [])⟩

/-- `a: string = v`, `b = v.k` and `((x: number) x)("s")`, at places 1, 2 and 3. -/
def usesOfNumber : Stmt :=
  let place (offset : UInt32) : Span := ⟨⟨offset, "main"⟩, ⟨offset, "main"⟩⟩
  let identity : Expr :=
    .function [⟨"x", some (.number (place 3)), place 3⟩] (.expr (.name "x" (place 3))) (place 3)
  .block
    [.assign ⟨"a", some (.string (place 1)), some (.name "v" (place 1)), place 1⟩,
      .assign ⟨"b", none, some (.access (.name "v" (place 2)) "k" (place 2)), place 2⟩,
      .expr (.call identity [.string "s" (place 3)] (place 3))]
    (place 0)

def oneNumber : Checking :=
  .ofVariables [⟨"v", .number true⟩] 0

theorem usesOfNumber_failure_adds_no_errors :
    usesOfNumber.Distinct ∧ oneNumber.SettlesNothing (usesOfNumber.check (importer 0) oneNumber).2 ∧
    ∃ added added' : List Error,
      (usesOfNumber.check (importer 0) oneNumber).2.context.errors =
        oneNumber.context.errors ++ added ∧
      (usesOfNumber.check (importer 0) (oneNumber.ignoring 0 0)).2.context.errors =
        oneNumber.context.errors ++ added' ∧
      (added'.map Error.position).Sublist (added.map Error.position) ∧
      added'.length ≤ added.length := by
  have hdistinct : usesOfNumber.Distinct := by
    simp [usesOfNumber, Stmt.Distinct, Stmt.DistinctEach, Stmt.DistinctAssignment, Expr.Distinct,
      Expr.DistinctEach, Expr.DistinctOptional]
  have hsettles : oneNumber.SettlesNothing (usesOfNumber.check (importer 0) oneNumber).2 :=
    ⟨by decide +kernel, by decide +kernel⟩
  exact ⟨hdistinct, hsettles, failure_adds_no_errors 0 0 0 hdistinct hsettles⟩

/-! ## Failures that are noticed later

Each of the assumptions is needed. -/

def settlingText : String :=
  "f = (a: number, b: number) a\nv = 1\ng = (x) \x7b y = f(x, v) z: number = x x \x7d"

def settlingTree : Stmt :=
  treeOf (parseSource settlingText "main" 256)

def settlingStmt : Stmt :=
  match settlingTree with
  | .block [_, _, stmt] _ => stmt
  | _ => default

section

-- The run below is evaluated as a whole and not unfolded.
attribute [local irreducible] Workspace.check

/-- A failed argument keeps a call from settling a parameter, and the use of the parameter after it
is reported. -/
theorem failure_adds_error :
    let outcome := (Workspace.ofSources (.ofFiles [])).check ⟨[], .standard⟩ "main" settlingTree
    parseSource settlingText "main" 256 = .ok settlingTree ∧
    ∃ m ∈ outcome.2.trail,
      m.context.scopes.map (List.map fun v => (v.name, v.type.render, v.type.hasValue)) =
        [[("v", "number", true), ("f", "(number, number) number", true)], []] ∧
      (settlingStmt.check (importer 0) ⟨m.context, outcome.2⟩).2.context.errors.length =
        m.context.errors.length ∧
      (settlingStmt.check (importer 0)
        (Checking.ignoring 0 0 ⟨m.context, outcome.2⟩)).2.context.errors.length =
          m.context.errors.length + 1 := by
  intro outcome
  exact ⟨eq_ok_treeOf (by decide +kernel), by decide +kernel⟩

end

-- A function without a value fails at its call, which hides what becomes of the result.
example :
    let s := Checking.ofVariables
      [⟨"v", .record true [("k", .function false [] (.number false))]⟩] 0
    let text := "h: () number = v.k\ny = h()\na: string = y\nb: string = y\nc: string = y"
    let tree := treeOf (parseSource text "main" 256)
    [s, s.ignoring 0 0].map (fun s => (tree.check (importer 0) s).2.context.errors.length) =
      [2, 3] := by
  decide +kernel

-- A parameter that is declared twice fails, and with it all that has the same placeholder.
example :
    let s := Checking.ofVariables [⟨"v", .placeholder true 0⟩, ⟨"q", .placeholder false 0⟩] 1
    let tree := treeOf (parseSource "f = (x: v, x) q\nf(1, 2)" "main" 256)
    [s, s.ignoring 0 0].map (fun s => (tree.check (importer 0) s).2.context.errors.length) =
      [1, 3] := by
  decide +kernel

end ShapeCheck
