import ShapeCheck.Prelude
import ShapeCheck.Proofs.Frame
import ShapeCheck.Proofs.Marks
import ShapeCheck.Proofs.Since

/-!
# Entries that are read

What is read out of a value is a value, and what is read out of a type is none, unless something
gave the record a mark that its entry does not have. That can happen in four ways: a declared type
with entries of another mark makes the type of a variable, a call settles a placeholder by such a
type, an import brings exports without values, or a record expression is written with an entry that
has no value. The trail shows each of them. Where none happened, every read keeps the mark.
-/

namespace ShapeCheck

open CheckM

/-! ## Moments -/

def Moment.Uniform (n : String) : Moment → Prop
  | ⟨.started, c⟩ => ∀ v ∈ c.scopes.flatten, v.type.Uniform n
  | ⟨.settled σ, _⟩ => ∀ step ∈ σ, step.2.uniformAs n true = true
  | ⟨.imported vs, _⟩ => (exportRecord vs).Uniform n
  | ⟨.annotated t, _⟩ => t.Uniform n
  | ⟨.filled x t, _⟩ => x = n → t.hasValue = true
  | ⟨.allocated _, _⟩ | ⟨.read _ _ _, _⟩ | ⟨.changed, _⟩ | ⟨.typed _, _⟩ => True

instance (n : String) : (m : Moment) → Decidable (m.Uniform n)
  | ⟨.started, c⟩ => inferInstanceAs (Decidable (∀ v ∈ c.scopes.flatten, v.type.Uniform n))
  | ⟨.settled σ, _⟩ => inferInstanceAs (Decidable (∀ step ∈ σ, step.2.uniformAs n true = true))
  | ⟨.imported vs, _⟩ => inferInstanceAs (Decidable ((exportRecord vs).Uniform n))
  | ⟨.annotated t, _⟩ => inferInstanceAs (Decidable (t.Uniform n))
  | ⟨.filled x t, _⟩ => inferInstanceAs (Decidable (x = n → t.hasValue = true))
  | ⟨.allocated _, _⟩ | ⟨.read _ _ _, _⟩ | ⟨.changed, _⟩ | ⟨.typed _, _⟩ =>
    inferInstanceAs (Decidable True)

/-- If the entry `n` is read at this moment, it has the mark of what it is read from. -/
def Moment.ReadsAlike (n : String) (m : Moment) : Prop :=
  ∀ accessed t, m.event = .read accessed n t → accessed ≠ .ignore → t ≠ .ignore →
    t.hasValue = accessed.hasValue

instance : (t : Ty) → Decidable (t = .ignore)
  | .ignore => isTrue rfl
  | .number _ | .string _ | .tuple _ _ | .record _ _ | .function _ _ _ | .atom _ | .union _ _
  | .placeholder _ _ | .empty => isFalse nofun

instance (n : String) : (m : Moment) → Decidable (m.ReadsAlike n)
  | ⟨.read accessed x t, _⟩ =>
    decidable_of_iff
      (x = n → accessed ≠ .ignore → t ≠ .ignore → t.hasValue = accessed.hasValue)
      ⟨fun h _ _ hread => by cases hread; exact h rfl, fun h hx => h _ _ (hx ▸ rfl)⟩
  | ⟨.started, _⟩ | ⟨.settled _, _⟩ | ⟨.imported _, _⟩ | ⟨.annotated _, _⟩ | ⟨.filled _ _, _⟩
  | ⟨.allocated _, _⟩ | ⟨.changed, _⟩ | ⟨.typed _, _⟩ => isTrue nofun

/-- Since the trail was `before`, something got a type that is not uniform at `n`. -/
def Moment.Strayed (n : String) (before trail : List Moment) : Prop :=
  ∃ added, trail = added ++ before ∧ ∃ m ∈ added, ¬ m.Uniform n

/-- As long as nothing strayed, all reads of `n` keep the mark. -/
def Moment.ReadAlike (n : String) (before trail : List Moment) : Prop :=
  ∃ added, trail = added ++ before ∧
    (Moment.Strayed n before trail ∨ ∀ m ∈ added, m.ReadsAlike n)

namespace Moment

variable {n : String} {before trail : List Moment} {m : Moment}

theorem Strayed.cons (h : Strayed n before trail) (m : Moment) : Strayed n before (m :: trail) := by
  obtain ⟨added, htrail, m', hm', hstray⟩ := h
  exact ⟨m :: added, congrArg (List.cons m) htrail, m', List.mem_cons_of_mem _ hm', hstray⟩

theorem ReadAlike.refl (n : String) (before : List Moment) : ReadAlike n before before :=
  ⟨[], rfl, Or.inr (by simp)⟩

theorem ReadAlike.cons (h : ReadAlike n before trail)
    (hm : Strayed n before trail ∨ m.ReadsAlike n) : ReadAlike n before (m :: trail) := by
  obtain ⟨added, htrail, halike⟩ := h
  refine ⟨m :: added, congrArg (List.cons m) htrail, ?_⟩
  rcases hm with hstrayed | hm
  · exact Or.inl (hstrayed.cons m)
  · exact halike.imp (·.cons m) fun halike => List.forall_mem_cons.mpr ⟨hm, halike⟩

section
variable {added : List Moment} (htrail : trail = added ++ before)
  (huniform : ∀ m ∈ added, m.Uniform n)
include htrail huniform

end

end Moment

/-! ## Scopes -/

/-- The visible names stand for what is uniform, looked up from the innermost scope on or from one
of the next `level` scopes on. -/
structure Context.Uniform (n : String) (Visible : String → Prop) (level : Nat) (c : Context) :
    Prop where
  scopes : level ≤ c.scopes.length
  resolved : ∀ k ≤ level, ∀ x v, Visible x →
    (c.scopes.drop k).findSome? (Scope.get? x) = some v → v.type.Uniform n

theorem Scope.get?_map_apply (σ : Ty.Substitution) (x : String) (scope : Scope) :
    Scope.get? x (scope.map (Variable.apply σ)) = (scope.get? x).map (Variable.apply σ) := by
  rw [Scope.get?, List.find?_map]
  rfl

theorem Scope.findSome?_map_apply (σ : Ty.Substitution) (x : String) (scopes : List Scope) :
    (scopes.map (List.map (Variable.apply σ))).findSome? (Scope.get? x) =
      (scopes.findSome? (Scope.get? x)).map (Variable.apply σ) := by
  rw [List.findSome?_map, List.map_findSome?]
  congr 1
  funext scope
  exact Scope.get?_map_apply σ x scope

namespace Context.Uniform

variable {n : String} {Visible : String → Prop} {level : Nat} {c c' : Context}

theorem push (h : c.Uniform n Visible level) : c.push.Uniform n Visible (level + 1) := by
  refine ⟨Nat.succ_le_succ h.scopes, fun k hk x v hx hv => ?_⟩
  cases k with
  | zero => exact h.resolved 0 (Nat.zero_le _) x v hx hv
  | succ k => exact h.resolved k (Nat.le_of_succ_le_succ hk) x v hx hv

theorem pop (h : c.Uniform n Visible (level + 1)) : c.pop.Uniform n Visible level := by
  have hdrop : ∀ k, c.pop.scopes.drop k = c.scopes.drop (k + 1) := by
    intro k
    show c.scopes.tail.drop k = _
    rw [List.drop_tail]
  refine ⟨?_, fun k hk x v hx hv => ?_⟩
  · show level ≤ c.scopes.tail.length
    rw [List.length_tail]
    exact Nat.le_sub_of_add_le h.scopes
  · rw [hdrop] at hv
    exact h.resolved (k + 1) (Nat.succ_le_succ hk) x v hx hv

theorem declare {v : Variable} (h : c.Uniform n Visible level) (hv : v.type.Uniform n) :
    (c.declare v).Uniform n Visible level := by
  -- The variable is found first, and only from the innermost scope on.
  have hfound : ∀ scope outer x u, ((v :: scope) :: outer).findSome? (Scope.get? x) = some u →
      u = v ∨ (scope :: outer).findSome? (Scope.get? x) = some u := by
    intro scope outer x u hu
    rw [List.findSome?_cons, Scope.get?, List.find?_cons] at hu
    cases hname : decide (v.name = x) with
    | true =>
      rw [hname] at hu
      exact Or.inl (Option.some.inj hu).symm
    | false =>
      rw [hname] at hu
      exact Or.inr hu
  unfold Context.declare
  split
  · rename_i hscopes
    have hlevel := h.scopes
    rw [hscopes] at hlevel
    obtain rfl := Nat.le_zero.mp hlevel
    refine ⟨Nat.zero_le _, fun k hk x u hx hu => ?_⟩
    obtain rfl := Nat.le_zero.mp hk
    rcases hfound [] [] x u hu with rfl | hu
    · exact hv
    · cases hu
  · rename_i scope outer hscopes
    have hlevel := h.scopes
    rw [hscopes] at hlevel
    refine ⟨hlevel, fun k hk x u hx hu => ?_⟩
    have hresolved := h.resolved k hk x u hx
    rw [hscopes] at hresolved
    cases k with
    | zero =>
      rcases hfound scope outer x u hu with rfl | hu
      · exact hv
      · exact hresolved hu
    | succ k => exact hresolved hu

theorem apply {σ : Ty.Substitution} (hσ : ∀ step ∈ σ, step.2.uniformAs n true = true)
    (h : c.Uniform n Visible level) : (c.apply σ).Uniform n Visible level := by
  refine ⟨?_, fun k hk x v hx hv => ?_⟩
  · rw [Context.scopes_apply, List.length_map]
    exact h.scopes
  · rw [Context.scopes_apply, ← List.map_drop, Scope.findSome?_map_apply] at hv
    obtain ⟨u, hu, rfl⟩ := Option.map_eq_some_iff.mp hv
    exact (h.resolved k hk x u hx hu).apply hσ

end Context.Uniform

/-! ## The contract -/

section
variable {n : String} {Visible : String → Prop} {before : List Moment}

section
variable {level level' : Nat} {s : Checking} {event : Event} {c : Context}

end

end

/-! ## Parameters of functions -/

/-- The type has the mark of a value if it can have one. -/
def Ty.Given (t : Ty) : Prop :=
  t.hasValue = true ∨ t = .empty

theorem Ty.given_withValue (t : Ty) : (t.withValue true).Given := by
  cases t with
  | empty => exact Or.inr rfl
  | _ => exact Or.inl rfl

theorem Ty.Given.substitute {t : Ty} (h : t.Given) (id : Nat) (u : Ty) :
    (Ty.substitute id u t).Given := by
  cases t with
  | placeholder v i =>
    obtain rfl : v = true := h.resolve_right (by simp)
    unfold Ty.substitute
    split
    · exact Ty.given_withValue u
    · exact Or.inl rfl
  | atom a =>
    cases a
    exact Or.inl (h.resolve_right (by simp))
  | empty => exact Or.inr rfl
  | ignore => exact Or.inl rfl
  | _ => exact Or.inl (h.resolve_right (by simp))

theorem Ty.Given.apply {t : Ty} (h : t.Given) (σ : Ty.Substitution) : (t.apply σ).Given := by
  induction σ generalizing t with
  | nil => exact h
  | cons step σ ih => exact ih (h.substitute step.1 step.2)

theorem Ty.Given.uniformAs {n : String} {t : Ty} (h : t.Given) (ht : t.Uniform n) :
    t.uniformAs n true = true :=
  ht.usable (h.resolve_right (Ty.ne_empty_of_uniformAs ht))

theorem Parameter.checkType_framed (p : Parameter) (s : Checking) (h : s.context.scopes ≠ []) :
    ∃ σ exported, s.context.Framed σ [] exported (p.checkType s).2.context := by
  obtain ⟨name, declared, span⟩ := p
  cases declared with
  | some t =>
    obtain ⟨σ, declared, exported, hframed, hdeclared⟩ :=
      Stmt.check_framed (importer_keepsFrame 0) (.type t) h
    obtain rfl := List.length_eq_zero_iff.mp (Nat.le_zero.mp hdeclared)
    exact ⟨σ, exported, hframed⟩
  | none => exact ⟨[], [], s.context.framed_allocate⟩

theorem checkRedeclared_framed (x : String) (span : Span) (s : Checking) :
    s.context.Framed [] [] [] (checkRedeclared x span s).2.context := by
  unfold checkRedeclared
  rw [bind_run, read_run]
  dsimp only
  cases s.context.isDeclared x with
  | true => exact s.context.framed_report _ span
  | false => exact .refl s.context

theorem Parameter.check_framed (p : Parameter) (s : Checking) (h : s.context.scopes ≠ []) :
    ∃ σ exported, s.context.Framed σ [(p.check s).1] exported (p.check s).2.context := by
  obtain ⟨σ, exported, hframed⟩ := p.checkType_framed s h
  let r := checkRedeclared p.name p.span (p.checkType s).2
  have hredeclared := hframed.trans (checkRedeclared_framed p.name p.span (p.checkType s).2)
  have hscopes : r.2.context.scopes ≠ [] := by
    rw [← List.length_pos_iff, hredeclared.length_scopes]
    exact List.length_pos_iff.mpr h
  exact ⟨_, _, hredeclared.trans (r.2.context.framed_declare _ hscopes)⟩

section
variable {n : String} {Visible : String → Prop} {before : List Moment}

end

/-! ## Files and imports -/

section
variable {n : String} {Visible : String → Prop} {before : List Moment}

end

/-! ## Paths of entries -/

/-- The expression reads the entries of the path out of the variable `x`, one out of the other. -/
inductive Expr.Path (x : String) : List String → Expr → Prop
  | name (span : Span) : Path x [] (.name x span)
  | access {path : List String} {e : Expr} (h : Path x path e) (n : String) (span : Span) :
    Path x (path ++ [n]) (.access e n span)

section

-- The runs below are evaluated as a whole and not unfolded.
attribute [local irreducible] Workspace.check

end

end ShapeCheck
