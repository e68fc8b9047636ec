import Mathlib.Data.List.Forall2
import ShapeCheck.Error
import ShapeCheck.Tree

/-!
# Trees that match

Two trees match when they differ at most in where their phrases stand. `ρ` says which places
correspond. Only the start of a span counts, because errors are reported nowhere else. All names
that are referred to or declared have to be among the names that are `seen`.
-/

namespace ShapeCheck

/-- A relation between lists that is given by recursion on the first one. -/
theorem forall₂_iff_of_cons {α β : Type} {R : α → β → Prop} {each : List α → List β → Prop}
    (nil : ∀ bs, each [] bs ↔ bs = [])
    (cons : ∀ a as bs, each (a :: as) bs ↔ ∃ b bs', bs = b :: bs' ∧ R a b ∧ each as bs') :
    ∀ {as : List α} {bs : List β}, each as bs ↔ List.Forall₂ R as bs := by
  intro as
  induction as with
  | nil =>
    intro bs
    rw [nil, List.forall₂_nil_left_iff]
  | cons a as ih =>
    intro bs
    rw [cons, List.forall₂_cons_left_iff]
    constructor
    · rintro ⟨b, bs', rfl, hab, heach⟩
      exact ⟨b, bs', hab, ih.mp heach, rfl⟩
    · rintro ⟨b, bs', hab, hrest, rfl⟩
      exact ⟨b, bs', rfl, hab, ih.mpr hrest⟩

section
variable (ρ : Position → Position → Prop) (seen : String → Bool)

/-! ## Type expressions -/

mutual
def TypeExpr.Matches : TypeExpr → TypeExpr → Prop
  | .name x s, u => ∃ s', u = .name x s' ∧ seen x ∧ ρ s.start s'.start
  | .number s, u => ∃ s', u = .number s' ∧ ρ s.start s'.start
  | .string s, u => ∃ s', u = .string s' ∧ ρ s.start s'.start
  | .tuple items s, u => ∃ items' s', u = .tuple items' s' ∧
    TypeExpr.MatchesEach items items' ∧ ρ s.start s'.start
  | .record entries s, u => ∃ entries' s', u = .record entries' s' ∧
    TypeExpr.MatchesEntries entries entries' ∧ ρ s.start s'.start
  | .access t entry s, u => ∃ t' s', u = .access t' entry s' ∧
    TypeExpr.Matches t t' ∧ ρ s.start s'.start
  | .function parameters result s, u => ∃ parameters' result' s',
    u = .function parameters' result' s' ∧ TypeExpr.MatchesEach parameters parameters' ∧
      TypeExpr.Matches result result' ∧ ρ s.start s'.start
  | .atom a, u => ∃ a', u = .atom a' ∧ TypeExpr.MatchesAtom a a'
  | .union atoms s, u => ∃ atoms' s', u = .union atoms' s' ∧
    TypeExpr.MatchesAtoms atoms atoms' ∧ ρ s.start s'.start
termination_by structural t => t
def TypeExpr.MatchesEach : List TypeExpr → List TypeExpr → Prop
  | [], us => us = []
  | t :: ts, us => ∃ t' ts', us = t' :: ts' ∧ TypeExpr.Matches t t' ∧ TypeExpr.MatchesEach ts ts'
termination_by structural ts => ts
def TypeExpr.MatchesEntries : List (String × TypeExpr) → List (String × TypeExpr) → Prop
  | [], us => us = []
  | (x, t) :: es, us => ∃ e' es', us = e' :: es' ∧ (x = e'.1 ∧ TypeExpr.Matches t e'.2) ∧
    TypeExpr.MatchesEntries es es'
termination_by structural es => es
def TypeExpr.MatchesAtom : AtomNode TypeExpr → AtomNode TypeExpr → Prop
  | ⟨x, arguments, s⟩, u => ∃ arguments' s', u = ⟨x, arguments', s'⟩ ∧
    TypeExpr.MatchesEach arguments arguments' ∧ ρ s.start s'.start
termination_by structural a => a
def TypeExpr.MatchesAtoms : List (AtomNode TypeExpr) → List (AtomNode TypeExpr) → Prop
  | [], us => us = []
  | a :: as, us => ∃ a' as', us = a' :: as' ∧ TypeExpr.MatchesAtom a a' ∧
    TypeExpr.MatchesAtoms as as'
termination_by structural as => as
end

structure Parameter.Matches (p p' : Parameter) : Prop where
  name_eq : p.name = p'.name
  seen_name : seen p.name
  declared : Option.Rel (TypeExpr.Matches ρ seen) p.declared p'.declared
  start : ρ p.span.start p'.span.start

/-! ## Expressions and statements -/

mutual
def Expr.Matches : Expr → Expr → Prop
  | .name x s, u => ∃ s', u = .name x s' ∧ seen x ∧ ρ s.start s'.start
  | .number value s, u => ∃ s', u = .number value s' ∧ ρ s.start s'.start
  | .string value s, u => ∃ s', u = .string value s' ∧ ρ s.start s'.start
  | .tuple items s, u => ∃ items' s', u = .tuple items' s' ∧
    Expr.MatchesEach items items' ∧ ρ s.start s'.start
  | .record entries s, u => ∃ entries' s', u = .record entries' s' ∧
    Expr.MatchesEntries entries entries' ∧ ρ s.start s'.start
  | .access e entry s, u => ∃ e' s', u = .access e' entry s' ∧
    Expr.Matches e e' ∧ ρ s.start s'.start
  | .function parameters body s, u => ∃ parameters' body' s',
    u = .function parameters' body' s' ∧
      List.Forall₂ (Parameter.Matches ρ seen) parameters parameters' ∧
      Stmt.Matches body body' ∧ ρ s.start s'.start
  | .call callee arguments s, u => ∃ callee' arguments' s', u = .call callee' arguments' s' ∧
    Expr.Matches callee callee' ∧ Expr.MatchesEach arguments arguments' ∧ ρ s.start s'.start
  | .importFile path s, u => ∃ s', u = .importFile path s' ∧ ρ s.start s'.start
  | .atom x arguments s, u => ∃ arguments' s', u = .atom x arguments' s' ∧
    Expr.MatchesEach arguments arguments' ∧ ρ s.start s'.start
termination_by structural e => e
def Expr.MatchesEach : List Expr → List Expr → Prop
  | [], us => us = []
  | e :: es, us => ∃ e' es', us = e' :: es' ∧ Expr.Matches e e' ∧ Expr.MatchesEach es es'
termination_by structural es => es
def Expr.MatchesEntries : List (String × Expr) → List (String × Expr) → Prop
  | [], us => us = []
  | (x, e) :: es, us => ∃ e' es', us = e' :: es' ∧ (x = e'.1 ∧ Expr.Matches e e'.2) ∧
    Expr.MatchesEntries es es'
termination_by structural es => es
def Expr.MatchesOptional : Option Expr → Option Expr → Prop
  | none, u => u = none
  | some e, u => ∃ e', u = some e' ∧ Expr.Matches e e'
termination_by structural e => e
def Stmt.MatchesAssignment : Assignment Expr → Assignment Expr → Prop
  | ⟨x, declared, value, s⟩, u => ∃ declared' value' s', u = ⟨x, declared', value', s'⟩ ∧ seen x ∧
    Option.Rel (TypeExpr.Matches ρ seen) declared declared' ∧ Expr.MatchesOptional value value' ∧
      ρ s.start s'.start
termination_by structural a => a
def Stmt.Matches : Stmt → Stmt → Prop
  | .block body s, u => ∃ body' s', u = .block body' s' ∧
    Stmt.MatchesEach body body' ∧ ρ s.start s'.start
  | .assign a, u => ∃ a', u = .assign a' ∧ Stmt.MatchesAssignment a a'
  | .exported a s, u => ∃ a' s', u = .exported a' s' ∧
    Stmt.MatchesAssignment a a' ∧ ρ s.start s'.start
  | .expr e, u => ∃ e', u = .expr e' ∧ Expr.Matches e e'
  | .type t, u => ∃ t', u = .type t' ∧ TypeExpr.Matches ρ seen t t'
termination_by structural s => s
def Stmt.MatchesEach : List Stmt → List Stmt → Prop
  | [], us => us = []
  | s :: ss, us => ∃ s' ss', us = s' :: ss' ∧ Stmt.Matches s s' ∧ Stmt.MatchesEach ss ss'
termination_by structural ss => ss
end

end

section
variable {ρ : Position → Position → Prop} {seen : String → Bool}

/-! ## Starts -/

theorem TypeExpr.MatchesAtom.start {a a' : AtomNode TypeExpr}
    (h : TypeExpr.MatchesAtom ρ seen a a') : ρ a.span.start a'.span.start := by
  obtain ⟨x, arguments, s⟩ := a
  obtain ⟨arguments', s', rfl, -, hs⟩ := h
  exact hs

theorem TypeExpr.Matches.start {t t' : TypeExpr} (h : t.Matches ρ seen t') :
    ρ t.span.start t'.span.start := by
  cases t with
  | name => obtain ⟨s', rfl, -, hs⟩ := h; exact hs
  | number | string => obtain ⟨s', rfl, hs⟩ := h; exact hs
  | tuple | record | access | union => obtain ⟨_, s', rfl, -, hs⟩ := h; exact hs
  | function => obtain ⟨_, _, s', rfl, -, -, hs⟩ := h; exact hs
  | atom => obtain ⟨a', rfl, ha⟩ := h; exact ha.start

theorem Expr.Matches.start {e e' : Expr} (h : e.Matches ρ seen e') :
    ρ e.span.start e'.span.start := by
  cases e with
  | name => obtain ⟨s', rfl, -, hs⟩ := h; exact hs
  | number | string | importFile => obtain ⟨s', rfl, hs⟩ := h; exact hs
  | tuple | record | access | atom => obtain ⟨_, s', rfl, -, hs⟩ := h; exact hs
  | function | call => obtain ⟨_, _, s', rfl, -, -, hs⟩ := h; exact hs

section
variable {a a' : Assignment Expr} (h : Stmt.MatchesAssignment ρ seen a a')
include h

theorem Stmt.MatchesAssignment.name_eq : a.name = a'.name := by
  obtain ⟨x, declared, value, s⟩ := a
  obtain ⟨declared', value', s', rfl, -⟩ := h
  rfl

theorem Stmt.MatchesAssignment.seen_name : seen a.name := by
  obtain ⟨x, declared, value, s⟩ := a
  obtain ⟨declared', value', s', rfl, hx, -⟩ := h
  exact hx

theorem Stmt.MatchesAssignment.start : ρ a.span.start a'.span.start := by
  obtain ⟨x, declared, value, s⟩ := a
  obtain ⟨declared', value', s', rfl, -, -, -, hs⟩ := h
  exact hs

end

/-! ## Lists -/

def EntryMatches {α β : Type} (R : α → β → Prop) (e : String × α) (e' : String × β) : Prop :=
  e.1 = e'.1 ∧ R e.2 e'.2

theorem TypeExpr.matchesEach_iff {ts us : List TypeExpr} :
    MatchesEach ρ seen ts us ↔ List.Forall₂ (Matches ρ seen) ts us :=
  forall₂_iff_of_cons (fun _ => Iff.rfl) (fun _ _ _ => Iff.rfl)

theorem TypeExpr.matchesEntries_iff {es us : List (String × TypeExpr)} :
    MatchesEntries ρ seen es us ↔ List.Forall₂ (EntryMatches (Matches ρ seen)) es us :=
  forall₂_iff_of_cons (fun _ => Iff.rfl) (fun _ _ _ => Iff.rfl)

theorem TypeExpr.matchesAtoms_iff {as us : List (AtomNode TypeExpr)} :
    MatchesAtoms ρ seen as us ↔ List.Forall₂ (MatchesAtom ρ seen) as us :=
  forall₂_iff_of_cons (fun _ => Iff.rfl) (fun _ _ _ => Iff.rfl)

theorem Expr.matchesEach_iff {es us : List Expr} :
    MatchesEach ρ seen es us ↔ List.Forall₂ (Matches ρ seen) es us :=
  forall₂_iff_of_cons (fun _ => Iff.rfl) (fun _ _ _ => Iff.rfl)

theorem Expr.matchesEntries_iff {es us : List (String × Expr)} :
    MatchesEntries ρ seen es us ↔ List.Forall₂ (EntryMatches (Matches ρ seen)) es us :=
  forall₂_iff_of_cons (fun _ => Iff.rfl) (fun _ _ _ => Iff.rfl)

theorem Stmt.matchesEach_iff {ss us : List Stmt} :
    MatchesEach ρ seen ss us ↔ List.Forall₂ (Matches ρ seen) ss us :=
  forall₂_iff_of_cons (fun _ => Iff.rfl) (fun _ _ _ => Iff.rfl)

end

/-! ## What texts parse to -/

/-- The places at which errors correspond, whatever they are about. -/
def placesOf (E : Error → Error → Prop) (p p' : Position) : Prop :=
  ∀ cause, E ⟨cause, p⟩ ⟨cause, p'⟩

inductive ParsedAlike (E : Error → Error → Prop) (seen : String → Bool) :
    Option (Except Error Stmt) → Option (Except Error Stmt) → Prop
  | missing : ParsedAlike E seen none none
  | unparsable {e e' : Error} : E e e' → ParsedAlike E seen (some (.error e)) (some (.error e'))
  | parsed {tree tree' : Stmt} : tree.Matches (placesOf E) seen tree' →
    ParsedAlike E seen (some (.ok tree)) (some (.ok tree'))

/-! ## The names in a tree -/

mutual
/-- The variables whose types a type expression refers to. -/
def TypeExpr.names : TypeExpr → List String
  | .name x _ => [x]
  | .number _ | .string _ => []
  | .tuple items _ => TypeExpr.namesEach items
  | .record entries _ => TypeExpr.namesEntries entries
  | .access t _ _ => TypeExpr.names t
  | .function parameters result _ => TypeExpr.namesEach parameters ++ TypeExpr.names result
  | .atom a => TypeExpr.namesAtom a
  | .union atoms _ => TypeExpr.namesAtoms atoms
termination_by structural t => t
def TypeExpr.namesEach : List TypeExpr → List String
  | [] => []
  | t :: ts => TypeExpr.names t ++ TypeExpr.namesEach ts
termination_by structural ts => ts
def TypeExpr.namesEntries : List (String × TypeExpr) → List String
  | [] => []
  | (_, t) :: es => TypeExpr.names t ++ TypeExpr.namesEntries es
termination_by structural es => es
def TypeExpr.namesAtom : AtomNode TypeExpr → List String
  | ⟨_, arguments, _⟩ => TypeExpr.namesEach arguments
termination_by structural a => a
def TypeExpr.namesAtoms : List (AtomNode TypeExpr) → List String
  | [] => []
  | a :: as => TypeExpr.namesAtom a ++ TypeExpr.namesAtoms as
termination_by structural as => as
end

def TypeExpr.namesOptional : Option TypeExpr → List String
  | none => []
  | some t => t.names

def Parameter.names (p : Parameter) : List String :=
  p.name :: TypeExpr.namesOptional p.declared

mutual
def Expr.names : Expr → List String
  | .name x _ => [x]
  | .number _ _ | .string _ _ | .importFile _ _ => []
  | .tuple items _ => Expr.namesEach items
  | .record entries _ => Expr.namesEntries entries
  | .access e _ _ => Expr.names e
  | .function parameters body _ => parameters.flatMap Parameter.names ++ Stmt.names body
  | .call callee arguments _ => Expr.names callee ++ Expr.namesEach arguments
  | .atom _ arguments _ => Expr.namesEach arguments
termination_by structural e => e
def Expr.namesEach : List Expr → List String
  | [] => []
  | e :: es => Expr.names e ++ Expr.namesEach es
termination_by structural es => es
def Expr.namesEntries : List (String × Expr) → List String
  | [] => []
  | (_, e) :: es => Expr.names e ++ Expr.namesEntries es
termination_by structural es => es
def Expr.namesOptional : Option Expr → List String
  | none => []
  | some e => Expr.names e
termination_by structural e => e
def Stmt.namesAssignment : Assignment Expr → List String
  | ⟨x, declared, value, _⟩ =>
    x :: (TypeExpr.namesOptional declared ++ Expr.namesOptional value)
termination_by structural a => a
def Stmt.names : Stmt → List String
  | .block body _ => Stmt.namesEach body
  | .assign a => Stmt.namesAssignment a
  | .exported a _ => Stmt.namesAssignment a
  | .expr e => Expr.names e
  | .type t => TypeExpr.names t
termination_by structural s => s
def Stmt.namesEach : List Stmt → List String
  | [] => []
  | s :: ss => Stmt.names s ++ Stmt.namesEach ss
termination_by structural ss => ss
end

/-! ## A tree matches itself -/

def AllSeen (seen : String → Bool) (xs : List String) : Prop :=
  ∀ x ∈ xs, seen x

section
variable {ρ : Position → Position → Prop} {seen : String → Bool} {x : String} {xs ys : List String}

theorem AllSeen.head (h : AllSeen seen (x :: xs)) : seen x :=
  h x List.mem_cons_self

theorem AllSeen.tail (h : AllSeen seen (x :: xs)) : AllSeen seen xs :=
  fun y hy => h y (List.mem_cons_of_mem x hy)

theorem AllSeen.left (h : AllSeen seen (xs ++ ys)) : AllSeen seen xs :=
  fun y hy => h y (List.mem_append_left ys hy)

theorem AllSeen.right (h : AllSeen seen (xs ++ ys)) : AllSeen seen ys :=
  fun y hy => h y (List.mem_append_right xs hy)

mutual
theorem TypeExpr.matches_self (hρ : ∀ p, ρ p p) :
    ∀ t : TypeExpr, AllSeen seen t.names → t.Matches ρ seen t
  | .name _ s, h => ⟨s, rfl, h.head, hρ _⟩
  | .number s, _ => ⟨s, rfl, hρ _⟩
  | .string s, _ => ⟨s, rfl, hρ _⟩
  | .tuple items s, h => ⟨items, s, rfl, TypeExpr.matchesEach_self hρ items h, hρ _⟩
  | .record entries s, h => ⟨entries, s, rfl, TypeExpr.matchesEntries_self hρ entries h, hρ _⟩
  | .access t _ s, h => ⟨t, s, rfl, TypeExpr.matches_self hρ t h, hρ _⟩
  | .function parameters result s, h =>
    ⟨parameters, result, s, rfl, TypeExpr.matchesEach_self hρ parameters h.left,
      TypeExpr.matches_self hρ result h.right, hρ _⟩
  | .atom a, h => ⟨a, rfl, TypeExpr.matchesAtom_self hρ a h⟩
  | .union atoms s, h => ⟨atoms, s, rfl, TypeExpr.matchesAtoms_self hρ atoms h, hρ _⟩
termination_by structural t => t
theorem TypeExpr.matchesEach_self (hρ : ∀ p, ρ p p) :
    ∀ ts : List TypeExpr, AllSeen seen (TypeExpr.namesEach ts) →
    TypeExpr.MatchesEach ρ seen ts ts
  | [], _ => rfl
  | t :: ts, h =>
    ⟨t, ts, rfl, TypeExpr.matches_self hρ t h.left, TypeExpr.matchesEach_self hρ ts h.right⟩
termination_by structural ts => ts
theorem TypeExpr.matchesEntries_self (hρ : ∀ p, ρ p p) : ∀ es : List (String × TypeExpr),
    AllSeen seen (TypeExpr.namesEntries es) → TypeExpr.MatchesEntries ρ seen es es
  | [], _ => rfl
  | (x, t) :: es, h =>
    ⟨(x, t), es, rfl, ⟨rfl, TypeExpr.matches_self hρ t h.left⟩,
      TypeExpr.matchesEntries_self hρ es h.right⟩
termination_by structural es => es
theorem TypeExpr.matchesAtom_self (hρ : ∀ p, ρ p p) :
    ∀ a : AtomNode TypeExpr, AllSeen seen (TypeExpr.namesAtom a) →
    TypeExpr.MatchesAtom ρ seen a a
  | ⟨_, arguments, s⟩, h => ⟨arguments, s, rfl, TypeExpr.matchesEach_self hρ arguments h, hρ _⟩
termination_by structural a => a
theorem TypeExpr.matchesAtoms_self (hρ : ∀ p, ρ p p) : ∀ as : List (AtomNode TypeExpr),
    AllSeen seen (TypeExpr.namesAtoms as) → TypeExpr.MatchesAtoms ρ seen as as
  | [], _ => rfl
  | a :: as, h =>
    ⟨a, as, rfl, TypeExpr.matchesAtom_self hρ a h.left, TypeExpr.matchesAtoms_self hρ as h.right⟩
termination_by structural as => as
end

theorem TypeExpr.matchesOptional_self (hρ : ∀ p, ρ p p) {t : Option TypeExpr}
    (h : AllSeen seen (TypeExpr.namesOptional t)) : Option.Rel (TypeExpr.Matches ρ seen) t t := by
  cases t with
  | none => exact .none
  | some t => exact .some (TypeExpr.matches_self hρ t h)

theorem Parameter.matchesEach_self (hρ : ∀ p, ρ p p) : ∀ ps : List Parameter,
    AllSeen seen (ps.flatMap Parameter.names) → List.Forall₂ (Parameter.Matches ρ seen) ps ps
  | [], _ => .nil
  | p :: ps, h => by
    rw [List.flatMap_cons] at h
    exact .cons ⟨rfl, h.left.head, TypeExpr.matchesOptional_self hρ h.left.tail, hρ _⟩
      (Parameter.matchesEach_self hρ ps h.right)

mutual
theorem Expr.matches_self (hρ : ∀ p, ρ p p) : ∀ e : Expr, AllSeen seen e.names → e.Matches ρ seen e
  | .name _ s, h => ⟨s, rfl, h.head, hρ _⟩
  | .number _ s, _ => ⟨s, rfl, hρ _⟩
  | .string _ s, _ => ⟨s, rfl, hρ _⟩
  | .tuple items s, h => ⟨items, s, rfl, Expr.matchesEach_self hρ items h, hρ _⟩
  | .record entries s, h => ⟨entries, s, rfl, Expr.matchesEntries_self hρ entries h, hρ _⟩
  | .access e _ s, h => ⟨e, s, rfl, Expr.matches_self hρ e h, hρ _⟩
  | .function parameters body s, h =>
    ⟨parameters, body, s, rfl, Parameter.matchesEach_self hρ parameters h.left,
      Stmt.matches_self hρ body h.right, hρ _⟩
  | .call callee arguments s, h =>
    ⟨callee, arguments, s, rfl, Expr.matches_self hρ callee h.left,
      Expr.matchesEach_self hρ arguments h.right, hρ _⟩
  | .importFile _ s, _ => ⟨s, rfl, hρ _⟩
  | .atom _ arguments s, h => ⟨arguments, s, rfl, Expr.matchesEach_self hρ arguments h, hρ _⟩
termination_by structural e => e
theorem Expr.matchesEach_self (hρ : ∀ p, ρ p p) :
    ∀ es : List Expr, AllSeen seen (Expr.namesEach es) →
    Expr.MatchesEach ρ seen es es
  | [], _ => rfl
  | e :: es, h => ⟨e, es, rfl, Expr.matches_self hρ e h.left, Expr.matchesEach_self hρ es h.right⟩
termination_by structural es => es
theorem Expr.matchesEntries_self (hρ : ∀ p, ρ p p) :
    ∀ es : List (String × Expr), AllSeen seen (Expr.namesEntries es) →
    Expr.MatchesEntries ρ seen es es
  | [], _ => rfl
  | (x, e) :: es, h =>
    ⟨(x, e), es, rfl, ⟨rfl, Expr.matches_self hρ e h.left⟩, Expr.matchesEntries_self hρ es h.right⟩
termination_by structural es => es
theorem Expr.matchesOptional_self (hρ : ∀ p, ρ p p) :
    ∀ e : Option Expr, AllSeen seen (Expr.namesOptional e) →
    Expr.MatchesOptional ρ seen e e
  | none, _ => rfl
  | some e, h => ⟨e, rfl, Expr.matches_self hρ e h⟩
termination_by structural e => e
theorem Stmt.matchesAssignment_self (hρ : ∀ p, ρ p p) : ∀ a : Assignment Expr,
    AllSeen seen (Stmt.namesAssignment a) → Stmt.MatchesAssignment ρ seen a a
  | ⟨_, declared, value, s⟩, h =>
    ⟨declared, value, s, rfl, h.head, TypeExpr.matchesOptional_self hρ h.tail.left,
      Expr.matchesOptional_self hρ value h.tail.right, hρ _⟩
termination_by structural a => a
theorem Stmt.matches_self (hρ : ∀ p, ρ p p) : ∀ s : Stmt, AllSeen seen s.names → s.Matches ρ seen s
  | .block body s, h => ⟨body, s, rfl, Stmt.matchesEach_self hρ body h, hρ _⟩
  | .assign a, h => ⟨a, rfl, Stmt.matchesAssignment_self hρ a h⟩
  | .exported a s, h => ⟨a, s, rfl, Stmt.matchesAssignment_self hρ a h, hρ _⟩
  | .expr e, h => ⟨e, rfl, Expr.matches_self hρ e h⟩
  | .type t, h => ⟨t, rfl, TypeExpr.matches_self hρ t h⟩
termination_by structural s => s
theorem Stmt.matchesEach_self (hρ : ∀ p, ρ p p) :
    ∀ ss : List Stmt, AllSeen seen (Stmt.namesEach ss) →
    Stmt.MatchesEach ρ seen ss ss
  | [], _ => rfl
  | s :: ss, h => ⟨s, ss, rfl, Stmt.matches_self hρ s h.left, Stmt.matchesEach_self hρ ss h.right⟩
termination_by structural ss => ss
end

end

end ShapeCheck
