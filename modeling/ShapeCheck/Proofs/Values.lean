import Mathlib.Data.Set.Defs
import ShapeCheck.Binary64
import ShapeCheck.Proofs.Subtyping

/-!
# The values of a type

A type of numbers, strings, tuples, records, atoms and unions stands for a set of values. Types
are compared place by place, and records by the order of their entries, where values are only
looked up by name. Still, what is a value of a subtype is a value of the type above it.
-/

namespace ShapeCheck

/-- What there is to compute with, apart from functions. -/
inductive Value where
  | number (value : Binary64)
  | string (text : String)
  | tuple (items : List Value)
  | record (entries : List (String × Value))
  | atom (name : String) (arguments : List Value)

namespace Ty

/-- `t.Holds x` says that `x` is a value of type `t`. No value counts as a function, as `empty` or
as a placeholder, and none comes out of what has failed. -/
inductive Holds : Ty → Value → Prop
  | number {v x} : Holds (.number v) (.number x)
  | string {v x} : Holds (.string v) (.string x)
  | tuple {v ts xs} (h : List.Forall₂ Holds ts xs) : Holds (.tuple v ts) (.tuple xs)
  /-- The same names, and under each name a value of the type of that name. -/
  | record {v es xs} (hnames : ∀ name, name ∈ Entries.names xs ↔ name ∈ Entries.names es)
      (h : ∀ name t x, (name, t) ∈ es → Entries.get? name xs = some x → Holds t x) :
      Holds (.record v es) (.record xs)
  | atom {a xs} (h : List.Forall₂ Holds a.arguments xs) : Holds (.atom a) (.atom a.name xs)
  | union {v as a x} (ha : a ∈ as) (h : Holds (.atom a) x) : Holds (.union v as) x

def values (t : Ty) : Set Value :=
  {x | t.Holds x}

/-! ## Comparison of the parts -/

def Widens (a : Ty) : Prop :=
  ∀ b x, subtype .strict a b → a.Holds x → b.Holds x

theorem holdsEach_of_widens {ts us : List Ty} {xs : List Value} (hwidens : ∀ t ∈ ts, t.Widens)
    (hsub : List.Forall₂ (fun t u => subtype .strict t u) ts us) (h : List.Forall₂ Holds ts xs) :
    List.Forall₂ Holds us xs := by
  have hwidened := forall₂_comp hsub.flip ((List.forall₂_and_left ts xs).mpr ⟨hwidens, h⟩)
  exact hwidened.imp fun u x ⟨t, htu, ht, hx⟩ => ht u x htu hx

theorem FitsAtom.holds_of_widens {a b : Atom Ty} {x : Value} (hab : FitsAtom .strict a b)
    (hwidens : ∀ t ∈ a.arguments, t.Widens) (h : (Ty.atom a).Holds x) : (Ty.atom b).Holds x := by
  cases h with
  | atom h =>
    rw [hab.1]
    exact .atom (holdsEach_of_widens hwidens hab.2 h)

theorem holds_record_of_widens {v w : Bool} {es fs : List (String × Ty)} {x : Value}
    (hwidens : ∀ e ∈ es, e.2.Widens)
    (hsub : List.Forall₂ (fun e f => e.1 = f.1 ∧ subtype .strict e.2 f.2) es fs)
    (h : (Ty.record v es).Holds x) : (Ty.record w fs).Holds x := by
  cases h with
  | record hnames h =>
    refine .record (fun name => ?_) fun name u x hu hx => ?_
    · rw [hnames, names_eq_of_forall₂ (R := fun t u => subtype .strict t u) hsub]
    · -- the entry of the subtype that stands where `(name, u)` does
      obtain ⟨⟨_, t⟩, he, rfl, ht⟩ := exists_of_mem_left hsub.flip hu
      exact hwidens _ he u x ht (h _ t x he hx)

theorem widens (a : Ty) : a.Widens := by
  induction a using induction_on_parts with
  | number v =>
    intro b x hab h
    cases strict_iff.mp hab
    cases h
    exact .number
  | string v =>
    intro b x hab h
    cases strict_iff.mp hab
    cases h
    exact .string
  | tuple v items ih =>
    intro b x hab h
    cases strict_iff.mp hab with | tuple hsub =>
    cases h with | tuple h =>
    exact .tuple (holdsEach_of_widens ih hsub h)
  | record v entries ih =>
    intro b x hab h
    cases strict_iff.mp hab with | record hsub =>
    exact holds_record_of_widens ih hsub h
  | atom a ih =>
    intro b x hab h
    cases strict_iff.mp hab with
    | atom hsub => exact hsub.holds_of_widens ih h
    | member hb hsub => exact .union hb (hsub.holds_of_widens ih h)
  | union v atoms ih =>
    intro b x hab h
    cases strict_iff.mp hab with | union has =>
    cases h with | union ha h =>
    obtain ⟨b, hb, hsub⟩ := has _ ha
    exact .union hb (hsub.holds_of_widens (ih _ ha) h)
  | function | placeholder | empty | ignore =>
    intro b x hab h
    cases h

theorem values_subset_of_subtype {a b : Ty} (h : subtype .strict a b) : a.values ⊆ b.values :=
  fun x hx => widens a b x h hx

/-- The entries of the value stand in another order than those of its types. -/
theorem optional_entry_widened :
    let none : Atom Ty := ⟨"none", [], true⟩
    let some : Atom Ty := ⟨"some", [.number false], false⟩
    let a : Ty := .record true [("label", .tuple true [.string true]), ("size", .atom none)]
    let b : Ty := .record false [("label", .tuple false [.string false]),
      ("size", .union false [some, none])]
    let x : Value := .record [("size", .atom "none" []), ("label", .tuple [.string "box"])]
    subtype .strict a b ∧ x ∈ a.values ∧ x ∈ b.values := by
  intro none some a b x
  have hab : subtype .strict a b := by decide
  have hx : x ∈ a.values := by
    refine Holds.record (fun name => by simp [Entries.names, or_comm]) fun name t y ht hy => ?_
    simp only [List.mem_cons, List.not_mem_nil, or_false, Prod.mk.injEq] at ht
    rcases ht with ⟨rfl, rfl⟩ | ⟨rfl, rfl⟩
    · cases hy
      exact .tuple (.cons .string .nil)
    · cases hy
      exact Holds.atom .nil
  exact ⟨hab, hx, values_subset_of_subtype hab hx⟩

end Ty

end ShapeCheck
