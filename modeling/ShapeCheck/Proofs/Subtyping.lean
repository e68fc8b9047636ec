import Mathlib.Data.List.Forall2
import ShapeCheck.Ty.Subtype

/-!
# The rules of subtyping

A type is compared with another by its outermost form, and the parts are compared in turn. The
rules say what is compared where, so that proofs need not open the comparison itself. Strictly
compared, the types without `ignore` form a preorder.
-/

namespace ShapeCheck.Ty

/-! ## Induction on the parts of a type -/

section
variable {P : Ty → Prop}

@[elab_as_elim]
theorem induction_on_parts (t : Ty)
    (number : ∀ v, P (.number v))
    (string : ∀ v, P (.string v))
    (tuple : ∀ v items, (∀ x ∈ items, P x) → P (.tuple v items))
    (record : ∀ v entries, (∀ e ∈ entries, P e.2) → P (.record v entries))
    (function : ∀ v parameters result, (∀ x ∈ parameters, P x) → P result →
      P (.function v parameters result))
    (atom : ∀ a, (∀ x ∈ a.arguments, P x) → P (.atom a))
    (union : ∀ v atoms, (∀ a ∈ atoms, ∀ x ∈ a.arguments, P x) → P (.union v atoms))
    (placeholder : ∀ v id, P (.placeholder v id))
    (empty : P .empty)
    (ignore : P .ignore) : P t :=
  @Ty.rec P (fun ts => ∀ x ∈ ts, P x) (fun es => ∀ e ∈ es, P e.2)
    (fun a => ∀ x ∈ a.arguments, P x) (fun as => ∀ a ∈ as, ∀ x ∈ a.arguments, P x) (fun e => P e.2)
    number string tuple record function atom union placeholder empty ignore
    (by simp) (fun _ _ hx hxs => by simpa using ⟨hx, hxs⟩)
    (by simp) (fun _ _ he hes => List.forall_mem_cons.mpr ⟨he, hes⟩)
    (fun _ _ _ hxs => hxs)
    (by simp) (fun _ _ ha has => List.forall_mem_cons.mpr ⟨ha, has⟩)
    (fun _ _ hx => hx) t

end

section
variable {α β γ : Type} {R : α → β → Prop} {S : α → β → Prop}

/-- The induction hypothesis for parts, put to use on two lists that are compared. -/
theorem forall₂_of_parts {xs : List α} {ys : List β} (hxs : List.Forall₂ R xs ys)
    (h : ∀ x ∈ xs, ∀ y ∈ ys, R x y → S x y) : List.Forall₂ S xs ys := by
  induction hxs with
  | nil => exact .nil
  | @cons x y xs ys hxy _ ih =>
    refine .cons (h x (by simp) y (by simp) hxy) (ih ?_)
    exact fun x' hx' y' hy' => h x' (by simp [hx']) y' (by simp [hy'])

theorem forall₂_comp {T : β → γ → Prop} {xs : List α} {ys : List β} {zs : List γ}
    (hxs : List.Forall₂ R xs ys) (hys : List.Forall₂ T ys zs) :
    List.Forall₂ (fun x z => ∃ y, R x y ∧ T y z) xs zs := by
  induction hxs generalizing zs with
  | nil => cases hys; exact .nil
  | cons hx _ ih =>
    cases hys with
    | cons hy hys => exact .cons ⟨_, hx, hy⟩ (ih hys)

theorem exists_of_mem_left {xs : List α} {ys : List β} (h : List.Forall₂ R xs ys) {x : α}
    (hx : x ∈ xs) : ∃ y ∈ ys, R x y := by
  induction h with
  | nil => cases hx
  | @cons x' y xs ys hxy _ ih =>
    rcases List.mem_cons.mp hx with rfl | hx
    · exact ⟨y, by simp, hxy⟩
    · obtain ⟨y', hy', h⟩ := ih hx
      exact ⟨y', by simp [hy'], h⟩

end

/-! ## The rules -/

section
variable {mode : Mode}

theorem subtypes_iff {xs ys : List Ty} :
    subtypes mode xs ys ↔ List.Forall₂ (fun x y => subtype mode x y) xs ys := by
  induction xs generalizing ys with
  | nil => cases ys <;> simp [subtypes]
  | cons x xs ih => cases ys <;> simp [subtypes, ih]

theorem subentries_iff {xs ys : List (String × Ty)} :
    subentries mode xs ys ↔
      List.Forall₂ (fun x y => x.1 = y.1 ∧ subtype mode x.2 y.2) xs ys := by
  induction xs generalizing ys with
  | nil => cases ys <;> simp [subentries]
  | cons x xs ih => cases ys <;> simp [subentries, ih]

/-- Entries that stand at the same places bear the same names. -/
theorem names_eq_of_forall₂ {α β : Type} {R : α → β → Prop} {es : Entries α} {fs : Entries β}
    (h : List.Forall₂ (fun e f => e.1 = f.1 ∧ R e.2 f.2) es fs) : es.names = fs.names := by
  induction h with
  | nil => rfl
  | cons he _ ih => simp_all [Entries.names]

def FitsAtom (mode : Mode) (a b : Atom Ty) : Prop :=
  a.name = b.name ∧ List.Forall₂ (fun x y => subtype mode x y) a.arguments b.arguments

theorem subatom_iff {a b : Atom Ty} : subatom mode a b ↔ FitsAtom mode a b := by
  cases a
  simp [subatom, FitsAtom, subtypes_iff]

theorem subatoms_iff {as bs : List (Atom Ty)} :
    subatoms mode as bs ↔ ∀ a ∈ as, ∃ b ∈ bs, FitsAtom mode a b := by
  induction as with
  | nil => simp [subatoms]
  | cons a as ih => simp [subatoms, ih, subatom_iff]

/-- A call may still find out what one of the two types is. -/
def Unknown (mode : Mode) (a b : Ty) : Prop :=
  mode = .inferring ∧ (a.placeholder?.isSome ∨ b.placeholder?.isSome)

/-- What makes one known type fit another, with the parts still to be compared. -/
inductive Fits (mode : Mode) : Ty → Ty → Prop
  | number {v w} : Fits mode (.number v) (.number w)
  | string {v w} : Fits mode (.string v) (.string w)
  | tuple {v w xs ys} (h : List.Forall₂ (fun x y => subtype mode x y) xs ys) :
      Fits mode (.tuple v xs) (.tuple w ys)
  | record {v w xs ys}
      (h : List.Forall₂ (fun x y => x.1 = y.1 ∧ subtype mode x.2 y.2) xs ys) :
      Fits mode (.record v xs) (.record w ys)
  | function {v w ps qs r s} (hps : List.Forall₂ (fun p q => subtype mode p q) ps qs)
      (hr : subtype mode r s) : Fits mode (.function v ps r) (.function w qs s)
  | atom {a b} (h : FitsAtom mode a b) : Fits mode (.atom a) (.atom b)
  | member {a b bs w} (hb : b ∈ bs) (h : FitsAtom mode a b) : Fits mode (.atom a) (.union w bs)
  | union {v w as bs} (h : ∀ a ∈ as, ∃ b ∈ bs, FitsAtom mode a b) :
      Fits mode (.union v as) (.union w bs)
  | placeholder {v w i} : Fits mode (.placeholder v i) (.placeholder w i)
  | empty : Fits mode .empty .empty

theorem subtype_iff {a b : Ty} : subtype mode a b ↔ Unknown mode a b ∨ Fits mode a b := by
  by_cases hunknown : Unknown mode a b
  · have : subtype mode a b := by
      unfold subtype
      exact if_pos hunknown
    simp [this, hunknown]
  · simp only [hunknown, false_or]
    constructor
    · intro h
      unfold subtype at h
      rw [if_neg (show ¬ (_ ∧ _) from hunknown)] at h
      split at h
      · exact .number
      · exact .string
      · exact .tuple (subtypes_iff.mp h)
      · exact .record (subentries_iff.mp h)
      · rw [Bool.and_eq_true] at h
        exact .function (subtypes_iff.mp h.1) h.2
      · exact .atom (subatom_iff.mp h)
      · obtain ⟨b, hb, h⟩ := List.any_eq_true.mp h
        exact .member hb (subatom_iff.mp h)
      · exact .union (subatoms_iff.mp h)
      · cases beq_iff_eq.mp h
        exact .placeholder
      · exact .empty
      · cases h
    · intro h
      unfold subtype
      rw [if_neg (show ¬ (_ ∧ _) from hunknown)]
      cases h with
      | number => rfl
      | string => rfl
      | tuple h => exact subtypes_iff.mpr h
      | record h => exact subentries_iff.mpr h
      | function hps hr => exact Bool.and_eq_true_iff.mpr ⟨subtypes_iff.mpr hps, hr⟩
      | atom h => exact subatom_iff.mpr h
      | member hb h => exact List.any_eq_true.mpr ⟨_, hb, subatom_iff.mpr h⟩
      | union h => exact subatoms_iff.mpr h
      | placeholder => exact beq_self_eq_true _
      | empty => rfl

theorem Fits.subtype {a b : Ty} (h : Fits mode a b) : subtype mode a b :=
  subtype_iff.mpr (.inr h)

theorem fits_of_known {a b : Ty} (ha : a.placeholder? = none) (hb : b.placeholder? = none)
    (h : subtype mode a b) : Fits mode a b := by
  simpa [subtype_iff, Unknown, ha, hb] using h

theorem strict_iff {a b : Ty} : subtype .strict a b ↔ Fits .strict a b := by
  simp [subtype_iff, Unknown]

end

/-! ## Strict comparison -/

theorem FitsAtom.trans_of_parts {a b c : Atom Ty}
    (hparts : ∀ x ∈ a.arguments, ∀ {y z}, subtype .strict x y → subtype .strict y z →
      subtype .strict x z)
    (hab : FitsAtom .strict a b) (hbc : FitsAtom .strict b c) : FitsAtom .strict a c := by
  refine ⟨hab.1.trans hbc.1, ?_⟩
  exact forall₂_of_parts (forall₂_comp hab.2 hbc.2) fun x hx _ _ ⟨_, hxy, hyz⟩ =>
    hparts x hx hxy hyz

theorem subtype_trans {a b c : Ty} (hab : subtype .strict a b) (hbc : subtype .strict b c) :
    subtype .strict a c := by
  induction a using induction_on_parts generalizing b c with
  | number v =>
    cases strict_iff.mp hab
    cases strict_iff.mp hbc
    exact Fits.number.subtype
  | string v =>
    cases strict_iff.mp hab
    cases strict_iff.mp hbc
    exact Fits.string.subtype
  | tuple v items ih =>
    cases strict_iff.mp hab with | tuple hxs =>
    cases strict_iff.mp hbc with | tuple hys =>
    refine (Fits.tuple ?_).subtype
    exact forall₂_of_parts (forall₂_comp hxs hys) fun x hx _ _ ⟨_, hxy, hyz⟩ => ih x hx hxy hyz
  | record v entries ih =>
    cases strict_iff.mp hab with | record hxs =>
    cases strict_iff.mp hbc with | record hys =>
    refine (Fits.record ?_).subtype
    exact forall₂_of_parts (forall₂_comp hxs hys) fun x hx _ _ ⟨_, hxy, hyz⟩ =>
      ⟨hxy.1.trans hyz.1, ih x hx hxy.2 hyz.2⟩
  | function v parameters result ihs ih =>
    cases strict_iff.mp hab with | function hps hr =>
    cases strict_iff.mp hbc with | function hqs hs =>
    refine (Fits.function ?_ (ih hr hs)).subtype
    exact forall₂_of_parts (forall₂_comp hps hqs) fun p hp _ _ ⟨_, hpq, hq⟩ => ihs p hp hpq hq
  | atom a ih =>
    cases strict_iff.mp hab with
    | atom h =>
      cases strict_iff.mp hbc with
      | atom h' => exact (Fits.atom (h.trans_of_parts ih h')).subtype
      | member hc h' => exact (Fits.member hc (h.trans_of_parts ih h')).subtype
    | member hb h =>
      cases strict_iff.mp hbc with | union hbs =>
      -- the member above `a` is below a member of the next union
      obtain ⟨c, hc, h'⟩ := hbs _ hb
      exact (Fits.member hc (h.trans_of_parts ih h')).subtype
  | union v atoms ih =>
    cases strict_iff.mp hab with | union has =>
    cases strict_iff.mp hbc with | union hbs =>
    refine (Fits.union fun a ha => ?_).subtype
    obtain ⟨b, hb, hab⟩ := has a ha
    obtain ⟨c, hc, hbc⟩ := hbs b hb
    exact ⟨c, hc, hab.trans_of_parts (ih a ha) hbc⟩
  | placeholder v id =>
    cases strict_iff.mp hab
    cases strict_iff.mp hbc
    exact Fits.placeholder.subtype
  | empty =>
    cases strict_iff.mp hab
    exact hbc
  | ignore => cases strict_iff.mp hab

/-! ## Failure -/

theorem containsIgnore_tuple {v : Bool} {xs : List Ty} :
    (tuple v xs).containsIgnore = false ↔ ∀ x ∈ xs, x.containsIgnore = false := by
  simp [containsIgnore, anyContainsIgnore_eq_any]

theorem containsIgnore_record {v : Bool} {es : List (String × Ty)} :
    (record v es).containsIgnore = false ↔ ∀ e ∈ es, e.2.containsIgnore = false := by
  simp [containsIgnore, entriesContainIgnore_eq_any]

theorem containsIgnore_function {v : Bool} {ps : List Ty} {r : Ty} :
    (function v ps r).containsIgnore = false ↔
      (∀ p ∈ ps, p.containsIgnore = false) ∧ r.containsIgnore = false := by
  simp [containsIgnore, anyContainsIgnore_eq_any]

theorem atomContainsIgnore_eq_any (a : Atom Ty) :
    atomContainsIgnore a = a.arguments.any containsIgnore := by
  cases a
  exact anyContainsIgnore_eq_any _

theorem containsIgnore_atom {a : Atom Ty} :
    (atom a).containsIgnore = false ↔ ∀ x ∈ a.arguments, x.containsIgnore = false := by
  simp [containsIgnore, atomContainsIgnore_eq_any]

theorem containsIgnore_union {v : Bool} {as : List (Atom Ty)} :
    (union v as).containsIgnore = false ↔
      ∀ a ∈ as, ∀ x ∈ a.arguments, x.containsIgnore = false := by
  simp [containsIgnore, atomsContainIgnore_eq_any, atomContainsIgnore_eq_any]

theorem subtype_self {mode : Mode} {t : Ty} (h : t.containsIgnore = false) : subtype mode t t := by
  induction t using induction_on_parts with
  | number v => exact Fits.number.subtype
  | string v => exact Fits.string.subtype
  | tuple v items ih =>
    rw [containsIgnore_tuple] at h
    exact (Fits.tuple (List.forall₂_same.mpr fun x hx => ih x hx (h x hx))).subtype
  | record v entries ih =>
    rw [containsIgnore_record] at h
    exact (Fits.record (List.forall₂_same.mpr fun e he => ⟨rfl, ih e he (h e he)⟩)).subtype
  | function v parameters result ihs ih =>
    rw [containsIgnore_function] at h
    refine (Fits.function (List.forall₂_same.mpr fun x hx => ?_) (ih h.2)).subtype
    exact ihs x hx (h.1 x hx)
  | atom a ih =>
    rw [containsIgnore_atom] at h
    exact (Fits.atom ⟨rfl, List.forall₂_same.mpr fun x hx => ih x hx (h x hx)⟩).subtype
  | union v atoms ih =>
    rw [containsIgnore_union] at h
    refine (Fits.union fun a ha => ⟨a, ha, rfl, List.forall₂_same.mpr fun x hx => ?_⟩).subtype
    exact ih a ha x hx (h a ha x hx)
  | placeholder v id => exact Fits.placeholder.subtype
  | empty => exact Fits.empty.subtype
  | ignore => cases h

/-- Whatever fits something strictly has not failed anywhere. What it fits may have: a member of a
union that fits does not need the other members. -/
theorem containsIgnore_of_strict {a b : Ty} (h : subtype .strict a b) :
    a.containsIgnore = false := by
  induction a using induction_on_parts generalizing b with
  | number v => rfl
  | string v => rfl
  | tuple v items ih =>
    cases strict_iff.mp h with | tuple hxs =>
    rw [containsIgnore_tuple]
    intro x hx
    obtain ⟨y, -, hxy⟩ := exists_of_mem_left hxs hx
    exact ih x hx hxy
  | record v entries ih =>
    cases strict_iff.mp h with | record hxs =>
    rw [containsIgnore_record]
    intro x hx
    obtain ⟨y, -, -, hxy⟩ := exists_of_mem_left hxs hx
    exact ih x hx hxy
  | function v parameters result ihs ih =>
    cases strict_iff.mp h with | function hps hr =>
    rw [containsIgnore_function]
    refine ⟨fun p hp => ?_, ih hr⟩
    obtain ⟨q, -, hpq⟩ := exists_of_mem_left hps hp
    exact ihs p hp hpq
  | atom a ih =>
    obtain ⟨b, hab⟩ : ∃ b, FitsAtom .strict a b := by
      cases strict_iff.mp h with
      | atom hab => exact ⟨_, hab⟩
      | member _ hab => exact ⟨_, hab⟩
    rw [containsIgnore_atom]
    intro x hx
    obtain ⟨y, -, hxy⟩ := exists_of_mem_left hab.2 hx
    exact ih x hx hxy
  | union v atoms ih =>
    cases strict_iff.mp h with | union has =>
    rw [containsIgnore_union]
    intro a ha x hx
    obtain ⟨b, -, h⟩ := has a ha
    obtain ⟨y, -, hxy⟩ := exists_of_mem_left h.2 hx
    exact ih a ha x hx hxy
  | placeholder v id => rfl
  | empty => rfl
  | ignore => cases strict_iff.mp h

/-- Strict subtyping is a preorder on the types that have not failed. -/
theorem strict_preorder :
    (∀ a b c : Ty, subtype .strict a b → subtype .strict b c → subtype .strict a c) ∧
      ∀ t : Ty, subtype .strict t t ↔ t.containsIgnore = false :=
  ⟨fun _ _ _ => subtype_trans, fun _ => ⟨containsIgnore_of_strict, subtype_self⟩⟩

/-- An atom in a tuple is widened twice. A union is not below itself once a member has failed,
though another member is still below it. -/
theorem widened_twice :
    let none : Atom Ty := ⟨"none", [], true⟩
    let some : Atom Ty := ⟨"some", [.number false], false⟩
    let many : Atom Ty := ⟨"many", [.tuple false []], false⟩
    let failed : Atom Ty := ⟨"failed", [.ignore], false⟩
    subtype .strict (.tuple true [.atom none]) (.tuple false [.union false [many, some, none]]) ∧
      subtype .strict (.atom none) (.union false [failed, none]) ∧
      ¬ subtype .strict (.union false [failed, none]) (.union false [failed, none]) := by
  intro none some many failed
  refine ⟨?_, by decide, ?_⟩
  · exact strict_preorder.1 _ (.tuple true [.union true [none, some]]) _ (by decide) (by decide)
  · rw [strict_preorder.2]
    decide

end ShapeCheck.Ty
