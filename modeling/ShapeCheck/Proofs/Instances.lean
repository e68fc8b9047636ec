import ShapeCheck.Proofs.Leaves
import ShapeCheck.Proofs.Subtyping

/-!
# Instances of a type

An instance of a type has types in the place of its placeholders, the same one wherever a
placeholder stands. A call compares types before it is known what their placeholders are. It
refuses nothing that some instance would be accepted for.
-/

namespace ShapeCheck.Ty

abbrev Replacement := Nat → Ty

section
variable (θ : Replacement)

mutual
/-- The type with all its placeholders replaced at once. As in a substitution, marks are taken
over. -/
def replace : Ty → Ty
  | placeholder v i => (θ i).withValue v
  | tuple v items => tuple v (replaceEach items)
  | record v entries => record v (replaceEntries entries)
  | function v parameters result => function v (replaceEach parameters) (replace result)
  | atom a => atom (replaceAtom a)
  | union v atoms => union v (replaceAtoms atoms)
  | number v => number v
  | string v => string v
  | empty => empty
  | ignore => ignore
def replaceEach : List Ty → List Ty
  | [] => []
  | t :: ts => replace t :: replaceEach ts
def replaceEntries : List (String × Ty) → List (String × Ty)
  | [] => []
  | (name, t) :: es => (name, replace t) :: replaceEntries es
def replaceAtom : Atom Ty → Atom Ty
  | ⟨name, arguments, v⟩ => ⟨name, replaceEach arguments, v⟩
def replaceAtoms : List (Atom Ty) → List (Atom Ty)
  | [] => []
  | a :: as => replaceAtom a :: replaceAtoms as
end

theorem replaceEach_eq_map (ts : List Ty) : replaceEach θ ts = ts.map (replace θ) := by
  induction ts with
  | nil => rfl
  | cons t ts ih => simp [replaceEach, ih]

theorem replaceEntries_eq_map (es : List (String × Ty)) :
    replaceEntries θ es = es.map fun e => (e.1, replace θ e.2) := by
  induction es with
  | nil => rfl
  | cons e es ih => simp [replaceEntries, ih]

theorem replaceAtoms_eq_map (as : List (Atom Ty)) :
    replaceAtoms θ as = as.map (replaceAtom θ) := by
  induction as with
  | nil => rfl
  | cons a as ih => simp [replaceAtoms, ih]

theorem replaceAtom_eq (a : Atom Ty) :
    replaceAtom θ a = ⟨a.name, a.arguments.map (replace θ), a.hasValue⟩ := by
  cases a
  rw [replaceAtom, replaceEach_eq_map]

end

/-! ## Comparison of instances -/

section
variable {θ : Replacement} {mode : Mode}

theorem subtype_of_placeholder {v : Bool} {i : Nat} {b : Ty} :
    subtype .inferring (.placeholder v i) b :=
  subtype_iff.mpr (.inl ⟨rfl, .inl rfl⟩)

theorem subtype_placeholder {v : Bool} {i : Nat} {a : Ty} :
    subtype .inferring a (.placeholder v i) :=
  subtype_iff.mpr (.inl ⟨rfl, .inr rfl⟩)

theorem FitsAtom.of_replace {a b : Atom Ty}
    (hparts : ∀ x ∈ a.arguments, ∀ {y}, subtype mode (x.replace θ) (y.replace θ) →
      subtype .inferring x y)
    (h : FitsAtom mode (replaceAtom θ a) (replaceAtom θ b)) : FitsAtom .inferring a b := by
  rw [replaceAtom_eq, replaceAtom_eq] at h
  obtain ⟨hname, hxs⟩ := h
  rw [List.forall₂_map_left_iff, List.forall₂_map_right_iff] at hxs
  exact ⟨hname, forall₂_of_parts hxs fun x hx _ _ => hparts x hx⟩

theorem subtype_of_replace {a b : Ty} (h : subtype mode (a.replace θ) (b.replace θ)) :
    subtype .inferring a b := by
  induction a using induction_on_parts generalizing b with
  | placeholder v i => exact subtype_of_placeholder
  | number v =>
    cases b with
    | placeholder => exact subtype_placeholder
    | number => exact Fits.number.subtype
    | _ => cases fits_of_known rfl rfl h
  | string v =>
    cases b with
    | placeholder => exact subtype_placeholder
    | string => exact Fits.string.subtype
    | _ => cases fits_of_known rfl rfl h
  | tuple v items ih =>
    cases b with
    | placeholder => exact subtype_placeholder
    | tuple w ys =>
      cases fits_of_known rfl rfl h with | tuple hxs =>
      rw [replaceEach_eq_map, replaceEach_eq_map, List.forall₂_map_left_iff,
        List.forall₂_map_right_iff] at hxs
      exact (Fits.tuple (forall₂_of_parts hxs fun x hx _ _ => ih x hx)).subtype
    | _ => cases fits_of_known rfl rfl h
  | record v entries ih =>
    cases b with
    | placeholder => exact subtype_placeholder
    | record w ys =>
      cases fits_of_known rfl rfl h with | record hxs =>
      rw [replaceEntries_eq_map, replaceEntries_eq_map, List.forall₂_map_left_iff,
        List.forall₂_map_right_iff] at hxs
      refine (Fits.record (forall₂_of_parts hxs fun x hx _ _ hxy => ?_)).subtype
      exact ⟨hxy.1, ih x hx hxy.2⟩
    | _ => cases fits_of_known rfl rfl h
  | function v parameters result ihs ih =>
    cases b with
    | placeholder => exact subtype_placeholder
    | function w qs s =>
      cases fits_of_known rfl rfl h with | function hps hr =>
      rw [replaceEach_eq_map, replaceEach_eq_map, List.forall₂_map_left_iff,
        List.forall₂_map_right_iff] at hps
      exact (Fits.function (forall₂_of_parts hps fun p hp _ _ => ihs p hp) (ih hr)).subtype
    | _ => cases fits_of_known rfl rfl h
  | atom a ih =>
    cases b with
    | placeholder => exact subtype_placeholder
    | atom b =>
      cases fits_of_known rfl rfl h with | atom hab =>
      exact (Fits.atom (hab.of_replace ih)).subtype
    | union w bs =>
      cases fits_of_known rfl rfl h with | member hb' hab =>
      rw [replaceAtoms_eq_map] at hb'
      obtain ⟨b, hb, rfl⟩ := List.mem_map.mp hb'
      exact (Fits.member hb (hab.of_replace ih)).subtype
    | _ => cases fits_of_known rfl rfl h
  | union v atoms ih =>
    cases b with
    | placeholder => exact subtype_placeholder
    | union w bs =>
      cases fits_of_known rfl rfl h with | union has =>
      rw [replaceAtoms_eq_map, replaceAtoms_eq_map] at has
      refine (Fits.union fun a ha => ?_).subtype
      obtain ⟨b', hb', hab⟩ := has _ (List.mem_map_of_mem ha)
      obtain ⟨b, hb, rfl⟩ := List.mem_map.mp hb'
      exact ⟨b, hb, hab.of_replace (ih a ha)⟩
    | _ => cases fits_of_known rfl rfl h
  | empty =>
    cases b with
    | placeholder => exact subtype_placeholder
    | empty => exact Fits.empty.subtype
    | _ => cases fits_of_known rfl rfl h
  | ignore =>
    cases b with
    | placeholder => exact subtype_placeholder
    | _ => cases fits_of_known rfl rfl h

end

/-! ## Types as instances of themselves -/

theorem map_eq_self {α : Type} {f : α → α} {xs : List α} (h : ∀ x ∈ xs, f x = x) :
    xs.map f = xs :=
  (List.map_congr_left h).trans (List.map_id xs)

theorem replace_placeholder (t : Ty) : t.replace (.placeholder true) = t := by
  induction t using induction_on_parts with
  | tuple v items ih => rw [replace, replaceEach_eq_map, map_eq_self ih]
  | record v entries ih =>
    rw [replace, replaceEntries_eq_map, map_eq_self]
    intro e he
    rw [ih e he]
  | function v parameters result ihs ih => rw [replace, replaceEach_eq_map, map_eq_self ihs, ih]
  | atom a ih => rw [replace, replaceAtom_eq, map_eq_self ih]
  | union v atoms ih =>
    rw [replace, replaceAtoms_eq_map, map_eq_self]
    intro a ha
    rw [replaceAtom_eq, map_eq_self (ih a ha)]
  | _ => rfl

theorem inferring_of_strict {a b : Ty} (h : subtype .strict a b) : subtype .inferring a b := by
  rw [← replace_placeholder a, ← replace_placeholder b] at h
  exact subtype_of_replace h

/-! ## Types without placeholders -/

def Settled (t : Ty) : Prop :=
  ∀ id, .placeholder id ∉ t.leaves

theorem Settled.placeholder? {t : Ty} (h : t.Settled) : t.placeholder? = none := by
  cases t with
  | placeholder v i => exact absurd (List.mem_singleton_self _) (h i)
  | _ => rfl

theorem settled_tuple {v : Bool} {xs : List Ty} :
    (tuple v xs).Settled ↔ ∀ x ∈ xs, x.Settled := by
  simp only [Settled, leaves, mem_leavesEach]
  grind

theorem settled_record {v : Bool} {es : List (String × Ty)} :
    (record v es).Settled ↔ ∀ e ∈ es, e.2.Settled := by
  simp only [Settled, leaves, mem_leavesEntries]
  grind

theorem settled_function {v : Bool} {ps : List Ty} {r : Ty} :
    (function v ps r).Settled ↔ (∀ p ∈ ps, p.Settled) ∧ r.Settled := by
  simp only [Settled, leaves, List.mem_append, mem_leavesEach]
  grind

theorem settled_atom {a : Atom Ty} : (atom a).Settled ↔ ∀ x ∈ a.arguments, x.Settled := by
  simp only [Settled, leaves, mem_leavesAtom]
  grind

theorem settled_union {v : Bool} {as : List (Atom Ty)} :
    (union v as).Settled ↔ ∀ a ∈ as, (atom a).Settled := by
  simp only [Settled, leaves, mem_leavesAtoms, mem_leavesAtom]
  grind

section
variable {mode : Mode}

theorem FitsAtom.strict_of_parts {a b : Atom Ty} (ha : (atom a).Settled) (hb : (atom b).Settled)
    (hparts : ∀ x ∈ a.arguments, ∀ {y}, x.Settled → y.Settled → subtype mode x y →
      subtype .strict x y)
    (h : FitsAtom mode a b) : FitsAtom .strict a b := by
  rw [settled_atom] at ha hb
  exact ⟨h.1, forall₂_of_parts h.2 fun x hx y hy => hparts x hx (ha x hx) (hb y hy)⟩

theorem strict_of_settled {a b : Ty} (ha : a.Settled) (hb : b.Settled) (h : subtype mode a b) :
    subtype .strict a b := by
  induction a using induction_on_parts generalizing b with
  | number v =>
    cases fits_of_known rfl hb.placeholder? h
    exact Fits.number.subtype
  | string v =>
    cases fits_of_known rfl hb.placeholder? h
    exact Fits.string.subtype
  | tuple v items ih =>
    cases fits_of_known rfl hb.placeholder? h with | tuple hxs =>
    rw [settled_tuple] at ha hb
    refine (Fits.tuple (forall₂_of_parts hxs fun x hx y hy => ?_)).subtype
    exact ih x hx (ha x hx) (hb y hy)
  | record v entries ih =>
    cases fits_of_known rfl hb.placeholder? h with | record hxs =>
    rw [settled_record] at ha hb
    refine (Fits.record (forall₂_of_parts hxs fun x hx y hy hxy => ⟨hxy.1, ?_⟩)).subtype
    exact ih x hx (ha x hx) (hb y hy) hxy.2
  | function v parameters result ihs ih =>
    cases fits_of_known rfl hb.placeholder? h with | function hps hr =>
    rw [settled_function] at ha hb
    refine (Fits.function (forall₂_of_parts hps fun p hp q hq => ?_) (ih ha.2 hb.2 hr)).subtype
    exact ihs p hp (ha.1 p hp) (hb.1 q hq)
  | atom a ih =>
    cases fits_of_known rfl hb.placeholder? h with
    | atom hab => exact (Fits.atom (hab.strict_of_parts ha hb ih)).subtype
    | member hm hab =>
      rw [settled_union] at hb
      exact (Fits.member hm (hab.strict_of_parts ha (hb _ hm) ih)).subtype
  | union v atoms ih =>
    cases fits_of_known rfl hb.placeholder? h with | union has =>
    rw [settled_union] at ha hb
    refine (Fits.union fun a ham => ?_).subtype
    obtain ⟨b, hbm, hab⟩ := has a ham
    exact ⟨b, hbm, hab.strict_of_parts (ha a ham) (hb b hbm) (ih a ham)⟩
  | placeholder v i => exact absurd (List.mem_singleton_self _) (ha i)
  | empty =>
    cases fits_of_known rfl hb.placeholder? h
    exact Fits.empty.subtype
  | ignore => cases fits_of_known rfl hb.placeholder? h

end

/-- What an instance is accepted for strictly, a call accepts before the instance is known. Where
nothing is left to find out, the two ways to compare are one. -/
theorem inferring_accepts_instances :
    (∀ (θ : Replacement) (a b : Ty), subtype .strict (a.replace θ) (b.replace θ) →
      subtype .inferring a b) ∧
    (∀ a b : Ty, subtype .strict a b → subtype .inferring a b) ∧
    ∀ a b : Ty, a.Settled → b.Settled → subtype .inferring a b = subtype .strict a b := by
  refine ⟨fun θ a b => subtype_of_replace, fun a b => inferring_of_strict, fun a b ha hb => ?_⟩
  exact Bool.eq_iff_iff.mpr ⟨strict_of_settled ha hb, inferring_of_strict⟩

/-- One placeholder becomes a member of a union and another a union around an atom. Without the
instance the two types are not accepted strictly. -/
theorem optional_instance_accepted :
    let none : Atom Ty := ⟨"none", [], true⟩
    let some : Ty → Atom Ty := fun t => ⟨"some", [t], true⟩
    let a : Ty := .tuple true [.placeholder true 0, .atom (some (.placeholder true 1))]
    let b : Ty := .tuple false [.union false [none, some (.number false)],
      .union false [none, some (.placeholder false 2)]]
    let θ : Replacement := fun id =>
      if id = 0 then .atom none else if id = 1 then .atom none else .union true [some .ignore, none]
    subtype .strict (a.replace θ) (b.replace θ) ∧
      subtype .inferring a b ∧ ¬ subtype .strict a b := by
  intro none some a b θ
  have h : subtype .strict (a.replace θ) (b.replace θ) := by decide
  exact ⟨h, inferring_accepts_instances.1 θ a b h, by decide⟩

end ShapeCheck.Ty
