import Mathlib.Logic.Relation
import ShapeCheck.Proofs.Settling

/-!
# What subtyping sees of a type

A type can be written in several ways that mean the same: marks may differ, and the members of a
union may stand in any order, some of them more than once. Subtyping does not tell them apart,
however deep in a type they stand. Where there is no union to widen anything, it tells apart
everything else.
-/

namespace ShapeCheck.Ty

/-! ## Reshaping -/

/-- One change somewhere in a type: of a mark, of the order in which the members of a union stand,
or of how often one of them does. -/
inductive Reshapes : Ty → Ty → Prop
  | mark (v : Bool) (t : Ty) : Reshapes t (t.withValue v)
  | permute {v : Bool} {as bs : List (Atom Ty)} (h : as.Perm bs) :
      Reshapes (.union v as) (.union v bs)
  | duplicate {v : Bool} {a : Atom Ty} {as : List (Atom Ty)} (h : a ∈ as) :
      Reshapes (.union v as) (.union v (a :: as))
  | item {v : Bool} {x y : Ty} {before after : List Ty} (h : Reshapes x y) :
      Reshapes (.tuple v (before ++ x :: after)) (.tuple v (before ++ y :: after))
  | entry {v : Bool} {n : String} {x y : Ty} {before after : List (String × Ty)}
      (h : Reshapes x y) :
      Reshapes (.record v (before ++ (n, x) :: after)) (.record v (before ++ (n, y) :: after))
  | parameter {v : Bool} {x y result : Ty} {before after : List Ty} (h : Reshapes x y) :
      Reshapes (.function v (before ++ x :: after) result)
        (.function v (before ++ y :: after) result)
  | result {v : Bool} {x y : Ty} {parameters : List Ty} (h : Reshapes x y) :
      Reshapes (.function v parameters x) (.function v parameters y)
  | argument {v : Bool} {n : String} {x y : Ty} {before after : List Ty} (h : Reshapes x y) :
      Reshapes (.atom ⟨n, before ++ x :: after, v⟩) (.atom ⟨n, before ++ y :: after, v⟩)
  | member {v : Bool} {a b : Atom Ty} {before after : List (Atom Ty)}
      (h : Reshapes (.atom a) (.atom b)) :
      Reshapes (.union v (before ++ a :: after)) (.union v (before ++ b :: after))

abbrev Reshaped : Ty → Ty → Prop :=
  Relation.ReflTransGen Reshapes

section
variable {mode : Mode}

def Alike (mode : Mode) (a b : Ty) : Prop :=
  ∀ t, subtype mode a t = subtype mode b t ∧ subtype mode t a = subtype mode t b

def AlikeEach (mode : Mode) (xs ys : List Ty) : Prop :=
  ∀ ts, subtypes mode xs ts = subtypes mode ys ts ∧ subtypes mode ts xs = subtypes mode ts ys

def AlikeEntries (mode : Mode) (xs ys : List (String × Ty)) : Prop :=
  ∀ es, subentries mode xs es = subentries mode ys es ∧
    subentries mode es xs = subentries mode es ys

def AlikeAtom (mode : Mode) (a b : Atom Ty) : Prop :=
  ∀ c, subatom mode a c = subatom mode b c ∧ subatom mode c a = subatom mode c b

/-! ### One part exchanged -/

theorem Alike.each {x y : Ty} (h : Alike mode x y) (before after : List Ty) :
    AlikeEach mode (before ++ x :: after) (before ++ y :: after) := by
  intro ts
  induction before generalizing ts with
  | nil => cases ts <;> simp [subtypes, h _]
  | cons z before ih => cases ts <;> simp [subtypes, ih _]

theorem Alike.entries {x y : Ty} (h : Alike mode x y) (n : String)
    (before after : List (String × Ty)) :
    AlikeEntries mode (before ++ (n, x) :: after) (before ++ (n, y) :: after) := by
  intro es
  induction before generalizing es with
  | nil => cases es <;> simp [subentries, h _]
  | cons z before ih => cases es <;> simp [subentries, ih _]

theorem AlikeEach.atom {xs ys : List Ty} (h : AlikeEach mode xs ys) (n : String) (v : Bool) :
    AlikeAtom mode ⟨n, xs, v⟩ ⟨n, ys, v⟩ := by
  intro c
  cases c
  simp [subatom, h _]

theorem Alike.of_atom {a b : Atom Ty} (h : Alike mode (.atom a) (.atom b)) :
    AlikeAtom mode a b := by
  intro c
  simpa [subtype, placeholder?] using h (.atom c)

/-! ### Around the parts -/

theorem AlikeEach.tuple {xs ys : List Ty} (h : AlikeEach mode xs ys) (v : Bool) :
    Alike mode (.tuple v xs) (.tuple v ys) := by
  intro t
  cases t <;> simp [subtype, placeholder?, h _]

theorem AlikeEntries.record {xs ys : List (String × Ty)} (h : AlikeEntries mode xs ys) (v : Bool) :
    Alike mode (.record v xs) (.record v ys) := by
  intro t
  cases t <;> simp [subtype, placeholder?, h _]

theorem AlikeEach.function {xs ys : List Ty} (h : AlikeEach mode xs ys) (v : Bool) (r : Ty) :
    Alike mode (.function v xs r) (.function v ys r) := by
  intro t
  cases t <;> simp [subtype, placeholder?, h _]

theorem Alike.function {x y : Ty} (h : Alike mode x y) (v : Bool) (ps : List Ty) :
    Alike mode (.function v ps x) (.function v ps y) := by
  intro t
  cases t <;> simp [subtype, placeholder?, h _]

theorem AlikeAtom.alike {a b : Atom Ty} (h : AlikeAtom mode a b) :
    Alike mode (.atom a) (.atom b) := by
  intro t
  cases t <;> simp [subtype, placeholder?, h _]

theorem subatoms_eq_all (as bs : List (Atom Ty)) :
    subatoms mode as bs = as.all fun a => bs.any fun b => subatom mode a b := by
  induction as with
  | nil => rfl
  | cons a as ih => simp [subatoms, ih]

theorem AlikeAtom.union {a b : Atom Ty} (h : AlikeAtom mode a b) (v : Bool)
    (before after : List (Atom Ty)) :
    Alike mode (.union v (before ++ a :: after)) (.union v (before ++ b :: after)) := by
  intro t
  cases t <;> simp [subtype, placeholder?, subatoms_eq_all, h _]

/-- Of a union only the set of its members is seen. -/
theorem alike_union {as bs : List (Atom Ty)} (h : ∀ a, a ∈ as ↔ a ∈ bs) (v : Bool) :
    Alike mode (.union v as) (.union v bs) := by
  have hany (p : Atom Ty → Bool) : as.any p = bs.any p := by
    rw [Bool.eq_iff_iff, List.any_eq_true, List.any_eq_true]
    simp only [h]
  have hall (p : Atom Ty → Bool) : as.all p = bs.all p := by
    rw [Bool.eq_iff_iff, List.all_eq_true, List.all_eq_true]
    simp only [h]
  intro t
  cases t <;> simp [subtype, placeholder?, subatoms_eq_all, hany, hall]

/-! ### Changes at any depth -/

theorem Reshapes.alike {a b : Ty} (h : Reshapes a b) : Alike mode a b := by
  induction h with
  | mark v t =>
    have hmark : t.valueless = (t.withValue v).valueless := (valueless_withValue v t).symm
    exact fun _ => ⟨subtype_congr hmark rfl, subtype_congr rfl hmark⟩
  | permute h => exact alike_union (fun _ => h.mem_iff) _
  | duplicate h => exact alike_union (fun b => by grind) _
  | item _ ih => exact (ih.each _ _).tuple _
  | entry _ ih => exact (ih.entries _ _ _).record _
  | parameter _ ih => exact (ih.each _ _).function _ _
  | result _ ih => exact ih.function _ _
  | argument _ ih => exact ((ih.each _ _).atom _ _).alike
  | member _ ih => exact ih.of_atom.union _ _ _

theorem Reshaped.alike {a b : Ty} (h : Reshaped a b) : Alike mode a b := by
  induction h with
  | refl => exact fun _ => ⟨rfl, rfl⟩
  | tail _ hstep ih => exact fun t =>
    ⟨(ih t).1.trans (hstep.alike t).1, (ih t).2.trans (hstep.alike t).2⟩

end

/-- **Subtyping sees only structure.** Types that are reshaped, both of them and at any depth, are
compared as before. -/
theorem subtype_eq_of_reshaped {a a' b b' : Ty} (ha : Reshaped a a') (hb : Reshaped b b')
    (mode : Mode) : subtype mode a b = subtype mode a' b' :=
  (ha.alike b).1.trans (hb.alike a').2

/-- On the left a mark deep in a member changes, and then that member is listed twice. On the right
two members of a union change places. -/
theorem listedTwice_compared_alike :
    let none : Atom Ty := ⟨"none", [], true⟩
    let some (v : Bool) : Atom Ty := ⟨"some", [.tuple false [.placeholder v 0]], true⟩
    let a : Ty := .record true [("x", .union true [none, some true])]
    let a' : Ty := .record true [("x", .union true [some false, none, some false])]
    let b : Ty := .record false [("x", .union false [some true, none])]
    let b' : Ty := .record false [("x", .union false [none, some true])]
    (Reshaped a a' ∧ Reshaped b b' ∧ subtype .strict a b) ∧
      ∀ mode, subtype mode a b = subtype mode a' b' := by
  intro none some a a' b b'
  have hmark : Reshapes (.atom (some true)) (.atom (some false)) :=
    @Reshapes.argument true "some" _ _ [] [] (@Reshapes.item false _ _ [] [] (.mark false _))
  have hmember : Reshapes a (.record true [("x", .union true [none, some false])]) :=
    @Reshapes.entry true "x" _ _ [] [] (@Reshapes.member true _ _ [none] [] hmark)
  have htwice : Reshapes (.record true [("x", .union true [none, some false])]) a' :=
    @Reshapes.entry true "x" _ _ [] [] (.duplicate (by simp))
  have hswap : Reshapes b b' :=
    @Reshapes.entry false "x" _ _ [] [] (.permute (.swap none (some true) []))
  have ha : Reshaped a a' := .head hmember (.single htwice)
  exact ⟨⟨ha, .single hswap, by decide⟩, subtype_eq_of_reshaped ha (.single hswap)⟩

/-! ## Types without unions -/

inductive UnionFree : Ty → Prop
  | number {v : Bool} : UnionFree (.number v)
  | string {v : Bool} : UnionFree (.string v)
  | tuple {v : Bool} {items : List Ty} (h : ∀ x ∈ items, UnionFree x) : UnionFree (.tuple v items)
  | record {v : Bool} {entries : List (String × Ty)} (h : ∀ e ∈ entries, UnionFree e.2) :
      UnionFree (.record v entries)
  | function {v : Bool} {parameters : List Ty} {result : Ty} (hps : ∀ p ∈ parameters, UnionFree p)
      (hr : UnionFree result) : UnionFree (.function v parameters result)
  | atom {a : Atom Ty} (h : ∀ x ∈ a.arguments, UnionFree x) : UnionFree (.atom a)
  | placeholder {v : Bool} {id : Nat} : UnionFree (.placeholder v id)
  | empty : UnionFree .empty
  | ignore : UnionFree .ignore

theorem forall_and_map_eq_of_forall₂ {α β : Type} {p : α → Prop} {f : α → β} {xs ys : List α}
    (h : List.Forall₂ (fun x y => p y ∧ f x = f y) xs ys) :
    (∀ y ∈ ys, p y) ∧ xs.map f = ys.map f := by
  induction h with
  | nil => simp
  | cons hxy _ ih =>
    exact ⟨List.forall_mem_cons.mpr ⟨hxy.1, ih.1⟩, by simp only [List.map_cons, hxy.2, ih.2]⟩

theorem valuelessAtom_eq (a : Atom Ty) :
    valuelessAtom a = ⟨a.name, a.arguments.map valueless, false⟩ := by
  cases a
  rw [valuelessAtom, valuelessEach_eq_map]

/-- Whatever mismatch there is, some comparison on the way down finds it. -/
theorem valueless_eq_of_strict {a b : Ty} (hb : b.UnionFree) (h : subtype .strict a b) :
    b.containsIgnore = false ∧ a.valueless = b.valueless := by
  induction hb generalizing a with
  | number | string | placeholder | empty =>
    cases strict_iff.mp h
    exact ⟨rfl, rfl⟩
  | ignore => cases strict_iff.mp h
  | tuple _ ih =>
    cases strict_iff.mp h with | tuple hxs =>
    obtain ⟨hclean, heq⟩ :=
      forall_and_map_eq_of_forall₂ (forall₂_of_parts hxs fun _ _ y hy => ih y hy)
    rw [containsIgnore_tuple, valueless, valueless, valuelessEach_eq_map, valuelessEach_eq_map, heq]
    exact ⟨hclean, rfl⟩
  | @record w entries _ ih =>
    cases strict_iff.mp h with | record hxs =>
    have hparts : List.Forall₂ (fun x y : String × Ty => y.2.containsIgnore = false ∧
        (x.1, x.2.valueless) = (y.1, y.2.valueless)) _ entries :=
      forall₂_of_parts hxs fun x _ y hy hxy => by
        obtain ⟨hclean, heq⟩ := ih y hy hxy.2
        exact ⟨hclean, Prod.ext hxy.1 heq⟩
    obtain ⟨hclean, heq⟩ := forall_and_map_eq_of_forall₂ hparts
    rw [containsIgnore_record, valueless, valueless, valuelessEntries_eq_map,
      valuelessEntries_eq_map, heq]
    exact ⟨hclean, rfl⟩
  | function _ _ ihs ih =>
    cases strict_iff.mp h with | function hps hr =>
    obtain ⟨hclean, heq⟩ :=
      forall_and_map_eq_of_forall₂ (forall₂_of_parts hps fun _ _ q hq => ihs q hq)
    obtain ⟨hcleanr, heqr⟩ := ih hr
    rw [containsIgnore_function, valueless, valueless, valuelessEach_eq_map, valuelessEach_eq_map,
      heq, heqr]
    exact ⟨⟨hclean, hcleanr⟩, rfl⟩
  | atom _ ih =>
    cases strict_iff.mp h with | atom hab =>
    obtain ⟨hclean, heq⟩ :=
      forall_and_map_eq_of_forall₂ (forall₂_of_parts hab.2 fun _ _ y hy => ih y hy)
    rw [containsIgnore_atom, valueless, valueless, valuelessAtom_eq, valuelessAtom_eq, hab.1, heq]
    exact ⟨hclean, rfl⟩

/-- **Without unions subtyping is equality.** What fits a type without unions strictly is that type,
up to marks, and nothing in the type has failed. -/
theorem strict_iff_valueless_eq {b : Ty} (hb : b.UnionFree) (a : Ty) :
    subtype .strict a b ↔ b.containsIgnore = false ∧ a.valueless = b.valueless := by
  refine ⟨valueless_eq_of_strict hb, fun ⟨hclean, heq⟩ => ?_⟩
  rw [subtype_congr heq rfl]
  exact subtype_self hclean

/-- Marks may differ at every place, but not the number of the placeholder. -/
theorem numbered_placeholder_told_apart :
    let some (v : Bool) : Atom Ty := ⟨"some", [.tuple v [.string v]], v⟩
    let t (v : Bool) (id : Nat) : Ty :=
      .record v [("f", .function v [.placeholder v id, .number v] (.atom (some v)))]
    (t false 0).UnionFree ∧ subtype .strict (t true 0) (t false 0) ∧
      ¬ subtype .strict (t true 1) (t false 0) := by
  intro some t
  have htuple : (tuple false [.string false]).UnionFree :=
    .tuple (List.forall_mem_singleton.mpr .string)
  have hparameters : ∀ p ∈ [placeholder false 0, number false], p.UnionFree :=
    List.forall_mem_cons.mpr ⟨.placeholder, List.forall_mem_singleton.mpr .number⟩
  have ht : (t false 0).UnionFree :=
    .record (List.forall_mem_singleton.mpr
      (.function hparameters (.atom (List.forall_mem_singleton.mpr htuple))))
  refine ⟨ht, (strict_iff_valueless_eq ht _).mpr ⟨rfl, rfl⟩, fun h => ?_⟩
  obtain ⟨-, heq⟩ := (strict_iff_valueless_eq ht _).mp h
  simp [t, valueless, valuelessEntries, valuelessEach] at heq

end ShapeCheck.Ty
