import Mathlib.Data.List.Forall2
import ShapeCheck.Inference
import ShapeCheck.Proofs.Annotation
import ShapeCheck.Ty.Subtype

/-!
# Types with failed parts

When parts of a type turn out to have failed they become `ignore`, and since `ignore` counts as a
value, marks may be raised along with it. The type is then compared with less than before.
Whatever is still compared is as it was, up to marks, and marks play no part.
-/

namespace ShapeCheck

namespace Ty

/-! ## Parts that fail -/

mutual
/-- `t'` is `t` with some parts turned to `ignore` and some marks raised. -/
def FailsTo : Ty → Ty → Prop
  | .number v, t' => t' = .ignore ∨ ∃ w : Bool, t' = .number w ∧ (v → w)
  | .string v, t' => t' = .ignore ∨ ∃ w : Bool, t' = .string w ∧ (v → w)
  | .tuple v ts, t' =>
    t' = .ignore ∨ ∃ (w : Bool) (us : _), t' = .tuple w us ∧ (v → w) ∧ FailsToEach ts us
  | .record v es, t' =>
    t' = .ignore ∨ ∃ (w : Bool) (fs : _), t' = .record w fs ∧ (v → w) ∧ FailsToEntries es fs
  | .function v ps r, t' => t' = .ignore ∨
    ∃ (w : Bool) (qs : _) (s : _), t' = .function w qs s ∧ (v → w) ∧ FailsToEach ps qs ∧ FailsTo r s
  | .atom a, t' => t' = .ignore ∨ ∃ b, t' = .atom b ∧ FailsToAtom a b
  | .union v as, t' =>
    t' = .ignore ∨ ∃ (w : Bool) (bs : _), t' = .union w bs ∧ (v → w) ∧ FailsToAtoms as bs
  | .placeholder v id, t' => t' = .ignore ∨ ∃ w : Bool, t' = .placeholder w id ∧ (v → w)
  | .empty, t' => t' = .ignore ∨ t' = .empty
  | .ignore, t' => t' = .ignore
termination_by structural t => t
def FailsToEach : List Ty → List Ty → Prop
  | [], us => us = []
  | t :: ts, us => ∃ u us', us = u :: us' ∧ FailsTo t u ∧ FailsToEach ts us'
termination_by structural ts => ts
def FailsToEntries : List (String × Ty) → List (String × Ty) → Prop
  | [], fs => fs = []
  | (x, t) :: es, fs => ∃ u fs', fs = (x, u) :: fs' ∧ FailsTo t u ∧ FailsToEntries es fs'
termination_by structural es => es
def FailsToAtom : Atom Ty → Atom Ty → Prop
  | ⟨x, ts, v⟩, b => ∃ (us : _) (w : Bool), b = ⟨x, us, w⟩ ∧ (v → w) ∧ FailsToEach ts us
termination_by structural a => a
def FailsToAtoms : List (Atom Ty) → List (Atom Ty) → Prop
  | [], bs => bs = []
  | a :: as, bs => ∃ b bs', bs = b :: bs' ∧ FailsToAtom a b ∧ FailsToAtoms as bs'
termination_by structural as => as
end

theorem failsTo_ignore (t : Ty) : t.FailsTo .ignore := by
  cases t <;> first | exact Or.inl rfl | exact rfl

mutual
theorem FailsTo.refl : ∀ t : Ty, t.FailsTo t
  | .number _ | .string _ | .placeholder _ _ => Or.inr ⟨_, rfl, id⟩
  | .tuple _ ts => Or.inr ⟨_, _, rfl, id, FailsToEach.refl ts⟩
  | .record _ es => Or.inr ⟨_, _, rfl, id, FailsToEntries.refl es⟩
  | .function _ ps r => Or.inr ⟨_, _, _, rfl, id, FailsToEach.refl ps, FailsTo.refl r⟩
  | .atom a => Or.inr ⟨_, rfl, FailsToAtom.refl a⟩
  | .union _ as => Or.inr ⟨_, _, rfl, id, FailsToAtoms.refl as⟩
  | .empty => Or.inr rfl
  | .ignore => rfl
termination_by structural t => t
theorem FailsToEach.refl : ∀ ts : List Ty, FailsToEach ts ts
  | [] => rfl
  | t :: ts => ⟨_, _, rfl, FailsTo.refl t, FailsToEach.refl ts⟩
termination_by structural ts => ts
theorem FailsToEntries.refl : ∀ es : List (String × Ty), FailsToEntries es es
  | [] => rfl
  | (_, t) :: es => ⟨_, _, rfl, FailsTo.refl t, FailsToEntries.refl es⟩
termination_by structural es => es
theorem FailsToAtom.refl : ∀ a : Atom Ty, FailsToAtom a a
  | ⟨_, ts, _⟩ => ⟨_, _, rfl, id, FailsToEach.refl ts⟩
termination_by structural a => a
theorem FailsToAtoms.refl : ∀ as : List (Atom Ty), FailsToAtoms as as
  | [] => rfl
  | a :: as => ⟨_, _, rfl, FailsToAtom.refl a, FailsToAtoms.refl as⟩
termination_by structural as => as
end

section
variable {t t' : Ty}

/-! ### Marks -/

theorem FailsTo.hasValue (h : t.FailsTo t') (hv : t.hasValue = true) : t'.hasValue = true := by
  cases t with
  | number v | string v | placeholder v id =>
    rcases h with rfl | ⟨w, rfl, hw⟩
    · rfl
    · exact hw hv
  | tuple v ts | record v es | union v as =>
    rcases h with rfl | ⟨w, us, rfl, hw, -⟩
    · rfl
    · exact hw hv
  | function v ps r =>
    rcases h with rfl | ⟨w, qs, s, rfl, hw, -⟩
    · rfl
    · exact hw hv
  | atom a =>
    obtain ⟨x, ts, v⟩ := a
    rcases h with rfl | ⟨b, rfl, us, w, rfl, hw, -⟩
    · rfl
    · exact hw hv
  | empty => cases hv
  | ignore =>
    cases h
    rfl

theorem FailsTo.withValue (h : t.FailsTo t') {v w : Bool} (hvw : v → w) :
    (t.withValue v).FailsTo (t'.withValue w) := by
  cases t with
  | number | string | placeholder =>
    rcases h with rfl | ⟨_, rfl, -⟩
    · exact failsTo_ignore _
    · exact Or.inr ⟨w, rfl, hvw⟩
  | tuple | record | union =>
    rcases h with rfl | ⟨_, us, rfl, -, hus⟩
    · exact failsTo_ignore _
    · exact Or.inr ⟨w, us, rfl, hvw, hus⟩
  | function =>
    rcases h with rfl | ⟨_, qs, s, rfl, -, hparts⟩
    · exact failsTo_ignore _
    · exact Or.inr ⟨w, qs, s, rfl, hvw, hparts⟩
  | atom a =>
    obtain ⟨x, ts, _⟩ := a
    rcases h with rfl | ⟨_, rfl, us, _, rfl, -, hus⟩
    · exact failsTo_ignore _
    · exact Or.inr ⟨⟨x, us, w⟩, rfl, us, w, rfl, hvw, hus⟩
  | empty =>
    rcases h with rfl | rfl
    · exact failsTo_ignore _
    · exact Or.inr rfl
  | ignore =>
    cases h
    rfl

theorem FailsTo.placeholder? (h : t.FailsTo t') (hne : t' ≠ .ignore) :
    t'.placeholder? = t.placeholder? := by
  cases t with
  | number | string | placeholder =>
    rcases h with h | ⟨_, rfl, -⟩
    · exact absurd h hne
    · rfl
  | tuple | record | union =>
    rcases h with h | ⟨_, _, rfl, -⟩
    · exact absurd h hne
    · rfl
  | function =>
    rcases h with h | ⟨_, _, _, rfl, -⟩
    · exact absurd h hne
    · rfl
  | atom =>
    rcases h with h | ⟨_, rfl, -⟩
    · exact absurd h hne
    · rfl
  | empty =>
    rcases h with h | rfl
    · exact absurd h hne
    · rfl
  | ignore => exact absurd h hne

end

/-! ### Failure -/

mutual
/-- What has failed stays so. -/
theorem FailsTo.containsIgnore : ∀ {t t' : Ty}, t.FailsTo t' → t.containsIgnore = true →
    t'.containsIgnore = true
  | .tuple _ ts, _, h, ht => by
    rcases h with rfl | ⟨_, us, rfl, -, hus⟩
    · rfl
    · exact hus.anyContainsIgnore ht
  | .record _ es, _, h, ht => by
    rcases h with rfl | ⟨_, fs, rfl, -, hfs⟩
    · rfl
    · exact hfs.entriesContainIgnore ht
  | .function _ ps r, _, h, ht => by
    rcases h with rfl | ⟨_, qs, s, rfl, -, hqs, hs⟩
    · rfl
    · rw [Ty.containsIgnore, Bool.or_eq_true] at ht ⊢
      exact ht.imp hqs.anyContainsIgnore hs.containsIgnore
  | .atom a, _, h, ht => by
    rcases h with rfl | ⟨b, rfl, hb⟩
    · rfl
    · exact hb.atomContainsIgnore ht
  | .union _ as, _, h, ht => by
    rcases h with rfl | ⟨_, bs, rfl, -, hbs⟩
    · rfl
    · exact hbs.atomsContainIgnore ht
  | .ignore, _, h, _ => by
    cases h
    rfl
termination_by structural t => t
theorem FailsToEach.anyContainsIgnore : ∀ {ts us : List Ty}, FailsToEach ts us →
    anyContainsIgnore ts = true → anyContainsIgnore us = true
  | _ :: _, _, ⟨_, _, rfl, hu, hus⟩, ht => by
    rw [Ty.anyContainsIgnore, Bool.or_eq_true] at ht ⊢
    exact ht.imp hu.containsIgnore hus.anyContainsIgnore
termination_by structural ts => ts
theorem FailsToEntries.entriesContainIgnore : ∀ {es fs : List (String × Ty)}, FailsToEntries es fs →
    entriesContainIgnore es = true → entriesContainIgnore fs = true
  | (_, _) :: _, _, ⟨_, _, rfl, hu, hfs⟩, ht => by
    rw [Ty.entriesContainIgnore, Bool.or_eq_true] at ht ⊢
    exact ht.imp hu.containsIgnore hfs.entriesContainIgnore
termination_by structural es => es
theorem FailsToAtom.atomContainsIgnore : ∀ {a b : Atom Ty}, FailsToAtom a b →
    atomContainsIgnore a = true → atomContainsIgnore b = true
  | ⟨_, _, _⟩, _, ⟨_, _, rfl, _, hus⟩, ht => hus.anyContainsIgnore ht
termination_by structural a => a
theorem FailsToAtoms.atomsContainIgnore : ∀ {as bs : List (Atom Ty)}, FailsToAtoms as bs →
    atomsContainIgnore as = true → atomsContainIgnore bs = true
  | _ :: _, _, ⟨_, _, rfl, hb, hbs⟩, ht => by
    rw [Ty.atomsContainIgnore, Bool.or_eq_true] at ht ⊢
    exact ht.imp hb.atomContainsIgnore hbs.atomsContainIgnore
termination_by structural as => as
end

theorem FailsTo.clean {t t' : Ty} (h : t.FailsTo t') (ht' : t'.containsIgnore = false) :
    t.containsIgnore = false := by
  by_contra hfailed
  rw [h.containsIgnore (Bool.of_not_eq_false hfailed)] at ht'
  cases ht'

theorem FailsToEach.clean {ts us : List Ty} (h : FailsToEach ts us)
    (hus : Ty.anyContainsIgnore us = false) : Ty.anyContainsIgnore ts = false := by
  by_contra hfailed
  rw [h.anyContainsIgnore (Bool.of_not_eq_false hfailed)] at hus
  cases hus

mutual
/-- A type in which nothing has failed is the one it comes from, up to marks. -/
theorem FailsTo.valueless_eq : ∀ {t t' : Ty}, t.FailsTo t' → t'.containsIgnore = false →
    t'.valueless = t.valueless
  | .number _, _, h, ht | .string _, _, h, ht | .placeholder _ _, _, h, ht => by
    rcases h with rfl | ⟨_, rfl, -⟩
    · cases ht
    · rfl
  | .tuple _ ts, _, h, ht => by
    rcases h with rfl | ⟨_, us, rfl, -, hus⟩
    · cases ht
    · rw [valueless, valueless, hus.valueless_eq ht]
  | .record _ es, _, h, ht => by
    rcases h with rfl | ⟨_, fs, rfl, -, hfs⟩
    · cases ht
    · rw [valueless, valueless, hfs.valueless_eq ht]
  | .function _ ps r, _, h, ht => by
    rcases h with rfl | ⟨_, qs, s, rfl, -, hqs, hs⟩
    · cases ht
    · rw [Ty.containsIgnore, Bool.or_eq_false_iff] at ht
      rw [valueless, valueless, hqs.valueless_eq ht.1, hs.valueless_eq ht.2]
  | .atom a, _, h, ht => by
    rcases h with rfl | ⟨b, rfl, hb⟩
    · cases ht
    · rw [valueless, valueless, hb.valueless_eq ht]
  | .union _ as, _, h, ht => by
    rcases h with rfl | ⟨_, bs, rfl, -, hbs⟩
    · cases ht
    · rw [valueless, valueless, hbs.valueless_eq ht]
  | .empty, _, h, ht => by
    rcases h with rfl | rfl
    · cases ht
    · rfl
  | .ignore, _, h, ht => by
    cases h
    cases ht
termination_by structural t => t
theorem FailsToEach.valueless_eq : ∀ {ts us : List Ty}, FailsToEach ts us →
    anyContainsIgnore us = false → valuelessEach us = valuelessEach ts
  | [], _, h, _ => by
    cases h
    rfl
  | _ :: _, _, ⟨_, _, rfl, hu, hus⟩, ht => by
    rw [anyContainsIgnore, Bool.or_eq_false_iff] at ht
    rw [valuelessEach, valuelessEach, hu.valueless_eq ht.1, hus.valueless_eq ht.2]
termination_by structural ts => ts
theorem FailsToEntries.valueless_eq : ∀ {es fs : List (String × Ty)}, FailsToEntries es fs →
    entriesContainIgnore fs = false → valuelessEntries fs = valuelessEntries es
  | [], _, h, _ => by
    cases h
    rfl
  | (_, _) :: _, _, ⟨_, _, rfl, hu, hfs⟩, ht => by
    rw [entriesContainIgnore, Bool.or_eq_false_iff] at ht
    rw [valuelessEntries, valuelessEntries, hu.valueless_eq ht.1, hfs.valueless_eq ht.2]
termination_by structural es => es
theorem FailsToAtom.valueless_eq : ∀ {a b : Atom Ty}, FailsToAtom a b →
    atomContainsIgnore b = false → valuelessAtom b = valuelessAtom a
  | ⟨_, _, _⟩, _, ⟨_, _, rfl, _, hus⟩, ht => by
    rw [valuelessAtom, valuelessAtom, hus.valueless_eq ht]
termination_by structural a => a
theorem FailsToAtoms.valueless_eq : ∀ {as bs : List (Atom Ty)}, FailsToAtoms as bs →
    atomsContainIgnore bs = false → valuelessAtoms bs = valuelessAtoms as
  | [], _, h, _ => by
    cases h
    rfl
  | _ :: _, _, ⟨_, _, rfl, hb, hbs⟩, ht => by
    rw [atomsContainIgnore, Bool.or_eq_false_iff] at ht
    rw [valuelessAtoms, valuelessAtoms, hb.valueless_eq ht.1, hbs.valueless_eq ht.2]
termination_by structural as => as
end

mutual
/-- Giving up a placeholder is another way to fail in part. -/
theorem FailsTo.substitute_ignore (id : Nat) : ∀ {t t' : Ty}, t.FailsTo t' →
    t.FailsTo (substitute id .ignore t')
  | .number _, _, h | .string _, _, h => by
    rcases h with rfl | ⟨w, rfl, hw⟩
    · exact Or.inl rfl
    · exact Or.inr ⟨w, rfl, hw⟩
  | .placeholder _ i, _, h => by
    rcases h with rfl | ⟨w, rfl, hw⟩
    · exact Or.inl rfl
    · rw [substitute]
      split
      · exact Or.inl rfl
      · exact Or.inr ⟨w, rfl, hw⟩
  | .tuple _ ts, _, h => by
    rcases h with rfl | ⟨w, us, rfl, hw, hus⟩
    · exact Or.inl rfl
    · exact Or.inr ⟨w, _, rfl, hw, hus.substitute_ignore id⟩
  | .record _ es, _, h => by
    rcases h with rfl | ⟨w, fs, rfl, hw, hfs⟩
    · exact Or.inl rfl
    · exact Or.inr ⟨w, _, rfl, hw, hfs.substitute_ignore id⟩
  | .function _ ps r, _, h => by
    rcases h with rfl | ⟨w, qs, s, rfl, hw, hqs, hs⟩
    · exact Or.inl rfl
    · exact Or.inr ⟨w, _, _, rfl, hw, hqs.substitute_ignore id, hs.substitute_ignore id⟩
  | .atom a, _, h => by
    rcases h with rfl | ⟨b, rfl, hb⟩
    · exact Or.inl rfl
    · exact Or.inr ⟨_, rfl, hb.substitute_ignore id⟩
  | .union _ as, _, h => by
    rcases h with rfl | ⟨w, bs, rfl, hw, hbs⟩
    · exact Or.inl rfl
    · exact Or.inr ⟨w, _, rfl, hw, hbs.substitute_ignore id⟩
  | .empty, _, h => by
    rcases h with rfl | rfl
    · exact Or.inl rfl
    · exact Or.inr rfl
  | .ignore, _, h => by
    cases h
    rfl
termination_by structural t => t
theorem FailsToEach.substitute_ignore (id : Nat) : ∀ {ts us : List Ty}, FailsToEach ts us →
    FailsToEach ts (substituteEach id .ignore us)
  | [], _, h => by
    cases h
    rfl
  | _ :: _, _, ⟨_, _, rfl, hu, hus⟩ =>
    ⟨_, _, rfl, hu.substitute_ignore id, hus.substitute_ignore id⟩
termination_by structural ts => ts
theorem FailsToEntries.substitute_ignore (id : Nat) : ∀ {es fs : List (String × Ty)},
    FailsToEntries es fs → FailsToEntries es (substituteEntries id .ignore fs)
  | [], _, h => by
    cases h
    rfl
  | (_, _) :: _, _, ⟨_, _, rfl, hu, hfs⟩ =>
    ⟨_, _, rfl, hu.substitute_ignore id, hfs.substitute_ignore id⟩
termination_by structural es => es
theorem FailsToAtom.substitute_ignore (id : Nat) : ∀ {a b : Atom Ty}, FailsToAtom a b →
    FailsToAtom a (substituteAtom id .ignore b)
  | ⟨_, _, _⟩, _, ⟨_, _, rfl, hw, hus⟩ => ⟨_, _, rfl, hw, hus.substitute_ignore id⟩
termination_by structural a => a
theorem FailsToAtoms.substitute_ignore (id : Nat) : ∀ {as bs : List (Atom Ty)}, FailsToAtoms as bs →
    FailsToAtoms as (substituteAtoms id .ignore bs)
  | [], _, h => by
    cases h
    rfl
  | _ :: _, _, ⟨_, _, rfl, hb, hbs⟩ =>
    ⟨_, _, rfl, hb.substitute_ignore id, hbs.substitute_ignore id⟩
termination_by structural as => as
end

/-! ### Comparison -/

theorem name_valuelessAtom : ∀ a : Atom Ty, (valuelessAtom a).name = a.name
  | ⟨_, _, _⟩ => rfl

theorem arguments_valuelessAtom : ∀ a : Atom Ty,
    (valuelessAtom a).arguments = valuelessEach a.arguments
  | ⟨_, _, _⟩ => rfl

theorem valuelessAtoms_eq_map (as : List (Atom Ty)) :
    valuelessAtoms as = as.map valuelessAtom := by
  induction as with
  | nil => rfl
  | cons a as ih => simp [valuelessAtoms, ih]

section
variable (mode : Mode)

mutual
/-- Marks play no part. -/
theorem subtype_valueless : ∀ a b : Ty, subtype mode a.valueless b.valueless = subtype mode a b
  | .number _, b | .string _, b | .placeholder _ _, b | .empty, b | .ignore, b => by
    cases b <;> rfl
  | .tuple _ xs, b => by
    cases b with
    | tuple _ ys => simp [subtype, valueless, Ty.placeholder?, subtypes_valueless xs ys]
    | _ => rfl
  | .record _ xs, b => by
    cases b with
    | record _ ys => simp [subtype, valueless, Ty.placeholder?, subentries_valueless xs ys]
    | _ => rfl
  | .function _ ps r, b => by
    cases b with
    | function _ qs s =>
      simp [subtype, valueless, Ty.placeholder?, subtypes_valueless ps qs, subtype_valueless r s]
    | _ => rfl
  | .atom a, b => by
    cases b with
    | atom b => simp [subtype, valueless, Ty.placeholder?, subatom_valueless a b]
    | union _ bs =>
      have hany : (valuelessAtoms bs).any (subatom mode (valuelessAtom a)) =
          bs.any (subatom mode a) := by
        rw [valuelessAtoms_eq_map, List.any_map]
        exact congrArg bs.any (funext fun b => subatom_valueless a b)
      simp [subtype, valueless, Ty.placeholder?, hany]
    | _ => rfl
  | .union _ as, b => by
    cases b with
    | union _ bs => simp [subtype, valueless, Ty.placeholder?, subatoms_valueless as bs]
    | _ => rfl
termination_by structural a => a
theorem subtypes_valueless : ∀ xs ys : List Ty,
    subtypes mode (valuelessEach xs) (valuelessEach ys) = subtypes mode xs ys
  | [], ys => by cases ys <;> rfl
  | x :: xs, ys => by
    cases ys with
    | nil => rfl
    | cons y ys =>
      rw [valuelessEach, valuelessEach, subtypes, subtypes, subtype_valueless x y,
        subtypes_valueless xs ys]
termination_by structural xs => xs
theorem subentries_valueless : ∀ xs ys : List (String × Ty),
    subentries mode (valuelessEntries xs) (valuelessEntries ys) = subentries mode xs ys
  | [], ys => by cases ys <;> rfl
  | (n, x) :: xs, ys => by
    cases ys with
    | nil => rfl
    | cons y ys =>
      rw [valuelessEntries, valuelessEntries, subentries, subentries, subtype_valueless x y.2,
        subentries_valueless xs ys]
termination_by structural xs => xs
theorem subatom_valueless : ∀ a b : Atom Ty,
    subatom mode (valuelessAtom a) (valuelessAtom b) = subatom mode a b
  | ⟨n, xs, _⟩, b => by
    rw [valuelessAtom, subatom, subatom, name_valuelessAtom, arguments_valuelessAtom,
      subtypes_valueless xs b.arguments]
termination_by structural a => a
theorem subatoms_valueless : ∀ as bs : List (Atom Ty),
    subatoms mode (valuelessAtoms as) (valuelessAtoms bs) = subatoms mode as bs
  | [], bs => rfl
  | a :: as, bs => by
    have hany : (valuelessAtoms bs).any (subatom mode (valuelessAtom a)) =
        bs.any (subatom mode a) := by
      rw [valuelessAtoms_eq_map, List.any_map]
      exact congrArg bs.any (funext fun b => subatom_valueless a b)
    rw [valuelessAtoms, subatoms, subatoms, subatoms_valueless as bs]
    exact congrArg (· && _) hany
termination_by structural as => as
end

end

section
variable {mode : Mode}

/-- What is still compared after a failure is compared as before. -/
theorem FailsTo.subtype_eq {a a' b b' : Ty} (ha : a.FailsTo a') (hb : b.FailsTo b')
    (ha' : a'.containsIgnore = false) (hb' : b'.containsIgnore = false) :
    subtype mode a' b' = subtype mode a b := by
  rw [← subtype_valueless, ha.valueless_eq ha', hb.valueless_eq hb', subtype_valueless]

theorem FailsToEach.subtypes_eq {as as' bs bs' : List Ty} (ha : FailsToEach as as')
    (hb : FailsToEach bs bs') (ha' : Ty.anyContainsIgnore as' = false)
    (hb' : Ty.anyContainsIgnore bs' = false) : subtypes mode as' bs' = subtypes mode as bs := by
  rw [← subtypes_valueless, ha.valueless_eq ha', hb.valueless_eq hb', subtypes_valueless]

end

/-! ### Entries -/

theorem FailsToEntries.get? {x : String} : ∀ {es fs : Entries Ty}, FailsToEntries es fs →
    Option.Rel FailsTo (Entries.get? x es) (Entries.get? x fs)
  | [], _, h => by
    cases h
    exact .none
  | (y, t) :: es, _, ⟨u, fs, rfl, hu, hfs⟩ => by
    unfold Entries.get?
    by_cases hname : y = x
    · simp only [hname, ite_true]
      exact .some hu
    · simp only [hname, ite_false]
      exact hfs.get?

theorem FailsToEntries.insert {x : String} {t u : Ty} (ht : t.FailsTo u) :
    ∀ {es fs : Entries Ty}, FailsToEntries es fs →
      FailsToEntries (Entries.insert x t es) (Entries.insert x u fs)
  | [], _, h => by
    cases h
    exact ⟨u, [], rfl, ht, rfl⟩
  | (y, s) :: es, _, ⟨r, fs, rfl, hr, hfs⟩ => by
    unfold Entries.insert
    by_cases hbefore : x < y
    · simp only [hbefore, ite_true]
      exact ⟨u, _, rfl, ht, r, fs, rfl, hr, hfs⟩
    · simp only [hbefore, ite_false]
      by_cases hsame : x = y
      · simp only [hsame, ite_true]
        exact ⟨u, fs, rfl, ht, hfs⟩
      · simp only [hsame, ite_false]
        exact ⟨r, _, rfl, hr, hfs.insert ht⟩

theorem FailsToEntries.ofList {es fs : List (String × Ty)} (h : FailsToEntries es fs) :
    FailsToEntries (Entries.ofList es) (Entries.ofList fs) := by
  suffices key : ∀ (es fs : List (String × Ty)) (before before' : Entries Ty),
      FailsToEntries es fs →
      FailsToEntries before before' →
      FailsToEntries (es.foldl (fun m e => Entries.insert e.1 e.2 m) before)
        (fs.foldl (fun m e => Entries.insert e.1 e.2 m) before') from key es fs [] [] h rfl
  intro es
  induction es with
  | nil =>
    rintro fs before before' rfl hbefore
    exact hbefore
  | cons e es ih =>
    rintro fs before before' ⟨u, fs, rfl, hu, hfs⟩ hbefore
    exact ih fs _ _ hfs (hbefore.insert hu)

end Ty

/-! ## Calls and functions -/

/-- A call that settles nothing settles nothing after a failure either. -/
theorem callSubstitution_eq_nil : ∀ {arguments arguments' parameters parameters' : List Ty},
    Ty.FailsToEach arguments arguments' → Ty.FailsToEach parameters parameters' →
    Ty.anyContainsIgnore arguments' = false → Ty.anyContainsIgnore parameters' = false →
    callSubstitution parameters arguments = [] → callSubstitution parameters' arguments' = []
  | [], _, parameters, parameters', h, _, _, _, _ => by
    cases h
    cases parameters' <;> rfl
  | _ :: _, arguments', [], _, _, h, _, _, _ => by
    cases h
    cases arguments' <;> rfl
  | argument :: arguments, _, parameter :: parameters, _, ⟨argument', arguments', rfl, ha, has⟩,
      ⟨parameter', parameters', rfl, hp, hps⟩, hignore, hignore', hnil => by
    rw [Ty.anyContainsIgnore, Bool.or_eq_false_iff] at hignore hignore'
    have hclean : ∀ {t : Ty}, t.containsIgnore = false → t ≠ .ignore := by
      rintro t ht rfl
      cases ht
    rw [callSubstitution] at hnil ⊢
    rw [ha.placeholder? (hclean hignore.1), hp.placeholder? (hclean hignore'.1)]
    -- a pair that settles nothing is one of two placeholders or of none
    cases hargument : argument.placeholder? with
    | none =>
      cases hparameter : parameter.placeholder? with
      | none =>
        rw [hargument, hparameter] at hnil
        exact callSubstitution_eq_nil has hps hignore.2 hignore'.2 hnil
      | some id =>
        rw [hargument, hparameter] at hnil
        cases hnil
    | some id =>
      cases hparameter : parameter.placeholder? with
      | none =>
        rw [hargument, hparameter] at hnil
        cases hnil
      | some id' =>
        rw [hargument, hparameter] at hnil
        exact callSubstitution_eq_nil has hps hignore.2 hignore'.2 hnil

def Variable.FailsTo (v v' : Variable) : Prop :=
  v'.name = v.name ∧ v.type.FailsTo v'.type

theorem Variable.FailsTo.refl (v : Variable) : v.FailsTo v :=
  ⟨rfl, .refl v.type⟩

abbrev Scope.FailsTo : Scope → Scope → Prop :=
  List.Forall₂ Variable.FailsTo

theorem Scope.FailsTo.get? {x : String} {scope scope' : Scope} (h : scope.FailsTo scope') :
    Option.Rel Variable.FailsTo (scope.get? x) (scope'.get? x) := by
  unfold Scope.get?
  induction h with
  | nil => exact .none
  | @cons v v' scope scope' hv _ ih =>
    by_cases hname : v.name = x
    · simp only [List.find?_cons, hv.1, hname, decide_true]
      exact .some hv
    · simp only [List.find?_cons, hv.1, hname, decide_false]
      exact ih

/-- The type holds no part that a substitution could reach. -/
def Ty.Blank (t : Ty) : Prop :=
  t = .empty ∨ t = .ignore

theorem Ty.Blank.substitute {t : Ty} (h : t.Blank) (id : Nat) (replacement : Ty) :
    Ty.substitute id replacement t = t := by
  rcases h with rfl | rfl <;> rfl

theorem Ty.Blank.failsTo {t t' : Ty} (h : t.Blank) (ht : t.FailsTo t') : t'.Blank := by
  rcases h with rfl | rfl
  · exact ht.symm
  · exact Or.inr ht

/-- The result after one parameter, which was declared with one type and has another by now. -/
def refreshResult (declared current result : Ty) : Ty :=
  match declared.placeholder? with
  | none => result
  | some id =>
    if current.placeholder? = some id then result else Ty.substitute id current result

theorem refreshParameters_cons (scope : Scope) (p : Variable) (ps : List Variable) (result : Ty) :
    refreshParameters scope (p :: ps) result =
      let current := ((scope.get? p.name).getD p).type
      let refreshed := refreshParameters scope ps (refreshResult p.type current result)
      (current :: refreshed.1, refreshed.2) := by
  cases h : p.type.placeholder? <;> simp only [refreshParameters, refreshResult, h]

/-- Nothing is replaced for a parameter that is as it was declared. -/
theorem refreshResult_eq {declared current result : Ty}
    (h : result.Blank ∨ current = declared) : refreshResult declared current result = result := by
  unfold refreshResult
  split
  · rfl
  · rename_i id hid
    rcases h with hblank | rfl
    · rw [hblank.substitute, ite_self]
    · rw [if_pos hid]

theorem refreshResult_failsTo {declared declared' current current' result result' : Ty}
    (hdeclared : declared.FailsTo declared') (hcurrent : current.FailsTo current')
    (hresult : result.FailsTo result') (h : result.Blank ∨ current = declared) :
    (refreshResult declared current result).FailsTo (refreshResult declared' current' result') := by
  rw [refreshResult_eq h]
  unfold refreshResult
  split
  · exact hresult
  · rename_i id hid
    split
    · exact hresult
    · rename_i hother
      rcases h with hblank | rfl
      · rw [(hblank.failsTo hresult).substitute]
        exact hresult
      · -- the parameter has failed since it was declared, and takes its placeholder along
        have hfailed : current' = .ignore := by
          by_contra hne
          have hdeclared' : declared' ≠ .ignore := by
            rintro rfl
            cases hid
          rw [hcurrent.placeholder? hne, ← hdeclared.placeholder? hdeclared'] at hother
          exact hother hid
        rw [hfailed]
        exact hresult.substitute_ignore id

theorem refreshParameters_failsTo {scope scope' : Scope} (hscope : scope.FailsTo scope') :
    ∀ {bound bound' : List Variable} {result result' : Ty},
      List.Forall₂ Variable.FailsTo bound bound' → result.FailsTo result' →
      (result.Blank ∨ ∀ p ∈ bound, scope.get? p.name = some p) →
      Ty.FailsToEach (refreshParameters scope bound result).1
        (refreshParameters scope' bound' result').1 ∧
      (refreshParameters scope bound result).2.FailsTo (refreshParameters scope' bound' result').2
  | [], _, _, _, .nil, hresult, _ => ⟨rfl, hresult⟩
  | p :: bound, p' :: bound', result, result', .cons hp hbound, hresult, h => by
    have hcurrent : ((scope.get? p.name).getD p).type.FailsTo
        ((scope'.get? p'.name).getD p').type := by
      have hget := hscope.get? (x := p.name)
      rw [hp.1]
      generalize scope.get? p.name = o, scope'.get? p.name = o' at hget ⊢
      cases hget with
      | none => exact hp.2
      | some hv => exact hv.2
    have hsame : result.Blank ∨ ((scope.get? p.name).getD p).type = p.type := by
      refine h.imp_right fun hfound => ?_
      rw [hfound p (by simp), Option.getD_some]
    have hstep := refreshResult_failsTo hp.2 hcurrent hresult hsame
    rw [refreshParameters_cons, refreshParameters_cons]
    dsimp only
    rw [refreshResult_eq hsame] at hstep ⊢
    obtain ⟨htypes, hfinal⟩ := refreshParameters_failsTo hscope hbound hstep
      (h.imp_right fun hfound q hq => hfound q (by simp [hq]))
    exact ⟨⟨_, _, rfl, hcurrent, htypes⟩, hfinal⟩

end ShapeCheck
