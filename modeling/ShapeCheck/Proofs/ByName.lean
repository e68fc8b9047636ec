import Mathlib.Data.List.Induction
import Mathlib.Data.List.Sort
import ShapeCheck.Proofs.Subtyping

/-!
# Records are compared by name

Two records are compared place by place. Since the entries of both ascend by name, this finds the
same as looking each name up in both of them: where the names are the same, they stand at the same
places. So it does not matter in which order the entries of a record were written down.
-/

namespace ShapeCheck

namespace Entries

variable {α β : Type}

/-! ## Entries that ascend -/

theorem Sorted.names_eq {xs : Entries α} {ys : Entries β} (hx : xs.Sorted) (hy : ys.Sorted)
    (h : ∀ name, name ∈ xs.names ↔ name ∈ ys.names) : xs.names = ys.names := by
  have hirrefl : Std.Irrefl (fun a b : String => a < b) := ⟨String.lt_irrefl⟩
  have hantisymm : Std.Antisymm (fun a b : String => a < b) :=
    ⟨fun a _ hab hba => absurd (String.lt_trans hab hba) (String.lt_irrefl a)⟩
  exact List.Pairwise.eq_of_mem_iff hx hy h

def ByName (R : α → β → Prop) (xs : Entries α) (ys : Entries β) : Prop :=
  ∀ name x y, xs.get? name = some x → ys.get? name = some y → R x y

theorem forall₂_of_byName {R : α → β → Prop} {xs : Entries α} {ys : Entries β}
    (hnodup : xs.names.Nodup) (hnames : xs.names = ys.names) (h : ByName R xs ys) :
    List.Forall₂ (fun x y => x.1 = y.1 ∧ R x.2 y.2) xs ys := by
  induction xs generalizing ys with
  | nil =>
    cases ys with
    | nil => exact .nil
    | cons y ys => simp [names] at hnames
  | cons x xs ih =>
    cases ys with
    | nil => simp [names] at hnames
    | cons y ys =>
      obtain ⟨hhead, htail⟩ := List.cons.inj hnames
      obtain ⟨hnew, hnodup⟩ := List.nodup_cons.mp hnodup
      have hxy : R x.2 y.2 := h x.1 x.2 y.2 (by simp [get?]) (by simp [get?, hhead])
      refine .cons ⟨hhead, hxy⟩ (ih hnodup htail fun name a b ha hb => ?_)
      -- the head's name does not come again, so both lookups pass over the head
      have hname : x.1 ≠ name := fun heq => hnew (mem_names_iff.mpr (by simp [heq, ha]))
      exact h name a b (by simpa [get?, hname] using ha) (by simpa [get?, ← hhead, hname] using hb)

theorem byName_of_forall₂ {R : α → β → Prop} {xs : Entries α} {ys : Entries β}
    (h : List.Forall₂ (fun x y => x.1 = y.1 ∧ R x.2 y.2) xs ys) :
    xs.names = ys.names ∧ ByName R xs ys := by
  refine ⟨Ty.names_eq_of_forall₂ h, ?_⟩
  induction h with
  | nil => exact nofun
  | @cons x y xs ys hxy _ ih =>
    intro name a b ha hb
    by_cases hname : x.1 = name
    · have ha : x.2 = a := by simpa [get?, hname] using ha
      have hb : y.2 = b := by simpa [get?, ← hxy.1, hname] using hb
      exact ha ▸ hb ▸ hxy.2
    · exact ih name a b (by simpa [get?, hname] using ha)
        (by simpa [get?, ← hxy.1, hname] using hb)

theorem forall₂_iff_byName {R : α → β → Prop} {xs : Entries α} {ys : Entries β} (hx : xs.Sorted)
    (hy : ys.Sorted) : List.Forall₂ (fun x y => x.1 = y.1 ∧ R x.2 y.2) xs ys ↔
      (∀ name, name ∈ xs.names ↔ name ∈ ys.names) ∧ ByName R xs ys := by
  constructor
  · intro h
    obtain ⟨hnames, hbyName⟩ := byName_of_forall₂ h
    exact ⟨fun name => by rw [hnames], hbyName⟩
  · rintro ⟨hnames, hbyName⟩
    exact forall₂_of_byName hx.nodup (hx.names_eq hy hnames) hbyName

/-! ## The order of insertion -/

theorem Sorted.ext {xs ys : Entries α} (hx : xs.Sorted) (hy : ys.Sorted)
    (h : ∀ name, xs.get? name = ys.get? name) : xs = ys := by
  have hsame : List.Forall₂ (fun x y : String × α => x.1 = y.1 ∧ x.2 = y.2) xs ys := by
    refine (forall₂_iff_byName hx hy).mpr ⟨fun name => ?_, fun name a b ha hb => ?_⟩
    · rw [mem_names_iff, mem_names_iff, h name]
    · rw [h name, hb] at ha
      exact (Option.some.inj ha).symm
  exact List.forall₂_eq_eq_eq ▸ hsame.imp fun _ _ hxy => Prod.ext hxy.1 hxy.2

theorem get?_ofList {es : List (String × α)} (h : (names es).Nodup) (name : String) (a : α) :
    (ofList es).get? name = some a ↔ (name, a) ∈ es := by
  induction es using List.reverseRecOn with
  | nil => simp [ofList, get?]
  | append_singleton es e ih =>
    have hsplit : names (es ++ [e]) = names es ++ [e.1] := by simp [names]
    rw [hsplit, List.nodup_append] at h
    have hinsert : ofList (es ++ [e]) = (ofList es).insert e.1 e.2 := by simp [ofList]
    rw [hinsert, get?_insert]
    by_cases hname : e.1 = name
    · have hnew : (name, a) ∉ es := fun hmem =>
        h.2.2 name (List.mem_map.mpr ⟨_, hmem, rfl⟩) e.1 (by simp) hname.symm
      simp [hname, hnew, Prod.ext_iff, eq_comm]
    · simp [hname, ih h.1, Prod.ext_iff, Ne.symm hname]

theorem ofList_eq_of_perm {es fs : List (String × α)} (hperm : es.Perm fs)
    (h : (names es).Nodup) : ofList es = ofList fs := by
  have h' : (names fs).Nodup := (hperm.map Prod.fst).nodup_iff.mp h
  refine (sorted_ofList es).ext (sorted_ofList fs) fun name => Option.ext fun a => ?_
  rw [get?_ofList h, get?_ofList h', hperm.mem_iff]

end Entries

/-! ## Records -/

namespace Ty

theorem subtype_record_iff {mode : Mode} {v w : Bool} {xs ys : List (String × Ty)} :
    subtype mode (.record v xs) (.record w ys) ↔
      List.Forall₂ (fun x y => x.1 = y.1 ∧ subtype mode x.2 y.2) xs ys := by
  constructor
  · intro h
    cases fits_of_known rfl rfl h with
    | record h => exact h
  · exact fun h => (Fits.record h).subtype

/-- **Records are compared by name.** One record is below another just when both have the same names
and each entry is below the one of its name, in whichever order the entries came in. -/
theorem record_subtype_iff_byName (mode : Mode) (v w : Bool) :
    (∀ xs ys : Entries Ty, xs.Sorted → ys.Sorted →
      (subtype mode (.record v xs) (.record w ys) ↔
        (∀ name, name ∈ xs.names ↔ name ∈ ys.names) ∧
          ∀ name x y, xs.get? name = some x → ys.get? name = some y → subtype mode x y)) ∧
    ∀ es es' fs fs' : List (String × Ty), es.Perm es' → fs.Perm fs' →
      (Entries.names es).Nodup → (Entries.names fs).Nodup →
      subtype mode (.record v (Entries.ofList es)) (.record w (Entries.ofList fs)) =
        subtype mode (.record v (Entries.ofList es')) (.record w (Entries.ofList fs')) := by
  constructor
  · intro xs ys hx hy
    exact subtype_record_iff.trans
      (Entries.forall₂_iff_byName (R := fun x y => subtype mode x y) hx hy)
  · intro es es' fs fs' hes hfs hnodup hnodup'
    rw [Entries.ofList_eq_of_perm hes hnodup, Entries.ofList_eq_of_perm hfs hnodup']

/-- An optional entry is widened. The entries of both records were put in in either order. -/
theorem optionalEntry_byName :
    let none : Atom Ty := ⟨"none", [], true⟩
    let some : Atom Ty := ⟨"some", [.number false], false⟩
    let es : List (String × Ty) := [("size", .atom none), ("label", .string true)]
    let fs : List (String × Ty) := [("label", .string false), ("size", .union false [some, none])]
    let sub := Entries.ofList es
    let base := Entries.ofList fs
    (subtype .strict (.record true sub) (.record false base) ∧
      (∀ name, name ∈ sub.names ↔ name ∈ base.names) ∧
      ∀ name x y, sub.get? name = Option.some x → base.get? name = Option.some y →
        subtype .strict x y) ∧
    subtype .strict (.record true sub) (.record false base) =
      subtype .strict (.record true (Entries.ofList es.reverse))
        (.record false (Entries.ofList fs.reverse)) := by
  intro none some es fs sub base
  have hsub : subtype .strict (.record true sub) (.record false base) := by decide +kernel
  obtain ⟨hbyName, horder⟩ := record_subtype_iff_byName .strict true false
  refine ⟨⟨hsub, ?_⟩, ?_⟩
  · exact (hbyName sub base (Entries.sorted_ofList es) (Entries.sorted_ofList fs)).mp hsub
  · exact horder es es.reverse fs fs.reverse (List.reverse_perm es).symm
      (List.reverse_perm fs).symm (by decide +kernel) (by decide +kernel)

end Ty

end ShapeCheck
