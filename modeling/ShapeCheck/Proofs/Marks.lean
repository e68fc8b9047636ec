import ShapeCheck.Proofs.Leaves

/-!
# Marks of entries

A type is uniform at a name if every entry of that name that can be got out of it, also by way of
other entries and of calls, has the mark of the record it is read from. What is uniform stays so
when placeholders are settled by types which are uniform as those of values.
-/

namespace ShapeCheck.Ty

/-- The type has the mark `v`. What has failed passes for either. -/
def marked (v : Bool) : Ty → Bool
  | ignore => true
  | t => t.hasValue == v

mutual
/-- The type is uniform at `n` once it has the mark `v`. Only values can be called, and the result
of a call is a value. A placeholder may come to stand for anything that is uniform as a value. -/
def uniformAs (n : String) (v : Bool) : Ty → Bool
  | record _ entries => uniformEntries n v entries
  | function _ _ result => !v || uniformAs n true result
  | placeholder _ _ => v
  | empty => false
  | number _ | string _ | tuple _ _ | atom _ | union _ _ | ignore => true
termination_by structural t => t
def uniformEntries (n : String) (v : Bool) : List (String × Ty) → Bool
  | [] => true
  | (x, t) :: es => (x != n || marked v t) && uniformAs n t.hasValue t && uniformEntries n v es
termination_by structural es => es
end

def Uniform (n : String) (t : Ty) : Prop :=
  t.uniformAs n t.hasValue = true

instance (n : String) (t : Ty) : Decidable (t.Uniform n) :=
  inferInstanceAs (Decidable (_ = true))

variable {n : String} {v w : Bool} {t u : Ty} {id : Nat}

theorem uniformEntries_iff {es : List (String × Ty)} :
    uniformEntries n v es = true ↔
      ∀ e ∈ es, (e.1 = n → e.2.marked v = true) ∧ e.2.Uniform n := by
  induction es with
  | nil => simp [uniformEntries]
  | cons e es ih =>
    rw [uniformEntries, Bool.and_eq_true, Bool.and_eq_true, ih, List.forall_mem_cons]
    refine and_congr_left fun _ => and_congr_left fun _ => ?_
    rw [Bool.or_eq_true, bne_iff_ne]
    exact Decidable.imp_iff_not_or.symm

theorem marked_of_hasValue (h : t.hasValue = v) : t.marked v = true := by
  cases t <;> simp_all [marked]

theorem eq_ignore_or_hasValue (h : t.marked v = true) : t = ignore ∨ t.hasValue = v := by
  cases t with
  | ignore => exact Or.inl rfl
  | _ => exact Or.inr (by simpa [marked] using h)

theorem hasValue_of_marked (h : t.marked true = true) : t.hasValue = true := by
  rcases eq_ignore_or_hasValue h with rfl | h
  · rfl
  · exact h

theorem marked_withValue (h : t ≠ empty) : (t.withValue v).marked v = true := by
  cases t with
  | empty => exact absurd rfl h
  | ignore => rfl
  | _ => exact beq_self_eq_true v

theorem ne_empty_of_uniformAs (h : t.uniformAs n v = true) : t ≠ empty := by
  rintro rfl
  cases h

/-! ## Types that are made -/

@[simp] theorem uniformAs_withValue : (t.withValue w).uniformAs n v = t.uniformAs n v := by
  cases t <;> rfl

theorem Uniform.entry {x : String} {es : List (String × Ty)} (h : (record v es).Uniform n)
    (ht : Entries.get? x es = some t) : (x = n → t.marked v = true) ∧ t.Uniform n :=
  uniformEntries_iff.mp h (x, t) (Entries.mem_of_get? ht)

/-! ## Placeholders settled -/

section
variable (hu : u.uniformAs n true = true)
include hu

theorem hasValue_substitute (h : t.Uniform n) : (substitute id u t).hasValue = t.hasValue := by
  cases t with
  | placeholder w i =>
    obtain rfl : w = true := h
    unfold substitute
    split
    · exact hasValue_of_marked (marked_withValue (ne_empty_of_uniformAs hu))
    · rfl
  | atom a => cases a; rfl
  | _ => rfl

theorem marked_substitute (h : t.Uniform n) (hmarked : t.marked v = true) :
    (substitute id u t).marked v = true := by
  rcases eq_ignore_or_hasValue hmarked with rfl | hvalue
  · rfl
  · exact marked_of_hasValue ((hasValue_substitute hu h).trans hvalue)

mutual
theorem uniformAs_substitute : ∀ (t : Ty) {v : Bool}, t.uniformAs n v = true →
    (substitute id u t).uniformAs n v = true
  | record _ es, v, h => uniformEntries_substitute es h
  | function _ _ r, v, h => by
    cases v with
    | false => rfl
    | true => exact uniformAs_substitute r h
  | placeholder w i, v, h => by
    obtain rfl : v = true := h
    unfold substitute
    split
    · rw [uniformAs_withValue]
      exact hu
    · rfl
  | empty, v, h => h
  | number _, _, _ | string _, _, _ | tuple _ _, _, _ | union _ _, _, _ | ignore, _, _ => rfl
  | atom ⟨_, _, _⟩, _, _ => rfl
termination_by structural t => t
theorem uniformEntries_substitute : ∀ (es : List (String × Ty)) {v : Bool},
    uniformEntries n v es = true → uniformEntries n v (substituteEntries id u es) = true
  | [], _, _ => rfl
  | (x, t) :: es, v, h => by
    rw [uniformEntries, Bool.and_eq_true, Bool.and_eq_true] at h
    obtain ⟨⟨hmarked, ht⟩, hes⟩ := h
    rw [substituteEntries, uniformEntries, Bool.and_eq_true, Bool.and_eq_true,
      hasValue_substitute hu ht]
    refine ⟨⟨?_, uniformAs_substitute t ht⟩, uniformEntries_substitute es hes⟩
    rw [Bool.or_eq_true] at hmarked ⊢
    exact hmarked.imp_right (marked_substitute hu ht)
termination_by structural es => es
end

theorem Uniform.substitute (h : t.Uniform n) : (substitute id u t).Uniform n := by
  rw [Uniform, hasValue_substitute hu h]
  exact uniformAs_substitute hu t h

end

theorem Uniform.apply {σ : Substitution} (hσ : ∀ step ∈ σ, step.2.uniformAs n true = true)
    (h : t.Uniform n) : (t.apply σ).Uniform n := by
  induction σ generalizing t with
  | nil => exact h
  | cons step σ ih =>
    obtain ⟨hstep, hσ⟩ := List.forall_mem_cons.mp hσ
    exact ih hσ (h.substitute hstep)

/-! ## Types that may be no values -/

def Usable (n : String) (t : Ty) : Prop :=
  t.hasValue = true → t.uniformAs n true = true

theorem Uniform.usable (h : t.Uniform n) : t.Usable n := by
  intro hvalue
  rw [Uniform, hvalue] at h
  exact h

theorem Usable.substitute (hu : u.uniformAs n true = true) (h : t.Usable n) :
    (substitute id u t).Usable n := by
  intro hvalue
  cases ht : t.hasValue with
  | true => exact uniformAs_substitute hu t (h ht)
  | false =>
    cases t with
    | placeholder w i =>
      unfold Ty.substitute
      split
      · rw [uniformAs_withValue]
        exact hu
      · rename_i hne
        rw [Ty.substitute, if_neg hne] at hvalue
        rw [ht] at hvalue
        cases hvalue
    | atom a =>
      cases a
      rfl
    | ignore => rfl
    | _ =>
      have hsame := ht.symm.trans hvalue
      cases hsame

theorem Usable.apply {σ : Substitution} (hσ : ∀ step ∈ σ, step.2.uniformAs n true = true)
    (h : t.Usable n) : (t.apply σ).Usable n := by
  induction σ generalizing t with
  | nil => exact h
  | cons step σ ih =>
    obtain ⟨hstep, hσ⟩ := List.forall_mem_cons.mp hσ
    exact ih hσ (h.substitute hstep)

def along : List String → Ty → Option Ty
  | [], t => some t
  | x :: path, record _ es => (Entries.get? x es).bind (along path)
  | _ :: _, _ => none

/-- Whatever is read out of it is usable. -/
def Lenient (n : String) (t : Ty) : Prop :=
  ∀ path u, t.along path = some u → u.Usable n

theorem Lenient.usable (h : t.Lenient n) : t.Usable n :=
  h [] t rfl

theorem Lenient.entry {x : String} {es : List (String × Ty)} (h : (record v es).Lenient n)
    (ht : Entries.get? x es = some t) : t.Lenient n := by
  intro path u hu
  exact h (x :: path) u (Option.bind_eq_some_iff.mpr ⟨t, ht, hu⟩)

end ShapeCheck.Ty
