import ShapeCheck.Inference

/-!
# The leaves of a type

What can go wrong with a type stands at its leaves: the placeholders, and `empty` and `ignore` where
something has no type. Marks do not matter to them, substitution acts on them one by one, and
renumbering is renumbering of the list of leaves.
-/

namespace ShapeCheck

inductive Leaf where
  | placeholder (id : Nat)
  | empty
  | ignore
deriving Repr, DecidableEq

def Leaf.relabel (f : Nat → Nat) : Leaf → Leaf
  | placeholder id => placeholder (f id)
  | empty => empty
  | ignore => ignore

namespace Ty

mutual
def leaves : Ty → List Leaf
  | placeholder _ id => [.placeholder id]
  | empty => [.empty]
  | ignore => [.ignore]
  | tuple _ items => leavesEach items
  | record _ entries => leavesEntries entries
  | function _ parameters result => leavesEach parameters ++ leaves result
  | atom a => leavesAtom a
  | union _ atoms => leavesAtoms atoms
  | number _ | string _ => []
def leavesEach : List Ty → List Leaf
  | [] => []
  | t :: ts => leaves t ++ leavesEach ts
def leavesEntries : List (String × Ty) → List Leaf
  | [] => []
  | (_, t) :: es => leaves t ++ leavesEntries es
def leavesAtom : Atom Ty → List Leaf
  | ⟨_, arguments, _⟩ => leavesEach arguments
def leavesAtoms : List (Atom Ty) → List Leaf
  | [] => []
  | a :: as => leavesAtom a ++ leavesAtoms as
end

theorem mem_leavesEach {l : Leaf} {ts : List Ty} :
    l ∈ leavesEach ts ↔ ∃ t ∈ ts, l ∈ t.leaves := by
  induction ts with
  | nil => simp [leavesEach]
  | cons t ts ih => simp [leavesEach, ih]

theorem mem_leavesEntries {l : Leaf} {es : List (String × Ty)} :
    l ∈ leavesEntries es ↔ ∃ e ∈ es, l ∈ e.2.leaves := by
  induction es with
  | nil => simp [leavesEntries]
  | cons e es ih => simp [leavesEntries, ih]

theorem mem_leavesAtom {l : Leaf} {a : Atom Ty} :
    l ∈ leavesAtom a ↔ ∃ t ∈ a.arguments, l ∈ t.leaves := by
  cases a
  exact mem_leavesEach

theorem mem_leavesAtoms {l : Leaf} {as : List (Atom Ty)} :
    l ∈ leavesAtoms as ↔ ∃ a ∈ as, ∃ t ∈ a.arguments, l ∈ t.leaves := by
  induction as with
  | nil => simp [leavesAtoms]
  | cons a as ih => simp [leavesAtoms, ih, mem_leavesAtom]

@[simp] theorem leaves_withValue (v : Bool) (t : Ty) : (t.withValue v).leaves = t.leaves := by
  cases t with
  | atom a => cases a; rfl
  | _ => rfl

/-! ## Failure -/

mutual
theorem containsIgnore_eq : ∀ t : Ty, t.containsIgnore = decide (Leaf.ignore ∈ t.leaves)
  | .placeholder _ _ => by simp [containsIgnore, leaves]
  | .empty => by simp [containsIgnore, leaves]
  | .ignore => by simp [containsIgnore, leaves]
  | .tuple _ items => anyContainsIgnore_eq items
  | .record _ entries => entriesContainIgnore_eq entries
  | .function _ parameters result => by
    simp [containsIgnore, leaves, anyContainsIgnore_eq parameters, containsIgnore_eq result]
  | .atom a => atomContainsIgnore_eq a
  | .union _ atoms => atomsContainIgnore_eq atoms
  | .number _ => by simp [containsIgnore, leaves]
  | .string _ => by simp [containsIgnore, leaves]
theorem anyContainsIgnore_eq : ∀ ts : List Ty,
    anyContainsIgnore ts = decide (Leaf.ignore ∈ leavesEach ts)
  | [] => by simp [anyContainsIgnore, leavesEach]
  | t :: ts => by
    simp [anyContainsIgnore, leavesEach, containsIgnore_eq t, anyContainsIgnore_eq ts]
theorem entriesContainIgnore_eq : ∀ es : List (String × Ty),
    entriesContainIgnore es = decide (Leaf.ignore ∈ leavesEntries es)
  | [] => by simp [entriesContainIgnore, leavesEntries]
  | (_, t) :: es => by
    simp [entriesContainIgnore, leavesEntries, containsIgnore_eq t, entriesContainIgnore_eq es]
theorem atomContainsIgnore_eq : ∀ a : Atom Ty,
    atomContainsIgnore a = decide (Leaf.ignore ∈ leavesAtom a)
  | ⟨_, arguments, _⟩ => anyContainsIgnore_eq arguments
theorem atomsContainIgnore_eq : ∀ as : List (Atom Ty),
    atomsContainIgnore as = decide (Leaf.ignore ∈ leavesAtoms as)
  | [] => by simp [atomsContainIgnore, leavesAtoms]
  | a :: as => by
    simp [atomsContainIgnore, leavesAtoms, atomContainsIgnore_eq a, atomsContainIgnore_eq as]
end

/-! ## Substitution -/

def substituteLeaf (id : Nat) (replacement : Ty) (l : Leaf) : List Leaf :=
  if l = .placeholder id then replacement.leaves else [l]

section
variable (id : Nat) (r : Ty)

mutual
theorem leaves_substitute : ∀ t : Ty,
    (substitute id r t).leaves = t.leaves.flatMap (substituteLeaf id r)
  | .placeholder v i => by
    by_cases h : i = id <;> simp [substitute, leaves, substituteLeaf, h]
  | .empty => rfl
  | .ignore => rfl
  | .tuple _ items => leavesEach_substitute items
  | .record _ entries => leavesEntries_substitute entries
  | .function _ parameters result => by
    simp [substitute, leaves, leavesEach_substitute parameters, leaves_substitute result]
  | .atom a => leavesAtom_substitute a
  | .union _ atoms => leavesAtoms_substitute atoms
  | .number _ => rfl
  | .string _ => rfl
theorem leavesEach_substitute : ∀ ts : List Ty,
    leavesEach (substituteEach id r ts) = (leavesEach ts).flatMap (substituteLeaf id r)
  | [] => rfl
  | t :: ts => by
    simp [substituteEach, leavesEach, leaves_substitute t, leavesEach_substitute ts]
theorem leavesEntries_substitute : ∀ es : List (String × Ty),
    leavesEntries (substituteEntries id r es) = (leavesEntries es).flatMap (substituteLeaf id r)
  | [] => rfl
  | (_, t) :: es => by
    simp [substituteEntries, leavesEntries, leaves_substitute t, leavesEntries_substitute es]
theorem leavesAtom_substitute : ∀ a : Atom Ty,
    leavesAtom (substituteAtom id r a) = (leavesAtom a).flatMap (substituteLeaf id r)
  | ⟨_, arguments, _⟩ => leavesEach_substitute arguments
theorem leavesAtoms_substitute : ∀ as : List (Atom Ty),
    leavesAtoms (substituteAtoms id r as) = (leavesAtoms as).flatMap (substituteLeaf id r)
  | [] => rfl
  | a :: as => by
    simp [substituteAtoms, leavesAtoms, leavesAtom_substitute a, leavesAtoms_substitute as]
end

mutual
/-- Replacing a placeholder that is not there changes nothing. -/
theorem substitute_of_notMem : ∀ t : Ty, .placeholder id ∉ t.leaves → substitute id r t = t
  | .placeholder v i, h => by
    have hi : i ≠ id := fun e => h (by simp [leaves, e])
    rw [substitute, if_neg hi]
  | .empty, _ => rfl
  | .ignore, _ => rfl
  | .tuple _ items, h => by rw [substitute, substituteEach_of_notMem items h]
  | .record _ entries, h => by rw [substitute, substituteEntries_of_notMem entries h]
  | .function _ parameters result, h => by
    have h := not_or.mp (mt List.mem_append.mpr h)
    rw [substitute, substituteEach_of_notMem parameters h.1, substitute_of_notMem result h.2]
  | .atom a, h => by rw [substitute, substituteAtom_of_notMem a h]
  | .union _ atoms, h => by rw [substitute, substituteAtoms_of_notMem atoms h]
  | .number _, _ => rfl
  | .string _, _ => rfl
theorem substituteEach_of_notMem : ∀ ts : List Ty, .placeholder id ∉ leavesEach ts →
    substituteEach id r ts = ts
  | [], _ => rfl
  | t :: ts, h => by
    have h := not_or.mp (mt List.mem_append.mpr h)
    rw [substituteEach, substitute_of_notMem t h.1, substituteEach_of_notMem ts h.2]
theorem substituteEntries_of_notMem : ∀ es : List (String × Ty),
    .placeholder id ∉ leavesEntries es → substituteEntries id r es = es
  | [], _ => rfl
  | (x, t) :: es, h => by
    have h := not_or.mp (mt List.mem_append.mpr h)
    rw [substituteEntries, substitute_of_notMem t h.1, substituteEntries_of_notMem es h.2]
theorem substituteAtom_of_notMem : ∀ a : Atom Ty, .placeholder id ∉ leavesAtom a →
    substituteAtom id r a = a
  | ⟨x, arguments, v⟩, h => by rw [substituteAtom, substituteEach_of_notMem arguments h]
theorem substituteAtoms_of_notMem : ∀ as : List (Atom Ty), .placeholder id ∉ leavesAtoms as →
    substituteAtoms id r as = as
  | [], _ => rfl
  | a :: as, h => by
    have h := not_or.mp (mt List.mem_append.mpr h)
    rw [substituteAtoms, substituteAtom_of_notMem a h.1, substituteAtoms_of_notMem as h.2]
end

end

theorem substitute_withValue {id : Nat} {r : Ty} (v : Bool) (t : Ty) :
    (substitute id r t).withValue v = substitute id r (t.withValue v) := by
  cases t with
  | placeholder w i =>
    have hmarked : (placeholder w i).withValue v = placeholder v i := rfl
    rw [hmarked, substitute, substitute]
    split
    · exact withValue_withValue v w r
    · rfl
  | atom a => cases a; rfl
  | _ => rfl

/-- A leaf after a substitution was there before or comes from the replacement. -/
theorem mem_substituteLeaf {l : Leaf} {id : Nat} {r : Ty} {ls : List Leaf}
    (h : l ∈ ls.flatMap (substituteLeaf id r)) : l ∈ ls ∨ l ∈ r.leaves := by
  obtain ⟨l', hl', h⟩ := List.mem_flatMap.mp h
  unfold substituteLeaf at h
  split at h
  · exact Or.inr h
  · rw [List.mem_singleton.mp h]
    exact Or.inl hl'

theorem mem_leaves_substitute {l : Leaf} {id : Nat} {r t : Ty}
    (h : l ∈ (substitute id r t).leaves) : l ∈ t.leaves ∨ l ∈ r.leaves :=
  mem_substituteLeaf (leaves_substitute id r t ▸ h)

theorem mem_leavesEach_substitute {l : Leaf} {id : Nat} {r : Ty} {ts : List Ty}
    (h : l ∈ leavesEach (substituteEach id r ts)) : l ∈ leavesEach ts ∨ l ∈ r.leaves :=
  mem_substituteLeaf (leavesEach_substitute id r ts ▸ h)

theorem mem_leaves_apply {l : Leaf} {σ : Substitution} {t : Ty} (h : l ∈ (t.apply σ).leaves) :
    l ∈ t.leaves ∨ ∃ s ∈ σ, l ∈ s.2.leaves := by
  induction σ generalizing t with
  | nil => exact Or.inl h
  | cons s σ ih =>
    rcases ih h with h | ⟨s', hs', h⟩
    · rcases mem_leaves_substitute h with h | h
      · exact Or.inl h
      · exact Or.inr ⟨s, List.mem_cons_self, h⟩
    · exact Or.inr ⟨s', List.mem_cons_of_mem _ hs', h⟩

theorem notMem_leaves_substitute {id : Nat} {r : Ty} (hr : .placeholder id ∉ r.leaves) (t : Ty) :
    .placeholder id ∉ (substitute id r t).leaves := by
  rw [leaves_substitute]
  intro h
  obtain ⟨l, -, h⟩ := List.mem_flatMap.mp h
  by_cases hl : l = .placeholder id
  · simp [substituteLeaf, hl, hr] at h
  · simp [substituteLeaf, hl, eq_comm] at h

/-! ## Renumbering -/

def renumberLeaf (l : Leaf) (ρ : Renaming) : Leaf × Renaming :=
  match l with
  | .placeholder id => (.placeholder (ρ.rename id).1, (ρ.rename id).2)
  | l => (l, ρ)

def renumberLeaves : List Leaf → Renaming → List Leaf × Renaming
  | [], ρ => ([], ρ)
  | l :: ls, ρ =>
    let r := renumberLeaf l ρ
    let rs := renumberLeaves ls r.2
    (r.1 :: rs.1, rs.2)

theorem renumberLeaves_append (ls ks : List Leaf) (ρ : Renaming) :
    renumberLeaves (ls ++ ks) ρ =
      ((renumberLeaves ls ρ).1 ++ (renumberLeaves ks (renumberLeaves ls ρ).2).1,
        (renumberLeaves ks (renumberLeaves ls ρ).2).2) := by
  induction ls generalizing ρ with
  | nil => rfl
  | cons l ls ih => simp [renumberLeaves, ih]

mutual
theorem leaves_renumber : ∀ (t : Ty) (ρ : Renaming),
    ((t.renumber ρ).1.leaves, (t.renumber ρ).2) = renumberLeaves t.leaves ρ
  | .placeholder _ _, _ => rfl
  | .empty, _ => rfl
  | .ignore, _ => rfl
  | .tuple _ items, ρ => leavesEach_renumber items ρ
  | .record _ entries, ρ => leavesEntries_renumber entries ρ
  | .function _ parameters result, ρ => by
    rw [leaves, renumberLeaves_append, ← leavesEach_renumber parameters ρ, ← leaves_renumber result]
    rfl
  | .atom a, ρ => leavesAtom_renumber a ρ
  | .union _ atoms, ρ => leavesAtoms_renumber atoms ρ
  | .number _, _ => rfl
  | .string _, _ => rfl
theorem leavesEach_renumber : ∀ (ts : List Ty) (ρ : Renaming),
    (leavesEach (renumberEach ts ρ).1, (renumberEach ts ρ).2) = renumberLeaves (leavesEach ts) ρ
  | [], _ => rfl
  | t :: ts, ρ => by
    rw [leavesEach, renumberLeaves_append, ← leaves_renumber t ρ, ← leavesEach_renumber ts]
    rfl
theorem leavesEntries_renumber : ∀ (es : List (String × Ty)) (ρ : Renaming),
    (leavesEntries (renumberEntries es ρ).1, (renumberEntries es ρ).2) =
      renumberLeaves (leavesEntries es) ρ
  | [], _ => rfl
  | (_, t) :: es, ρ => by
    rw [leavesEntries, renumberLeaves_append, ← leaves_renumber t ρ, ← leavesEntries_renumber es]
    rfl
theorem leavesAtom_renumber : ∀ (a : Atom Ty) (ρ : Renaming),
    (leavesAtom (renumberAtom a ρ).1, (renumberAtom a ρ).2) = renumberLeaves (leavesAtom a) ρ
  | ⟨_, arguments, _⟩, ρ => leavesEach_renumber arguments ρ
theorem leavesAtoms_renumber : ∀ (as : List (Atom Ty)) (ρ : Renaming),
    (leavesAtoms (renumberAtoms as ρ).1, (renumberAtoms as ρ).2) =
      renumberLeaves (leavesAtoms as) ρ
  | [], _ => rfl
  | a :: as, ρ => by
    rw [leavesAtoms, renumberLeaves_append, ← leavesAtom_renumber a ρ, ← leavesAtoms_renumber as]
    rfl
end

/-- Only placeholders are new after renumbering. -/
theorem mem_renumberLeaves {l : Leaf} {ls : List Leaf} {ρ : Renaming}
    (h : l ∈ (renumberLeaves ls ρ).1) : l ∈ ls ∨ ∃ id, l = .placeholder id := by
  induction ls generalizing ρ with
  | nil => cases h
  | cons k ls ih =>
    rcases List.mem_cons.mp h with rfl | h
    · cases k with
      | placeholder id => exact Or.inr ⟨_, rfl⟩
      | empty => exact Or.inl List.mem_cons_self
      | ignore => exact Or.inl List.mem_cons_self
    · exact (ih h).imp_left (List.mem_cons_of_mem _)

namespace Renaming

variable {ρ : Renaming} {id : Nat}

theorem rename_of_some {n : Nat} (h : ρ.renamed.lookup id = some n) : ρ.rename id = (n, ρ) := by
  unfold rename
  rw [h]

theorem rename_of_none (h : ρ.renamed.lookup id = none) :
    ρ.rename id = (ρ.next, ⟨ρ.next + 1, (id, ρ.next) :: ρ.renamed⟩) := by
  unfold rename
  rw [h]

theorem lookup_rename (ρ : Renaming) (id i : Nat) :
    (ρ.rename id).2.renamed.lookup i =
      if i = id then some (ρ.rename id).1 else ρ.renamed.lookup i := by
  cases h : ρ.renamed.lookup id with
  | some n =>
    rw [rename_of_some h]
    split
    · rename_i e
      rw [e]
      exact h
    · rfl
  | none =>
    rw [rename_of_none h, List.lookup_cons]
    split <;> simp_all

/-- All numbers that were given out are from `start` on, and none was given out twice. -/
structure From (start : Nat) (ρ : Renaming) : Prop where
  start_le : start ≤ ρ.next
  given : ∀ i n, ρ.renamed.lookup i = some n → start ≤ n ∧ n < ρ.next
  once : ∀ i j n, ρ.renamed.lookup i = some n → ρ.renamed.lookup j = some n → i = j

theorem From.start (n : Nat) : From n ⟨n, []⟩ where
  start_le := Nat.le_refl _
  given i m h := by cases h
  once i j m h := by cases h

theorem From.rename {start : Nat} (h : ρ.From start) (id : Nat) :
    (ρ.rename id).2.From start ∧ ρ.next ≤ (ρ.rename id).2.next ∧
      start ≤ (ρ.rename id).1 ∧ (ρ.rename id).1 < (ρ.rename id).2.next := by
  cases hid : ρ.renamed.lookup id with
  | some n =>
    rw [rename_of_some hid]
    exact ⟨h, Nat.le_refl _, h.given id n hid⟩
  | none =>
    have hlookup : ∀ i n, (ρ.rename id).2.renamed.lookup i = some n →
        i = id ∧ n = ρ.next ∨ ρ.renamed.lookup i = some n := by
      intro i n hi
      rw [lookup_rename] at hi
      split at hi
      · rename_i e
        cases hi
        exact Or.inl ⟨e, by rw [rename_of_none hid]⟩
      · exact Or.inr hi
    rw [rename_of_none hid] at hlookup ⊢
    refine ⟨⟨Nat.le_succ_of_le h.start_le, fun i n hi => ?_, fun i j n hi hj => ?_⟩,
      Nat.le_succ _, h.start_le, Nat.lt_succ_self _⟩
    · rcases hlookup i n hi with ⟨-, rfl⟩ | hi
      · exact ⟨h.start_le, Nat.lt_succ_self _⟩
      · exact ⟨(h.given i n hi).1, Nat.lt_succ_of_lt (h.given i n hi).2⟩
    · -- A number that was given out before is below the next one.
      rcases hlookup i n hi with ⟨rfl, rfl⟩ | hi
      · rcases hlookup j _ hj with ⟨rfl, -⟩ | hj
        · rfl
        · exact absurd (h.given j _ hj).2 (Nat.lt_irrefl _)
      · rcases hlookup j n hj with ⟨-, rfl⟩ | hj
        · exact absurd (h.given i _ hi).2 (Nat.lt_irrefl _)
        · exact h.once i j n hi hj

def number (ρ : Renaming) (id : Nat) : Nat :=
  (ρ.renamed.lookup id).getD id

end Renaming

theorem renumberLeaves_from {start : Nat} {ls : List Leaf} {ρ : Renaming} (h : ρ.From start) :
    (renumberLeaves ls ρ).2.From start ∧ ρ.next ≤ (renumberLeaves ls ρ).2.next ∧
      ∀ id, .placeholder id ∈ (renumberLeaves ls ρ).1 →
        start ≤ id ∧ id < (renumberLeaves ls ρ).2.next := by
  induction ls generalizing ρ with
  | nil => exact ⟨h, Nat.le_refl _, fun id hid => absurd hid List.not_mem_nil⟩
  | cons l ls ih =>
    have hl : (renumberLeaf l ρ).2.From start ∧ ρ.next ≤ (renumberLeaf l ρ).2.next ∧
        ∀ id, .placeholder id = (renumberLeaf l ρ).1 →
          start ≤ id ∧ id < (renumberLeaf l ρ).2.next := by
      cases l with
      | placeholder i =>
        obtain ⟨hf, hle, hid⟩ := h.rename i
        refine ⟨hf, hle, fun id e => ?_⟩
        cases e
        exact hid
      | empty => exact ⟨h, Nat.le_refl _, fun id e => by cases e⟩
      | ignore => exact ⟨h, Nat.le_refl _, fun id e => by cases e⟩
    obtain ⟨hf, hle, hid⟩ := hl
    obtain ⟨hf', hle', hid'⟩ := ih hf
    refine ⟨hf', Nat.le_trans hle hle', fun id hmem => ?_⟩
    rcases List.mem_cons.mp hmem with e | hmem
    · exact ⟨(hid id e).1, Nat.lt_of_lt_of_le (hid id e).2 hle'⟩
    · exact hid' id hmem

/-- Leaves are renumbered by one function, given by the numbers at the end. -/
theorem renumberLeaves_eq_map (ls : List Leaf) (ρ : Renaming) :
    (renumberLeaves ls ρ).1 = ls.map (.relabel (renumberLeaves ls ρ).2.number) ∧
      (∀ i n, ρ.renamed.lookup i = some n → (renumberLeaves ls ρ).2.renamed.lookup i = some n) ∧
      ∀ i, .placeholder i ∈ ls → ((renumberLeaves ls ρ).2.renamed.lookup i).isSome := by
  induction ls generalizing ρ with
  | nil => exact ⟨rfl, fun _ _ h => h, fun i h => by cases h⟩
  | cons l ls ih =>
    obtain ⟨hmap, hkept, hall⟩ := ih (renumberLeaf l ρ).2
    cases l with
    | placeholder id =>
      have hid := hkept id (ρ.rename id).1 (by
        rw [renumberLeaf, Renaming.lookup_rename, if_pos rfl])
      refine ⟨?_, fun i n hi => hkept i n ?_, fun i hi => ?_⟩
      · have hnumber : (renumberLeaves ls (ρ.rename id).2).2.number id = (ρ.rename id).1 := by
          unfold Renaming.number
          exact congrArg (·.getD id) hid
        exact List.cons_eq_cons.mpr ⟨congrArg Leaf.placeholder hnumber.symm, hmap⟩
      · rw [renumberLeaf, Renaming.lookup_rename]
        split
        · rename_i e
          rw [Renaming.rename_of_some (e ▸ hi)]
        · exact hi
      · rcases List.mem_cons.mp hi with e | hi
        · cases e
          exact Option.isSome_of_eq_some hid
        · exact hall i hi
    | empty => exact ⟨congrArg _ hmap, hkept, fun i hi => hall i (by simpa using hi)⟩
    | ignore => exact ⟨congrArg _ hmap, hkept, fun i hi => hall i (by simpa using hi)⟩

end Ty

open Ty (leavesEach)

/-! ## Variables -/

def Context.bindings (c : Context) : List Variable :=
  c.scopes.flatten ++ c.exports

theorem Context.mem_globals_of_start {env : Environment} {path : String} {stack : List String}
    {v : Variable} (h : v ∈ (Context.start env path stack).bindings) : v ∈ env.globals := by
  simpa [start, bindings, Scope.ofDeclarations] using h

theorem Context.bindings_substitute (id : Nat) (r : Ty) (c : Context) :
    (c.substitute id r).bindings = c.bindings.map (Variable.substitute id r) := by
  simp [bindings, substitute, List.map_flatten]

theorem Context.mem_bindings_apply {σ : Ty.Substitution} {c : Context} {v : Variable}
    (h : v ∈ (c.apply σ).bindings) : ∃ v₀ ∈ c.bindings, v.type = v₀.type.apply σ := by
  induction σ generalizing c with
  | nil => exact ⟨v, h, rfl⟩
  | cons step σ ih =>
    obtain ⟨v₁, h₁, e⟩ := ih h
    rw [bindings_substitute] at h₁
    obtain ⟨v₀, h₀, rfl⟩ := List.mem_map.mp h₁
    exact ⟨v₀, h₀, e⟩

theorem Context.nextId_declare (c : Context) (v : Variable) : (c.declare v).nextId = c.nextId := by
  unfold declare
  split <;> rfl

theorem Context.nextId_apply (σ : Ty.Substitution) (c : Context) :
    (c.apply σ).nextId = c.nextId := by
  induction σ generalizing c with
  | nil => rfl
  | cons step σ ih => exact ih (c.substitute step.1 step.2)

theorem Context.mem_bindings_declare {c : Context} {u v : Variable}
    (h : u ∈ (c.declare v).bindings) : u = v ∨ u ∈ c.bindings := by
  unfold Context.declare at h
  cases hscopes : c.scopes with
  | nil =>
    simp only [hscopes] at h
    simpa [Context.bindings, hscopes] using h
  | cons scope outer =>
    simp only [hscopes] at h
    simpa [Context.bindings, hscopes] using h

theorem Context.mem_bindings_exportVariable {c : Context} {u v : Variable}
    (h : u ∈ (c.exportVariable v).bindings) : u = v ∨ u ∈ c.bindings := by
  simp only [bindings, exportVariable, List.mem_append, List.mem_singleton, ← or_assoc] at h
  rw [bindings, List.mem_append]
  exact h.symm

theorem Context.mem_bindings_pop {c : Context} {v : Variable} (h : v ∈ c.pop.bindings) :
    v ∈ c.bindings := by
  unfold Context.bindings Context.pop at h
  rcases List.mem_append.mp h with h | h
  · obtain ⟨scope, hscope, h⟩ := List.mem_flatten.mp h
    exact List.mem_append_left _ (List.mem_flatten.mpr ⟨scope, List.mem_of_mem_tail hscope, h⟩)
  · exact List.mem_append_right _ h

theorem Ty.mem_leaves_of_placeholder? {t : Ty} {id : Nat} (h : t.placeholder? = some id) :
    .placeholder id ∈ t.leaves := by
  cases t with
  | placeholder v i =>
    cases h
    exact List.mem_singleton_self _
  | _ => cases h

/-- What a call settles, and by what, are parts of its parameters and arguments. -/
theorem mem_leaves_callSubstitution {l : Leaf} {step : Nat × Ty} {parameters arguments : List Ty}
    (h : step ∈ callSubstitution parameters arguments)
    (hl : l = .placeholder step.1 ∨ l ∈ step.2.leaves) :
    l ∈ leavesEach parameters ∨ l ∈ leavesEach arguments := by
  induction arguments generalizing parameters with
  | nil => cases parameters <;> cases h
  | cons a arguments ih =>
    cases parameters with
    | nil => cases h
    | cons p parameters =>
      rw [callSubstitution] at h
      rw [leavesEach, leavesEach, List.mem_append, List.mem_append]
      split at h
      · rename_i ha _
        rcases List.mem_cons.mp h with rfl | h
        · rcases hl with rfl | hl
          · exact Or.inr (Or.inl (Ty.mem_leaves_of_placeholder? ha))
          · exact Or.inl (Or.inl hl)
        · rcases ih h with h | h
          · exact Or.inl (Ty.mem_leavesEach_substitute h).symm
          · exact Or.inr (Or.inr h)
      · rename_i hp
        rcases List.mem_cons.mp h with rfl | h
        · rcases hl with rfl | hl
          · exact Or.inl (Or.inl (Ty.mem_leaves_of_placeholder? hp))
          · exact Or.inr (Or.inl hl)
        · rcases ih h with h | h
          · rcases Ty.mem_leavesEach_substitute h with h | h
            · exact Or.inl (Or.inr h)
            · exact Or.inr (Or.inl h)
          · exact Or.inr (Or.inr h)
      · exact (ih h).imp Or.inr Or.inr

/-- The variable of `scope` that a parameter has become, or the parameter if there is none. -/
def Scope.Current (scope : Scope) (bound : List Variable) (v : Variable) : Prop :=
  (∃ p ∈ bound, scope.get? p.name = some v) ∨ v ∈ bound ∧ scope.get? v.name = none

/-- The parameters and the result of a function after its body, in terms of the variables. -/
theorem refreshParameters_spec (scope : Scope) (bound : List Variable) (result : Ty) :
    (∀ t ∈ (refreshParameters scope bound result).1, ∃ v, scope.Current bound v ∧ t = v.type) ∧
      ∃ σ : Ty.Substitution, (refreshParameters scope bound result).2 = result.apply σ ∧
        ∀ step ∈ σ, ∃ v, scope.Current bound v ∧ step.2 = v.type := by
  induction bound generalizing result with
  | nil => exact ⟨fun t ht => absurd ht List.not_mem_nil, [], rfl, by simp⟩
  | cons p bound ih =>
    have hcurrent : scope.Current (p :: bound) ((scope.get? p.name).getD p) := by
      cases hg : scope.get? p.name with
      | none => exact Or.inr ⟨List.mem_cons_self, hg⟩
      | some v => exact Or.inl ⟨p, List.mem_cons_self, hg⟩
    have hlater : ∀ v, scope.Current bound v → scope.Current (p :: bound) v := by
      rintro v (⟨q, hq, hv⟩ | ⟨hv, hnone⟩)
      · exact Or.inl ⟨q, List.mem_cons_of_mem _ hq, hv⟩
      · exact Or.inr ⟨List.mem_cons_of_mem _ hv, hnone⟩
    rw [refreshParameters]
    dsimp only
    generalize (scope.get? p.name).getD p = current at hcurrent ⊢
    -- The parameters from here on see the result with this one's placeholder replaced, if it was.
    have hstep : ∀ (result' : Ty) (σ₀ : Ty.Substitution), result' = result.apply σ₀ →
        (∀ step ∈ σ₀, step.2 = current.type) →
        (∀ t ∈ current.type :: (refreshParameters scope bound result').1,
          ∃ v, scope.Current (p :: bound) v ∧ t = v.type) ∧
        ∃ σ : Ty.Substitution, (refreshParameters scope bound result').2 = result.apply σ ∧
          ∀ step ∈ σ, ∃ v, scope.Current (p :: bound) v ∧ step.2 = v.type := by
      rintro _ σ₀ rfl hσ₀
      obtain ⟨htypes, σ, hσ, hsteps⟩ := ih (result.apply σ₀)
      refine ⟨fun t ht => ?_, σ₀ ++ σ, ?_, fun step hs => ?_⟩
      · rcases List.mem_cons.mp ht with rfl | ht
        · exact ⟨current, hcurrent, rfl⟩
        · obtain ⟨v, hv, e⟩ := htypes t ht
          exact ⟨v, hlater v hv, e⟩
      · rw [hσ]
        simp [Ty.apply]
      · rcases List.mem_append.mp hs with hs | hs
        · exact ⟨current, hcurrent, hσ₀ step hs⟩
        · obtain ⟨v, hv, e⟩ := hsteps step hs
          exact ⟨v, hlater v hv, e⟩
    split
    · exact hstep result [] rfl (by simp)
    · rename_i id _
      split
      · exact hstep result [] rfl (by simp)
      · exact hstep _ [(id, current.type)] rfl (by simp)

/-- Renumbering variables is renumbering their leaves. -/
theorem leaves_renumberVariables (vs : List Variable) (ρ : Ty.Renaming) :
    ((renumberVariables vs ρ).1.flatMap (·.type.leaves), (renumberVariables vs ρ).2) =
      Ty.renumberLeaves (vs.flatMap (·.type.leaves)) ρ := by
  induction vs generalizing ρ with
  | nil => rfl
  | cons v vs ih =>
    rw [List.flatMap_cons, Ty.renumberLeaves_append, ← Ty.leaves_renumber v.type ρ, ← ih]
    rfl

section
variable (c : Context) (vs : List Variable)

/-- The exports of another file, with leaves and next number as for a list of leaves. -/
theorem Context.leaves_instantiate :
    let renumbered := Ty.renumberLeaves (vs.flatMap (·.type.leaves)) ⟨c.nextId, []⟩
    (c.instantiate vs).1.flatMap (·.type.leaves) = renumbered.1 ∧
      (c.instantiate vs).2.nextId = renumbered.2.next := by
  have h := leaves_renumberVariables vs ⟨c.nextId, []⟩
  exact ⟨congrArg Prod.fst h, congrArg (fun r => r.2.next) h⟩

theorem Context.nextId_le_instantiate : c.nextId ≤ (c.instantiate vs).2.nextId := by
  obtain ⟨-, hnext⟩ := leaves_instantiate c vs
  rw [hnext]
  exact (Ty.renumberLeaves_from (.start c.nextId)).2.1

/-- The exports of another file keep their placeholders apart. -/
theorem Context.relabel_instantiate : ∃ f : Nat → Nat,
    (c.instantiate vs).1.flatMap (·.type.leaves) = (vs.flatMap (·.type.leaves)).map (.relabel f) ∧
      ∀ i j, .placeholder i ∈ vs.flatMap (·.type.leaves) →
        .placeholder j ∈ vs.flatMap (·.type.leaves) → f i = f j → i = j := by
  obtain ⟨hleaves, -⟩ := leaves_instantiate c vs
  have hfrom : (Ty.renumberLeaves (vs.flatMap (·.type.leaves)) ⟨c.nextId, []⟩).2.From c.nextId :=
    (Ty.renumberLeaves_from (.start c.nextId)).1
  obtain ⟨hmap, -, hall⟩ := Ty.renumberLeaves_eq_map (vs.flatMap (·.type.leaves)) ⟨c.nextId, []⟩
  refine ⟨_, hleaves.trans hmap, fun i j hi hj e => ?_⟩
  obtain ⟨m, hm⟩ := Option.isSome_iff_exists.mp (hall i hi)
  obtain ⟨n, hn⟩ := Option.isSome_iff_exists.mp (hall j hj)
  have hmn : m = n := by simpa [Ty.Renaming.number, hm, hn] using e
  exact hfrom.once i j n (hmn ▸ hm) hn

variable {c vs} {v : Variable} (hv : v ∈ (c.instantiate vs).1)
include hv

theorem Context.placeholder_instantiate {id : Nat} (h : .placeholder id ∈ v.type.leaves) :
    c.nextId ≤ id ∧ id < (c.instantiate vs).2.nextId := by
  obtain ⟨hleaves, hnext⟩ := leaves_instantiate c vs
  have hmem : .placeholder id ∈ (c.instantiate vs).1.flatMap (·.type.leaves) :=
    List.mem_flatMap.mpr ⟨v, hv, h⟩
  rw [hleaves] at hmem
  rw [hnext]
  exact (Ty.renumberLeaves_from (.start c.nextId)).2.2 id hmem

theorem Context.leaf_instantiate {l : Leaf} (h : l ∈ v.type.leaves)
    (hl : ∀ id, l ≠ .placeholder id) : ∃ v₀ ∈ vs, l ∈ v₀.type.leaves := by
  obtain ⟨hleaves, -⟩ := leaves_instantiate c vs
  have hmem : l ∈ (c.instantiate vs).1.flatMap (·.type.leaves) :=
    List.mem_flatMap.mpr ⟨v, hv, h⟩
  rw [hleaves] at hmem
  rcases Ty.mem_renumberLeaves hmem with hmem | ⟨id, e⟩
  · exact List.mem_flatMap.mp hmem
  · exact absurd e (hl id)

end

end ShapeCheck
