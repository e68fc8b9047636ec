import ShapeCheck.Proofs.Instances

/-!
# Maps that act on placeholders

Replacing one placeholder, replacing all of them at once and giving them other numbers keep the form
of a type, its names and marks included, and change nothing but its placeholders. What such a map
does to a type is known once it is known what it does to the placeholders that occur in it. So the
laws of substitution need only be checked there.
-/

namespace ShapeCheck

/-! ## The placeholders of a type -/

def Leaf.id? : Leaf → Option Nat
  | placeholder id => some id
  | empty | ignore => none

namespace Ty

/-- The placeholders of a type from left to right, one that occurs twice given twice. -/
def ids (t : Ty) : List Nat :=
  t.leaves.filterMap Leaf.id?

theorem mem_ids {id : Nat} {t : Ty} : id ∈ t.ids ↔ .placeholder id ∈ t.leaves := by
  rw [ids, List.mem_filterMap]
  constructor
  · rintro ⟨l, hl, hid⟩
    cases l with
    | placeholder i => cases hid; exact hl
    | empty => cases hid
    | ignore => cases hid
  · exact fun h => ⟨_, h, rfl⟩

@[simp] theorem ids_withValue (v : Bool) (t : Ty) : (t.withValue v).ids = t.ids := by
  rw [ids, leaves_withValue, ids]

section
variable (v : Bool)

theorem filterMap_leavesEach (ts : List Ty) :
    (leavesEach ts).filterMap Leaf.id? = ts.flatMap ids := by
  induction ts with
  | nil => rfl
  | cons t ts ih => rw [leavesEach, List.filterMap_append, ih, List.flatMap_cons, ids]

theorem ids_tuple (items : List Ty) : (tuple v items).ids = items.flatMap ids :=
  filterMap_leavesEach items

theorem ids_record (entries : List (String × Ty)) :
    (record v entries).ids = entries.flatMap (·.2.ids) := by
  suffices h : (leavesEntries entries).filterMap Leaf.id? = entries.flatMap (·.2.ids) from h
  induction entries with
  | nil => rfl
  | cons e es ih => rw [leavesEntries, List.filterMap_append, ih, List.flatMap_cons, ids]

theorem ids_function (parameters : List Ty) (result : Ty) :
    (function v parameters result).ids = parameters.flatMap ids ++ result.ids := by
  rw [ids, leaves, List.filterMap_append, filterMap_leavesEach, ids]

theorem ids_atom (a : Atom Ty) : (atom a).ids = a.arguments.flatMap ids := by
  cases a
  exact filterMap_leavesEach _

theorem ids_union (atoms : List (Atom Ty)) :
    (union v atoms).ids = atoms.flatMap fun a => a.arguments.flatMap ids := by
  suffices h : (leavesAtoms atoms).filterMap Leaf.id? = _ from h
  induction atoms with
  | nil => rfl
  | cons a as ih =>
    rw [leavesAtoms, List.filterMap_append, ih, List.flatMap_cons]
    exact congrArg (· ++ _) (ids_atom a)

end

/-! ## Leafwise maps -/

def onArguments (f : Ty → Ty) (a : Atom Ty) : Atom Ty :=
  { a with arguments := a.arguments.map f }

/-- The map goes through to the placeholders and changes nothing else. -/
structure Leafwise (f : Ty → Ty) : Prop where
  number : ∀ v, f (.number v) = .number v
  string : ∀ v, f (.string v) = .string v
  tuple : ∀ v items, f (.tuple v items) = .tuple v (items.map f)
  record : ∀ v entries, f (.record v entries) = .record v (entries.map fun e => (e.1, f e.2))
  function : ∀ v parameters result,
    f (.function v parameters result) = .function v (parameters.map f) (f result)
  atom : ∀ a, f (.atom a) = .atom (onArguments f a)
  union : ∀ v atoms, f (.union v atoms) = .union v (atoms.map (onArguments f))
  empty : f .empty = .empty
  ignore : f .ignore = .ignore

theorem leafwise_substitute (id : Nat) (r : Ty) : Leafwise (substitute id r) := by
  have hatom : ∀ a, substituteAtom id r a = onArguments (substitute id r) a := by
    intro a
    cases a
    rw [substituteAtom, substituteEach_eq_map]
    rfl
  constructor
  case tuple => intro v items; rw [substitute, substituteEach_eq_map]
  case record => intro v entries; rw [substitute, substituteEntries_eq_map]
  case function => intro v parameters result; rw [substitute, substituteEach_eq_map]
  case atom => intro a; rw [substitute, hatom]
  case union =>
    intro v atoms
    rw [substitute, substituteAtoms_eq_map]
    exact congrArg _ (List.map_congr_left fun a _ => hatom a)
  all_goals intros; rfl

theorem leafwise_replace (θ : Replacement) : Leafwise (replace θ) := by
  have hatom : ∀ a, replaceAtom θ a = onArguments (replace θ) a := replaceAtom_eq θ
  constructor
  case tuple => intro v items; rw [replace, replaceEach_eq_map]
  case record => intro v entries; rw [replace, replaceEntries_eq_map]
  case function => intro v parameters result; rw [replace, replaceEach_eq_map]
  case atom => intro a; rw [replace, hatom]
  case union =>
    intro v atoms
    rw [replace, replaceAtoms_eq_map]
    exact congrArg _ (List.map_congr_left fun a _ => hatom a)
  all_goals intros; rfl

namespace Leafwise

variable {f g : Ty → Ty}

theorem comp (hg : Leafwise g) (hf : Leafwise f) : Leafwise (g ∘ f) := by
  have hatom : ∀ a, onArguments g (onArguments f a) = onArguments (g ∘ f) a := by
    intro a
    simp [onArguments]
  constructor
  case number => intro v; simp [hf.number, hg.number]
  case string => intro v; simp [hf.string, hg.string]
  case tuple => intro v items; simp [hf.tuple, hg.tuple]
  case record => intro v entries; simp [hf.record, hg.record]
  case function => intro v parameters result; simp [hf.function, hg.function]
  case atom => intro a; simp [hf.atom, hg.atom, hatom]
  case union => intro v atoms; simp [hf.union, hg.union, hatom]
  case empty => simp [hf.empty, hg.empty]
  case ignore => simp [hf.ignore, hg.ignore]

theorem onArguments_eq {a : Atom Ty} (h : ∀ x ∈ a.arguments, f x = g x) :
    onArguments f a = onArguments g a := by
  rw [onArguments, onArguments, List.map_congr_left h]

/-- Leafwise maps agree on a type if they agree on its placeholders. -/
theorem eq_of_ids (hf : Leafwise f) (hg : Leafwise g) {t : Ty}
    (h : ∀ id ∈ t.ids, ∀ v, f (.placeholder v id) = g (.placeholder v id)) : f t = g t := by
  induction t using induction_on_parts with
  | number v => rw [hf.number, hg.number]
  | string v => rw [hf.string, hg.string]
  | tuple v items ih =>
    rw [ids_tuple] at h
    rw [hf.tuple, hg.tuple, List.map_congr_left]
    exact fun x hx => ih x hx fun id hid => h id (List.mem_flatMap.mpr ⟨x, hx, hid⟩)
  | record v entries ih =>
    rw [ids_record] at h
    rw [hf.record, hg.record, List.map_congr_left]
    intro e he
    rw [ih e he fun id hid => h id (List.mem_flatMap.mpr ⟨e, he, hid⟩)]
  | function v parameters result ihs ih =>
    rw [ids_function] at h
    rw [hf.function, hg.function, ih fun id hid => h id (List.mem_append_right _ hid),
      List.map_congr_left]
    refine fun x hx => ihs x hx fun id hid => h id (List.mem_append_left _ ?_)
    exact List.mem_flatMap.mpr ⟨x, hx, hid⟩
  | atom a ih =>
    rw [ids_atom] at h
    rw [hf.atom, hg.atom, onArguments_eq]
    exact fun x hx => ih x hx fun id hid => h id (List.mem_flatMap.mpr ⟨x, hx, hid⟩)
  | union v atoms ih =>
    rw [ids_union] at h
    rw [hf.union, hg.union, List.map_congr_left]
    refine fun a ha => onArguments_eq fun x hx => ih a ha x hx fun id hid => h id ?_
    exact List.mem_flatMap.mpr ⟨a, ha, List.mem_flatMap.mpr ⟨x, hx, hid⟩⟩
  | placeholder v id => exact h id (List.mem_singleton_self id) v
  | empty => rw [hf.empty, hg.empty]
  | ignore => rw [hf.ignore, hg.ignore]

theorem flatMap_ids {k : Nat → List Nat} {xs : List Ty}
    (h : ∀ x ∈ xs, (f x).ids = x.ids.flatMap k) :
    (xs.map f).flatMap ids = (xs.flatMap ids).flatMap k := by
  rw [List.flatMap_map, List.flatMap_assoc]
  exact List.flatMap_congr h

/-- What occurs after a leafwise map, given what occurs in the place of each placeholder. -/
theorem ids_eq_flatMap (hf : Leafwise f) {k : Nat → List Nat}
    (h : ∀ v id, (f (.placeholder v id)).ids = k id) (t : Ty) : (f t).ids = t.ids.flatMap k := by
  induction t using induction_on_parts with
  | number v => rw [hf.number]; rfl
  | string v => rw [hf.string]; rfl
  | tuple v items ih => rw [hf.tuple, ids_tuple, ids_tuple, flatMap_ids ih]
  | record v entries ih =>
    rw [hf.record, ids_record, ids_record, List.flatMap_map, List.flatMap_assoc]
    exact List.flatMap_congr ih
  | function v parameters result ihs ih =>
    rw [hf.function, ids_function, ids_function, flatMap_ids ihs, ih, List.flatMap_append]
  | atom a ih => rw [hf.atom, ids_atom, ids_atom, ← flatMap_ids ih, onArguments]
  | union v atoms ih =>
    rw [hf.union, ids_union, ids_union, List.flatMap_map, List.flatMap_assoc]
    exact List.flatMap_congr fun a ha => flatMap_ids (ih a ha)
  | placeholder v id => exact (h v id).trans (List.append_nil (k id)).symm
  | empty => rw [hf.empty]; rfl
  | ignore => rw [hf.ignore]; rfl

end Leafwise

/-! ## One substitution after another -/

section
variable {i j : Nat} {r s : Ty}

theorem substitute_placeholder (v : Bool) (id : Nat) :
    substitute i r (.placeholder v id) = if id = i then r.withValue v else .placeholder v id :=
  rfl

theorem substitute_substitute (hij : i ≠ j) (hi : i ∉ s.ids) (t : Ty) :
    substitute j s (substitute i r t) = substitute i (substitute j s r) (substitute j s t) := by
  have hleft := (leafwise_substitute j s).comp (leafwise_substitute i r)
  have hright := (leafwise_substitute i (substitute j s r)).comp (leafwise_substitute j s)
  refine hleft.eq_of_ids hright fun id _ v => ?_
  show substitute j s (substitute i r (.placeholder v id)) =
    substitute i (substitute j s r) (substitute j s (.placeholder v id))
  by_cases hidi : id = i
  · subst hidi
    rw [substitute_placeholder, if_pos rfl, ← substitute_withValue, substitute_placeholder v id,
      if_neg hij, substitute_placeholder, if_pos rfl]
  · rw [substitute_placeholder, if_neg hidi]
    by_cases hidj : id = j
    · -- what has come in for `j` holds no `i`, so the later substitution passes over it
      subst hidj
      rw [substitute_placeholder, if_pos rfl, substitute_of_notMem]
      rwa [leaves_withValue, ← mem_ids]
    · rw [substitute_placeholder, if_neg hidj, substitute_placeholder, if_neg hidi]

theorem ids_substitute (i : Nat) (r t : Ty) :
    (substitute i r t).ids = t.ids.flatMap fun id => if id = i then r.ids else [id] := by
  refine (leafwise_substitute i r).ids_eq_flatMap (fun v id => ?_) t
  rw [substitute_placeholder]
  split
  · exact ids_withValue v r
  · rfl

theorem mem_ids_substitute {k : Nat} {t : Ty} :
    k ∈ (substitute i r t).ids ↔ k ∈ t.ids ∧ k ≠ i ∨ i ∈ t.ids ∧ k ∈ r.ids := by
  rw [ids_substitute, List.mem_flatMap]
  constructor
  · rintro ⟨id, hid, hk⟩
    split at hk
    · rename_i e
      exact Or.inr ⟨e ▸ hid, hk⟩
    · rename_i hne
      rw [List.mem_singleton.mp hk]
      exact Or.inl ⟨hid, hne⟩
  · rintro (⟨hk, hne⟩ | ⟨hi, hk⟩)
    · exact ⟨k, hk, by simp [hne]⟩
    · exact ⟨i, hi, by simpa using hk⟩

end

/-- **Substitutions compose.** The second of two substitutions may come first if it is also made in
what the other one brings, marks included. A placeholder that is replaced is gone, and what it is
replaced by occurs in its place. -/
theorem substitutions_compose (t : Ty) :
    (∀ (i j : Nat) (r s : Ty), i ≠ j → i ∉ s.ids →
      substitute j s (substitute i r t) = substitute i (substitute j s r) (substitute j s t)) ∧
    ∀ (i : Nat) (r : Ty),
      (i ∉ t.ids → ∀ k, k ∈ (substitute i r t).ids ↔ k ∈ t.ids) ∧
      (i ∈ t.ids → ∀ k, k ∈ (substitute i r t).ids ↔ k ∈ t.ids ∧ k ≠ i ∨ k ∈ r.ids) := by
  refine ⟨fun i j r s hij hi => substitute_substitute hij hi t, fun i r => ⟨fun hi k => ?_, ?_⟩⟩
  · rw [substitute_of_notMem i r t (mt mem_ids.mpr hi)]
  · intro hi k
    rw [mem_ids_substitute]
    simp only [hi, true_and]

/-- The first replacement mentions the placeholder of the second and its own, and one of the places
that they come to is no value. -/
theorem replacements_exchanged :
    let t : Ty := .record true [("a", .placeholder false 0),
      ("b", .function true [.placeholder true 1] (.atom ⟨"some", [.placeholder true 0], true⟩))]
    let r : Ty := .tuple true [.placeholder true 1, .placeholder false 0]
    let s : Ty := .union true [⟨"none", [], false⟩, ⟨"some", [.placeholder true 2], true⟩]
    substitute 1 s (substitute 0 r t) = substitute 0 (substitute 1 s r) (substitute 1 s t) ∧
      (∀ k, k ∈ (substitute 0 r t).ids ↔ k ∈ t.ids ∧ k ≠ 0 ∨ k ∈ r.ids) ∧
      (substitute 2 r t).ids = [0, 1, 0] ∧
      ∀ k, k ∈ (substitute 2 r t).ids ↔ k ∈ t.ids := by
  intro t r s
  obtain ⟨hcompose, hids⟩ := substitutions_compose t
  exact ⟨hcompose 0 1 r s (by decide) (by decide), (hids 0 r).2 (by decide), rfl,
    (hids 2 r).1 (by decide)⟩

end Ty

end ShapeCheck
