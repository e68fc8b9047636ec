import Mathlib.Data.List.Induction
import Mathlib.Data.List.Nodup
import Mathlib.Data.Set.Function
import ShapeCheck.Proofs.Leafwise

/-!
# Imported placeholders are numbered in order

The variables of another file keep their names, forms and marks. Their placeholders get the next free
numbers of the importing file in the order in which they first occur, a placeholder that occurs in
several variables one and the same. So what an import yields does not depend on the numbers that the
placeholders had in the other file, and it depends on everything else.
-/

namespace ShapeCheck

/-! ## Other numbers -/

namespace Ty

def relabel (f : Nat → Nat) (t : Ty) : Ty :=
  t.replace fun id => .placeholder true (f id)

section
variable {f g : Nat → Nat}

theorem relabel_placeholder (v : Bool) (id : Nat) :
    (placeholder v id).relabel f = .placeholder v (f id) :=
  rfl

theorem leafwise_relabel (f : Nat → Nat) : Leafwise (relabel f) :=
  leafwise_replace _

theorem relabel_congr {t : Ty} (h : ∀ id ∈ t.ids, f id = g id) : t.relabel f = t.relabel g := by
  refine (leafwise_relabel f).eq_of_ids (leafwise_relabel g) fun id hid v => ?_
  rw [relabel_placeholder, relabel_placeholder, h id hid]

theorem relabel_relabel (t : Ty) : (t.relabel f).relabel g = t.relabel (g ∘ f) :=
  ((leafwise_relabel g).comp (leafwise_relabel f)).eq_of_ids (leafwise_relabel (g ∘ f))
    fun _ _ _ => rfl

theorem relabel_id (t : Ty) : t.relabel id = t :=
  replace_placeholder t

theorem ids_relabel (t : Ty) : (t.relabel f).ids = t.ids.map f := by
  rw [(leafwise_relabel f).ids_eq_flatMap fun v id => rfl, List.map_eq_flatMap]
  rfl

end

end Ty

def Variable.relabel (f : Nat → Nat) (v : Variable) : Variable :=
  { v with type := v.type.relabel f }

def occurrences (vs : List Variable) : List Nat :=
  vs.flatMap (·.type.ids)

section
variable {f g : Nat → Nat} {vs : List Variable}

theorem map_relabel_congr (h : ∀ id ∈ occurrences vs, f id = g id) :
    vs.map (Variable.relabel f) = vs.map (Variable.relabel g) := by
  refine List.map_congr_left fun v hv => ?_
  rw [Variable.relabel, Variable.relabel, Ty.relabel_congr]
  exact fun id hid => h id (List.mem_flatMap.mpr ⟨v, hv, hid⟩)

theorem map_relabel_relabel (vs : List Variable) :
    (vs.map (Variable.relabel f)).map (Variable.relabel g) = vs.map (Variable.relabel (g ∘ f)) := by
  rw [List.map_map]
  refine List.map_congr_left fun v _ => ?_
  simp [Variable.relabel, Ty.relabel_relabel]

theorem map_relabel_id (vs : List Variable) : vs.map (Variable.relabel id) = vs :=
  Ty.map_eq_self fun v _ => by rw [Variable.relabel, Ty.relabel_id]

theorem occurrences_relabel (vs : List Variable) :
    occurrences (vs.map (Variable.relabel f)) = (occurrences vs).map f := by
  simp [occurrences, Variable.relabel, List.flatMap_map, List.map_flatMap, Ty.ids_relabel]

end

/-! ## Renumbering gives other numbers -/

namespace Ty

def Renaming.Gives (f : Nat → Nat) (ρ : Renaming) : Prop :=
  ∀ i n, ρ.renamed.lookup i = some n → f i = n

theorem Renaming.gives_number (ρ : Renaming) : ρ.Gives ρ.number := by
  intro i n h
  rw [number, h]
  rfl

section
variable {f : Nat → Nat}

/-- Numbers that were given out stay, so a function that gives the later ones gives the earlier. -/
theorem Renaming.Gives.before {ρ : Renaming} {ls : List Leaf}
    (h : (renumberLeaves ls ρ).2.Gives f) : ρ.Gives f :=
  fun i n hi => h i n ((renumberLeaves_eq_map ls ρ).2.1 i n hi)

mutual
theorem renumber_eq_relabel : ∀ (t : Ty) (ρ : Renaming), (t.renumber ρ).2.Gives f →
    (t.renumber ρ).1 = t.relabel f
  | .placeholder v id, ρ, h => by
    have hid : f id = (ρ.rename id).1 := h id _ (by
      rw [renumber, Renaming.lookup_rename, if_pos rfl])
    rw [relabel_placeholder, hid]
    rfl
  | .tuple v items, ρ, h => by
    rw [(leafwise_relabel f).tuple, ← renumberEach_eq_map items ρ h]
    rfl
  | .record v entries, ρ, h => by
    rw [(leafwise_relabel f).record, ← renumberEntries_eq_map entries ρ h]
    rfl
  | .function v parameters result, ρ, h => by
    have hstate := congrArg Prod.snd (leaves_renumber result (renumberEach parameters ρ).2)
    rw [(leafwise_relabel f).function, ← renumber_eq_relabel result _ h,
      ← renumberEach_eq_map parameters ρ]
    · rfl
    · exact Renaming.Gives.before (hstate ▸ h)
  | .atom a, ρ, h => by
    rw [(leafwise_relabel f).atom, ← renumberAtom_eq a ρ h]
    rfl
  | .union v atoms, ρ, h => by
    rw [(leafwise_relabel f).union, ← renumberAtoms_eq_map atoms ρ h]
    rfl
  | .number _, _, _ => rfl
  | .string _, _, _ => rfl
  | .empty, _, _ => rfl
  | .ignore, _, _ => rfl
theorem renumberEach_eq_map : ∀ (ts : List Ty) (ρ : Renaming), (renumberEach ts ρ).2.Gives f →
    (renumberEach ts ρ).1 = ts.map (relabel f)
  | [], _, _ => rfl
  | t :: ts, ρ, h => by
    have hstate := congrArg Prod.snd (leavesEach_renumber ts (t.renumber ρ).2)
    rw [List.map_cons, ← renumberEach_eq_map ts _ h, ← renumber_eq_relabel t ρ]
    · rfl
    · exact Renaming.Gives.before (hstate ▸ h)
theorem renumberEntries_eq_map : ∀ (es : List (String × Ty)) (ρ : Renaming),
    (renumberEntries es ρ).2.Gives f →
    (renumberEntries es ρ).1 = es.map fun e => (e.1, e.2.relabel f)
  | [], _, _ => rfl
  | (x, t) :: es, ρ, h => by
    have hstate := congrArg Prod.snd (leavesEntries_renumber es (t.renumber ρ).2)
    rw [List.map_cons, ← renumberEntries_eq_map es _ h, ← renumber_eq_relabel t ρ]
    · rfl
    · exact Renaming.Gives.before (hstate ▸ h)
theorem renumberAtom_eq : ∀ (a : Atom Ty) (ρ : Renaming), (renumberAtom a ρ).2.Gives f →
    (renumberAtom a ρ).1 = onArguments (relabel f) a
  | ⟨_, arguments, _⟩, ρ, h => by
    rw [onArguments, ← renumberEach_eq_map arguments ρ h]
    rfl
theorem renumberAtoms_eq_map : ∀ (as : List (Atom Ty)) (ρ : Renaming),
    (renumberAtoms as ρ).2.Gives f → (renumberAtoms as ρ).1 = as.map (onArguments (relabel f))
  | [], _, _ => rfl
  | a :: as, ρ, h => by
    have hstate := congrArg Prod.snd (leavesAtoms_renumber as (renumberAtom a ρ).2)
    rw [List.map_cons, ← renumberAtoms_eq_map as _ h, ← renumberAtom_eq a ρ]
    · rfl
    · exact Renaming.Gives.before (hstate ▸ h)
end

theorem renumberVariables_eq_map (vs : List Variable) (ρ : Renaming)
    (h : (renumberVariables vs ρ).2.Gives f) :
    (renumberVariables vs ρ).1 = vs.map (Variable.relabel f) := by
  induction vs generalizing ρ with
  | nil => rfl
  | cons v vs ih =>
    have hstate := congrArg Prod.snd (leaves_renumberVariables vs (v.type.renumber ρ).2)
    have hv : (v.type.renumber ρ).1 = v.type.relabel f :=
      renumber_eq_relabel v.type ρ (Renaming.Gives.before (hstate ▸ h))
    rw [List.map_cons, ← ih _ h, Variable.relabel, ← hv]
    rfl

end

end Ty

/-! ## The order of first occurrences -/

theorem eraseDups_concat (ids : List Nat) (id : Nat) :
    (ids ++ [id]).eraseDups = if id ∈ ids then ids.eraseDups else ids.eraseDups ++ [id] := by
  rw [List.eraseDups_append]
  by_cases h : id ∈ ids <;> simp [List.removeAll, List.eraseDups_cons, h]

/-- `f` counts the placeholders from `start` on, in the order in which they first occur. -/
def Counts (start : Nat) (ids : List Nat) (f : Nat → Nat) : Prop :=
  ids.eraseDups.map f = List.range' start ids.eraseDups.length

namespace Counts

variable {start : Nat} {ids : List Nat} {f g : Nat → Nat}

theorem injOn (h : Counts start ids f) : Set.InjOn f {id | id ∈ ids} := by
  have hnodup : (ids.eraseDups.map f).Nodup := h ▸ List.nodup_range'
  intro i hi j hj
  exact List.inj_on_of_nodup_map hnodup (List.mem_eraseDups.mpr hi) (List.mem_eraseDups.mpr hj)

/-- There is one way to count. -/
theorem eq (hf : Counts start ids f) (hg : Counts start ids g) {id : Nat} (hid : id ∈ ids) :
    f id = g id :=
  List.map_inj_left.mp (hf.trans hg.symm) id (List.mem_eraseDups.mpr hid)

end Counts

theorem eraseDups_map {g : Nat → Nat} {ids : List Nat} (hg : Set.InjOn g {id | id ∈ ids}) :
    (ids.map g).eraseDups = ids.eraseDups.map g := by
  induction ids using List.reverseRecOn with
  | nil => rfl
  | append_singleton ids id ih =>
    have hids : Set.InjOn g {i | i ∈ ids} := hg.mono fun i hi => List.mem_append_left _ hi
    have hmem : g id ∈ ids.map g ↔ id ∈ ids := by
      rw [List.mem_map]
      constructor
      · rintro ⟨i, hi, e⟩
        rwa [← hg (List.mem_append_left _ hi) (by simp) e]
      · exact fun h => ⟨id, h, rfl⟩
    rw [List.map_append, List.map_singleton, eraseDups_concat, eraseDups_concat, ih hids]
    by_cases h : id ∈ ids
    · rw [if_pos h, if_pos (hmem.mpr h)]
    · rw [if_neg h, if_neg (mt hmem.mp h), List.map_append, List.map_singleton]

/-- Numbers that differ where the old ones do are counted in the same way. -/
theorem Counts.comp {start : Nat} {ids : List Nat} {f g : Nat → Nat}
    (hg : Set.InjOn g {id | id ∈ ids}) (h : Counts start (ids.map g) f) :
    Counts start ids (f ∘ g) := by
  rw [Counts, eraseDups_map hg, List.map_map, List.length_map] at h
  exact h

namespace Ty

/-- The placeholders of `seen` have got the numbers from `start` on, and no others have any. -/
structure Renaming.Numbers (start : Nat) (seen : List Nat) (ρ : Renaming) : Prop where
  next : ρ.next = start + seen.eraseDups.length
  given : (seen.eraseDups.map fun id => ρ.renamed.lookup id) =
    (List.range' start seen.eraseDups.length).map some
  only : ∀ id n, ρ.renamed.lookup id = some n → id ∈ seen

namespace Renaming.Numbers

variable {start : Nat} {seen : List Nat} {ρ : Renaming}

theorem lookup_of_mem (h : ρ.Numbers start seen) {id : Nat} (hid : id ∈ seen) :
    ∃ n, ρ.renamed.lookup id = some n := by
  have hmem : ρ.renamed.lookup id ∈ (List.range' start seen.eraseDups.length).map some := by
    rw [← h.given]
    exact List.mem_map_of_mem (List.mem_eraseDups.mpr hid)
  obtain ⟨n, -, hn⟩ := List.mem_map.mp hmem
  exact ⟨n, hn.symm⟩

theorem rename (h : ρ.Numbers start seen) (id : Nat) :
    (ρ.rename id).2.Numbers start (seen ++ [id]) := by
  by_cases hid : id ∈ seen
  · obtain ⟨n, hn⟩ := h.lookup_of_mem hid
    have hfirsts : (seen ++ [id]).eraseDups = seen.eraseDups := by
      rw [eraseDups_concat, if_pos hid]
    rw [rename_of_some hn]
    refine ⟨hfirsts ▸ h.next, hfirsts ▸ h.given, fun i m hi => ?_⟩
    exact List.mem_append_left _ (h.only i m hi)
  · have hnone : ρ.renamed.lookup id = none := by
      rw [Option.eq_none_iff_forall_ne_some]
      exact fun n hn => hid (h.only id n hn)
    have hfirsts : (seen ++ [id]).eraseDups = seen.eraseDups ++ [id] := by
      rw [eraseDups_concat, if_neg hid]
    have hlookup : ∀ i, (ρ.rename id).2.renamed.lookup i =
        if i = id then some ρ.next else ρ.renamed.lookup i := by
      intro i
      rw [lookup_rename, rename_of_none hnone]
    refine ⟨?_, ?_, fun i n hi => ?_⟩
    · rw [rename_of_none hnone, hfirsts, List.length_append, ← Nat.add_assoc, ← h.next]
      rfl
    · -- the numbers given before stay, and the next one comes after them
      have hkept : (seen.eraseDups.map fun i => (ρ.rename id).2.renamed.lookup i) =
          seen.eraseDups.map fun i => ρ.renamed.lookup i := by
        refine List.map_congr_left fun i hi => ?_
        rw [hlookup, if_neg]
        exact fun e => hid (e ▸ List.mem_eraseDups.mp hi)
      rw [hfirsts, List.map_append, hkept, h.given, List.length_append, List.length_singleton,
        List.range'_1_concat, List.map_append, ← h.next]
      simp [hlookup]
    · rw [hlookup] at hi
      split at hi
      · rename_i e
        simp [e]
      · exact List.mem_append_left _ (h.only i n hi)

theorem counts (h : ρ.Numbers start seen) : Counts start seen ρ.number := by
  refine (List.map_inj_right fun m n => Option.some.inj).mp ?_
  rw [← h.given, List.map_map]
  refine List.map_congr_left fun id hid => ?_
  obtain ⟨n, hn⟩ := h.lookup_of_mem (List.mem_eraseDups.mp hid)
  simp [number, hn]

end Renaming.Numbers

theorem renumberLeaves_numbers {start : Nat} {seen : List Nat} {ρ : Renaming}
    (h : ρ.Numbers start seen) (ls : List Leaf) :
    (renumberLeaves ls ρ).2.Numbers start (seen ++ ls.filterMap Leaf.id?) := by
  induction ls generalizing seen ρ with
  | nil =>
    rw [List.filterMap_nil, List.append_nil]
    exact h
  | cons l ls ih =>
    cases l with
    | placeholder id =>
      have hls := ih (h.rename id)
      rw [List.append_assoc] at hls
      exact hls
    | empty => exact ih h
    | ignore => exact ih h

end Ty

/-! ## Imports -/

theorem Context.instantiate_eq (c : Context) (vs : List Variable) :
    ∃ f, Counts c.nextId (occurrences vs) f ∧
      c.instantiate vs = (vs.map (Variable.relabel f),
        { c with nextId := c.nextId + (occurrences vs).eraseDups.length }) := by
  have hstate := congrArg Prod.snd (leaves_renumberVariables vs ⟨c.nextId, []⟩)
  dsimp only at hstate
  have hstart : Ty.Renaming.Numbers c.nextId [] ⟨c.nextId, []⟩ :=
    ⟨rfl, rfl, fun id n h => by cases h⟩
  have hend := Ty.renumberLeaves_numbers hstart (vs.flatMap (·.type.leaves))
  rw [← hstate, List.nil_append, List.filterMap_flatMap] at hend
  refine ⟨_, hend.counts, ?_⟩
  have hvs := Ty.renumberVariables_eq_map vs ⟨c.nextId, []⟩ (Ty.Renaming.gives_number _)
  rw [← hvs, Context.instantiate]
  dsimp only
  rw [hend.next]
  rfl

/-- The variables differ in the numbers of their placeholders only, and placeholders that were
different are different. -/
def Renamed (vs ws : List Variable) : Prop :=
  ∃ f : Nat → Nat, Set.InjOn f {id | id ∈ occurrences vs} ∧ ws = vs.map (Variable.relabel f)

section
variable {c : Context} {vs ws : List Variable}

theorem Renamed.instantiate_eq (h : Renamed vs ws) : c.instantiate vs = c.instantiate ws := by
  obtain ⟨g, hg, rfl⟩ := h
  obtain ⟨f, hf, hvs⟩ := c.instantiate_eq vs
  obtain ⟨f', hf', hws⟩ := c.instantiate_eq (vs.map (Variable.relabel g))
  rw [occurrences_relabel] at hf' hws
  have hlength : ((occurrences vs).map g).eraseDups.length = (occurrences vs).eraseDups.length := by
    rw [eraseDups_map hg, List.length_map]
  rw [hvs, hws, hlength, map_relabel_relabel]
  rw [map_relabel_congr fun id hid => hf.eq (hf'.comp hg) hid]

theorem renamed_of_instantiate_eq (h : (c.instantiate vs).1 = (c.instantiate ws).1) :
    Renamed vs ws := by
  obtain ⟨f, hf, hvs⟩ := c.instantiate_eq vs
  obtain ⟨g, hg, hws⟩ := c.instantiate_eq ws
  rw [hvs, hws] at h
  dsimp only at h
  -- the new numbers lead back to the old ones of `ws`
  let back := Function.invFunOn g {id | id ∈ occurrences ws}
  have hback : ∀ id ∈ occurrences ws, back (g id) = id := hg.injOn.leftInvOn_invFunOn
  have hsame : ∀ id ∈ occurrences vs, g (back (f id)) = f id := by
    intro id hid
    have hmem : f id ∈ (occurrences ws).map g := by
      rw [← occurrences_relabel, ← h, occurrences_relabel]
      exact List.mem_map_of_mem hid
    obtain ⟨j, hj, e⟩ := List.mem_map.mp hmem
    rw [← e, hback j hj]
  refine ⟨back ∘ f, fun i hi j hj e => ?_, ?_⟩
  · have e : g (back (f i)) = g (back (f j)) := congrArg g e
    rw [hsame i hi, hsame j hj] at e
    exact hf.injOn hi hj e
  · calc ws
      _ = ws.map (Variable.relabel id) := (map_relabel_id ws).symm
      _ = ws.map (Variable.relabel (back ∘ g)) := map_relabel_congr fun i hi => (hback i hi).symm
      _ = vs.map (Variable.relabel (back ∘ f)) := by
        rw [← map_relabel_relabel, ← h, map_relabel_relabel]

end

/-- **Imported placeholders are numbered in order.** The variables of another file stay what they are
but for the numbers of their placeholders, which are counted from the next free number on in the order
of their first occurrence. Two lists of variables yield the same if and only if they differ in these
numbers only. -/
theorem imports_numbered_in_order (c : Context) :
    (∀ vs : List Variable, ∃ f : Nat → Nat,
      let firsts := (occurrences vs).eraseDups
      Set.InjOn f {id | id ∈ occurrences vs} ∧
      firsts.map f = List.range' c.nextId firsts.length ∧
      c.instantiate vs =
        (vs.map (Variable.relabel f), { c with nextId := c.nextId + firsts.length })) ∧
    ∀ vs ws : List Variable,
      ((c.instantiate vs).1 = (c.instantiate ws).1 ↔ Renamed vs ws) ∧
      (c.instantiate vs = c.instantiate ws ↔ Renamed vs ws) := by
  refine ⟨fun vs => ?_, fun vs ws => ⟨⟨renamed_of_instantiate_eq, fun h => ?_⟩, ?_⟩⟩
  · obtain ⟨f, hf, hvs⟩ := c.instantiate_eq vs
    exact ⟨f, hf.injOn, hf, hvs⟩
  · rw [h.instantiate_eq]
  · exact ⟨fun h => renamed_of_instantiate_eq (congrArg Prod.fst h), Renamed.instantiate_eq⟩

/-- A placeholder that two variables share is shared by what is imported. -/
example (c : Context) :
    c.instantiate [⟨"f", .function true [.placeholder true 7] (.placeholder true 3)⟩,
        ⟨"g", .tuple true [.placeholder false 3, .number true, .placeholder true 9]⟩] =
      let n := c.nextId
      ([⟨"f", .function true [.placeholder true n] (.placeholder true (n + 1))⟩,
        ⟨"g", .tuple true [.placeholder false (n + 1), .number true, .placeholder true (n + 2)]⟩],
        { c with nextId := n + 3 }) :=
  rfl

end ShapeCheck
