import ShapeCheck.Proofs.FailedParts
import ShapeCheck.Proofs.Instances

/-!
# What a call settles

A call is accepted as long as its placeholders might stand for something that fits. Then each pair
of an argument and a parameter, one of them a placeholder, settles that placeholder by the other
type. This is no search for a solution: the first pair decides. Whether the call would still be
accepted with all that it settles depends on the placeholders that stand in several pairs.
-/

namespace ShapeCheck

namespace Ty

/-! ## Types up to marks -/

theorem valuelessEach_eq_map (ts : List Ty) : valuelessEach ts = ts.map valueless := by
  induction ts with
  | nil => rfl
  | cons t ts ih => simp [valuelessEach, ih]

theorem valuelessEntries_eq_map (es : List (String × Ty)) :
    valuelessEntries es = es.map fun e => (e.1, e.2.valueless) := by
  induction es with
  | nil => rfl
  | cons e es ih => simp [valuelessEntries, ih]

theorem valueless_withValue (v : Bool) (t : Ty) : (t.withValue v).valueless = t.valueless := by
  cases t with
  | atom a => cases a; rfl
  | _ => rfl

theorem subtype_congr {mode : Mode} {a a' b b' : Ty} (ha : a.valueless = a'.valueless)
    (hb : b.valueless = b'.valueless) : subtype mode a b = subtype mode a' b' := by
  rw [← subtype_valueless, ha, hb, subtype_valueless]

/-! ## Replacements that absorb a substitution -/

section
variable {θ : Replacement}

/-- The replacement makes one type of the placeholder and of what it is replaced by. -/
def Agrees (θ : Replacement) (s : Nat × Ty) : Prop :=
  (θ s.1).valueless = (s.2.replace θ).valueless

theorem replace_withValue (v : Bool) (t : Ty) :
    (t.withValue v).replace θ = (t.replace θ).withValue v := by
  cases t with
  | placeholder w i => exact (withValue_withValue v w (θ i)).symm
  | atom a => cases a; rfl
  | _ => rfl

theorem Agrees.replace_substitute {s : Nat × Ty} (h : Agrees θ s) (t : Ty) :
    ((substitute s.1 s.2 t).replace θ).valueless = (t.replace θ).valueless := by
  have hatom : ∀ a : Atom Ty,
      (∀ x ∈ a.arguments,
        ((substitute s.1 s.2 x).replace θ).valueless = (x.replace θ).valueless) →
      valuelessAtom (replaceAtom θ (substituteAtom s.1 s.2 a)) =
        valuelessAtom (replaceAtom θ a) := by
    intro a ha
    cases a
    simp only [substituteAtom, replaceAtom, valuelessAtom, substituteEach_eq_map,
      replaceEach_eq_map, valuelessEach_eq_map, List.map_map]
    exact congrArg (Atom.mk _ · false) (List.map_congr_left ha)
  induction t using induction_on_parts with
  | placeholder v i =>
    by_cases hi : i = s.1
    · rw [substitute, if_pos hi, replace_withValue, replace, valueless_withValue,
        valueless_withValue, hi, h]
    · rw [substitute, if_neg hi]
  | tuple v items ih =>
    simp only [substitute, replace, valueless, substituteEach_eq_map, replaceEach_eq_map,
      valuelessEach_eq_map, List.map_map]
    exact congrArg _ (List.map_congr_left ih)
  | record v entries ih =>
    simp only [substitute, replace, valueless, substituteEntries_eq_map, replaceEntries_eq_map,
      valuelessEntries_eq_map, List.map_map]
    refine congrArg _ (List.map_congr_left fun e he => ?_)
    simp [ih e he]
  | function v parameters result ihs ih =>
    simp only [substitute, replace, valueless, substituteEach_eq_map, replaceEach_eq_map,
      valuelessEach_eq_map, List.map_map, ih]
    exact congrArg (function false · _) (List.map_congr_left ihs)
  | atom a ih => exact congrArg Ty.atom (hatom a ih)
  | union v atoms ih =>
    simp only [substitute, replace, valueless, substituteAtoms_eq_map, replaceAtoms_eq_map,
      valuelessAtoms_eq_map, List.map_map]
    exact congrArg _ (List.map_congr_left fun a ha => hatom a (ih a ha))
  | _ => rfl

end

/-! ## Types before and after a substitution -/

/-- Each of the types may stand for the other while it is not known what the placeholders are. -/
def Exchangeable (a b : Ty) : Prop :=
  subtype .inferring a b ∧ subtype .inferring b a

section
variable {id : Nat} {r : Ty}

theorem forall₂_exchangeable {ts : List Ty} (h : ∀ t ∈ ts, Exchangeable t (substitute id r t)) :
    List.Forall₂ (fun x y => subtype .inferring x y) ts (substituteEach id r ts) ∧
      List.Forall₂ (fun x y => subtype .inferring x y) (substituteEach id r ts) ts := by
  rw [substituteEach_eq_map, List.forall₂_map_left_iff, List.forall₂_map_right_iff,
    List.forall₂_same, List.forall₂_same]
  exact ⟨fun t ht => (h t ht).1, fun t ht => (h t ht).2⟩

theorem fitsAtom_exchangeable {a : Atom Ty}
    (h : ∀ t ∈ a.arguments, Exchangeable t (substitute id r t)) :
    FitsAtom .inferring a (substituteAtom id r a) ∧
      FitsAtom .inferring (substituteAtom id r a) a := by
  cases a
  have harguments := forall₂_exchangeable h
  exact ⟨⟨rfl, harguments.1⟩, ⟨rfl, harguments.2⟩⟩

theorem exchangeable_substitute {t : Ty} (h : t.containsIgnore = false) :
    Exchangeable t (substitute id r t) := by
  induction t using induction_on_parts with
  | placeholder v i => exact ⟨subtype_of_placeholder, subtype_placeholder⟩
  | tuple v items ih =>
    rw [containsIgnore_tuple] at h
    have hitems := forall₂_exchangeable fun t ht => ih t ht (h t ht)
    exact ⟨(Fits.tuple hitems.1).subtype, (Fits.tuple hitems.2).subtype⟩
  | record v entries ih =>
    rw [containsIgnore_record] at h
    rw [substitute, substituteEntries_eq_map]
    constructor
    · refine (Fits.record ?_).subtype
      rw [List.forall₂_map_right_iff, List.forall₂_same]
      exact fun e he => ⟨rfl, (ih e he (h e he)).1⟩
    · refine (Fits.record ?_).subtype
      rw [List.forall₂_map_left_iff, List.forall₂_same]
      exact fun e he => ⟨rfl, (ih e he (h e he)).2⟩
  | function v parameters result ihs ih =>
    rw [containsIgnore_function] at h
    have hps := forall₂_exchangeable fun p hp => ihs p hp (h.1 p hp)
    have hr := ih h.2
    exact ⟨(Fits.function hps.1 hr.1).subtype, (Fits.function hps.2 hr.2).subtype⟩
  | atom a ih =>
    rw [containsIgnore_atom] at h
    have ha := fitsAtom_exchangeable fun t ht => ih t ht (h t ht)
    exact ⟨(Fits.atom ha.1).subtype, (Fits.atom ha.2).subtype⟩
  | union v atoms ih =>
    rw [containsIgnore_union] at h
    rw [substitute, substituteAtoms_eq_map]
    constructor
    · refine (Fits.union fun a ha => ⟨_, List.mem_map_of_mem ha, ?_⟩).subtype
      exact (fitsAtom_exchangeable fun t ht => ih a ha t ht (h a ha t ht)).1
    · refine (Fits.union fun a' ha' => ?_).subtype
      obtain ⟨a, ha, rfl⟩ := List.mem_map.mp ha'
      exact ⟨a, ha, (fitsAtom_exchangeable fun t ht => ih a ha t ht (h a ha t ht)).2⟩
  | ignore => cases h
  | _ => exact ⟨subtype_self rfl, subtype_self rfl⟩

end

/-! ## Substitutions that leave a type alone -/

theorem apply_append (σ τ : Substitution) (t : Ty) : t.apply (σ ++ τ) = (t.apply σ).apply τ :=
  List.foldl_append

theorem apply_of_notMem {σ : Substitution} {t : Ty} (h : ∀ s ∈ σ, .placeholder s.1 ∉ t.leaves) :
    t.apply σ = t := by
  induction σ with
  | nil => rfl
  | cons s σ ih =>
    have hs : substitute s.1 s.2 t = t := substitute_of_notMem s.1 s.2 t (h s (by simp))
    calc t.apply (s :: σ)
      _ = (substitute s.1 s.2 t).apply σ := rfl
      _ = t := by rw [hs, ih fun s' hs' => h s' (by simp [hs'])]

theorem placeholder?_withValue (v : Bool) (t : Ty) :
    (t.withValue v).placeholder? = t.placeholder? := by
  cases t <;> rfl

def Known (σ : Substitution) : Prop :=
  ∀ s ∈ σ, s.2.placeholder? = none

theorem Known.append {σ τ : Substitution} (hσ : Known σ) (hτ : Known τ) : Known (σ ++ τ) :=
  fun s hs => (List.mem_append.mp hs).elim (hσ s) (hτ s)

/-- Only what was a placeholder is one after the substitution. -/
theorem Known.placeholder?_of_apply {σ : Substitution} (hσ : Known σ) {t : Ty} {id : Nat}
    (h : (t.apply σ).placeholder? = some id) : t.placeholder? = some id := by
  induction σ generalizing t with
  | nil => exact h
  | cons s σ ih =>
    have h : (substitute s.1 s.2 t).placeholder? = some id :=
      ih (fun s' hs' => hσ s' (by simp [hs'])) h
    cases t with
    | placeholder v i =>
      by_cases hi : i = s.1
      · rw [substitute, if_pos hi, placeholder?_withValue, hσ s (by simp)] at h
        cases h
      · rwa [substitute, if_neg hi] at h
    | _ => cases h

end Ty

/-! ## One pair after the other -/

open Ty (Substitution Replacement)

/-- What a pair of an argument and a parameter settles after `τ`. The parameter is brought up to
date, the argument is not. -/
def settled? (τ : Substitution) (x : Ty × Ty) : Option (Nat × Ty) :=
  match x.1.placeholder?, (x.2.apply τ).placeholder? with
  | some id, none => some (id, x.2.apply τ)
  | none, some id => some (id, x.1)
  | _, _ => none

def settleAll (pairs : List (Ty × Ty)) (τ : Substitution) : Substitution :=
  pairs.foldl (fun τ x => τ ++ (settled? τ x).toList) τ

theorem settleAll_eq (parameters arguments : List Ty) (τ : Substitution) :
    settleAll (arguments.zip parameters) τ =
      τ ++ callSubstitution (parameters.map (Ty.apply τ)) arguments := by
  induction arguments generalizing parameters τ with
  | nil => cases parameters <;> simp [settleAll, callSubstitution]
  | cons a arguments ih =>
    cases parameters with
    | nil => simp [settleAll, callSubstitution]
    | cons p parameters =>
      have hstep : ∀ id r, Ty.substituteEach id r (parameters.map (Ty.apply τ)) =
          parameters.map (Ty.apply (τ ++ [(id, r)])) := by
        intro id r
        rw [Ty.substituteEach_eq_map, List.map_map]
        exact List.map_congr_left fun t _ => (Ty.apply_append τ [(id, r)] t).symm
      have hcons : settleAll ((a :: arguments).zip (p :: parameters)) τ =
          settleAll (arguments.zip parameters) (τ ++ (settled? τ (a, p)).toList) := rfl
      rw [hcons, ih, List.map_cons, callSubstitution, settled?]
      cases a.placeholder? <;> cases (p.apply τ).placeholder? <;> simp [hstep]

theorem callSubstitution_eq_settleAll (parameters arguments : List Ty) :
    callSubstitution parameters arguments = settleAll (arguments.zip parameters) [] := by
  rw [settleAll_eq, List.nil_append, show parameters.map (Ty.apply []) = parameters from
    List.map_id parameters]

theorem settled?_eq_some {τ : Substitution} {x : Ty × Ty} {s : Nat × Ty}
    (h : settled? τ x = some s) :
    (x.1.placeholder? = some s.1 ∧ (x.2.apply τ).placeholder? = none ∧ s.2 = x.2.apply τ) ∨
      x.1.placeholder? = none ∧ (x.2.apply τ).placeholder? = some s.1 ∧ s.2 = x.1 := by
  unfold settled? at h
  split at h
  · rename_i ha hp
    cases h
    exact Or.inl ⟨ha, hp, rfl⟩
  · rename_i ha hp
    cases h
    exact Or.inr ⟨ha, hp, rfl⟩
  · cases h

theorem known_settled? (τ : Substitution) (x : Ty × Ty) : Ty.Known (settled? τ x).toList := by
  intro s hs
  rcases settled?_eq_some (Option.mem_toList.mp hs) with ⟨-, hp, hr⟩ | ⟨ha, -, hr⟩
  · rw [hr, hp]
  · rw [hr, ha]

theorem prefix_settleAll (pairs : List (Ty × Ty)) (τ : Substitution) :
    τ <+: settleAll pairs τ := by
  induction pairs generalizing τ with
  | nil => exact List.prefix_rfl
  | cons x pairs ih => exact (List.prefix_append _ _).trans (ih _)

/-- What holds at the start and is kept by each step holds at the end. -/
theorem settleAll_induction {P : Substitution → Prop} {pairs : List (Ty × Ty)} {τ : Substitution}
    (start : P τ)
    (step : ∀ τ' x s, x ∈ pairs → settled? τ' x = some s → s ∈ settleAll pairs τ → P τ' →
      P (τ' ++ [s])) : P (settleAll pairs τ) := by
  induction pairs generalizing τ with
  | nil => exact start
  | cons x pairs ih =>
    have hfirst : P (τ ++ (settled? τ x).toList) := by
      cases hx : settled? τ x with
      | none => simpa using start
      | some s =>
        have hs : s ∈ τ ++ (settled? τ x).toList := by simp [hx]
        exact step τ x s (by simp) hx ((prefix_settleAll pairs _).subset hs) start
    exact ih hfirst fun τ' y s hy => step τ' y s (by simp [hy])

/-! ## Placeholders in one pair and in several -/

def standsIn (id : Nat) (x : Ty × Ty) : Bool :=
  decide (Leaf.placeholder id ∈ x.1.leaves ++ x.2.leaves)

theorem standsIn_iff {id : Nat} {x : Ty × Ty} :
    standsIn id x ↔ .placeholder id ∈ x.1.leaves ∨ .placeholder id ∈ x.2.leaves := by
  simp [standsIn]

theorem standsIn_of_settled? {τ : Substitution} (hτ : Ty.Known τ) {x : Ty × Ty} {s : Nat × Ty}
    (h : settled? τ x = some s) : standsIn s.1 x := by
  rw [standsIn_iff]
  rcases settled?_eq_some h with ⟨ha, -, -⟩ | ⟨-, hp, -⟩
  · exact Or.inl (Ty.mem_leaves_of_placeholder? ha)
  · exact Or.inr (Ty.mem_leaves_of_placeholder? (hτ.placeholder?_of_apply hp))

/-- Each step is about a placeholder that stood in one of the pairs from the start. -/
theorem settleAll_extends (pairs : List (Ty × Ty)) (τ : Substitution) (hτ : Ty.Known τ) :
    ∃ ρ, settleAll pairs τ = τ ++ ρ ∧ Ty.Known ρ ∧ ∀ s ∈ ρ, ∃ x ∈ pairs, standsIn s.1 x := by
  induction pairs generalizing τ with
  | nil => exact ⟨[], (List.append_nil τ).symm, by simp [Ty.Known], by simp⟩
  | cons x pairs ih =>
    have hx := known_settled? τ x
    obtain ⟨ρ, hρ, hknown, hstands⟩ := ih _ (hτ.append hx)
    refine ⟨(settled? τ x).toList ++ ρ, ?_, hx.append hknown, fun s hs => ?_⟩
    · rw [← List.append_assoc]
      exact hρ
    · rcases List.mem_append.mp hs with hs | hs
      · exact ⟨x, by simp, standsIn_of_settled? hτ (Option.mem_toList.mp hs)⟩
      · obtain ⟨y, hy, h⟩ := hstands s hs
        exact ⟨y, by simp [hy], h⟩

/-! ## Pairs that share no placeholder -/

/-- No placeholder that is settled stands both in this pair and in another one. -/
def Alone (pairs : List (Ty × Ty)) (x : Ty × Ty) : Prop :=
  ∀ s ∈ settleAll pairs [], standsIn s.1 x → pairs.countP (standsIn s.1) ≤ 1

theorem not_standsIn_of_alone {before after : List (Ty × Ty)} {x y : Ty × Ty} {s : Nat × Ty}
    (hx : Alone (before ++ x :: after) x) (hs : s ∈ settleAll (before ++ x :: after) [])
    (hy : y ∈ before ∨ y ∈ after) (h : standsIn s.1 y) : ¬ standsIn s.1 x := by
  intro hsx
  have hcount := hx s hs hsx
  rw [List.countP_append, List.countP_cons_of_pos hsx] at hcount
  rcases hy with hy | hy
  · have := List.countP_pos_iff.mpr ⟨y, hy, h⟩
    omega
  · have := List.countP_pos_iff.mpr ⟨y, hy, h⟩
    omega

section
variable {τ : Substitution} {x : Ty × Ty} {s : Nat × Ty}

/-- A pair that nothing has changed yet fits once it has settled its placeholder. -/
theorem subtype_of_settled? (h : settled? τ x = some s) (hτ : x.2.apply τ = x.2)
    (hargument : x.1.containsIgnore = false) (hparameter : x.2.containsIgnore = false) :
    Ty.subtype .inferring (Ty.substitute s.1 s.2 x.1) (Ty.substitute s.1 s.2 x.2) := by
  obtain ⟨a, p⟩ := x
  have hplaceholder : ∀ {t : Ty}, t.placeholder? = some s.1 →
      (Ty.substitute s.1 s.2 t).valueless = s.2.valueless := by
    intro t ht
    cases t with
    | placeholder v i =>
      cases ht
      rw [Ty.substitute, if_pos rfl, Ty.valueless_withValue]
    | _ => cases ht
  rcases settled?_eq_some h with ⟨ha, -, hs⟩ | ⟨-, hp, hs⟩
  · rw [Ty.subtype_congr (hplaceholder ha) rfl, hs, hτ]
    exact (Ty.exchangeable_substitute hparameter).1
  · rw [hτ] at hp
    rw [Ty.subtype_congr rfl (hplaceholder hp), hs]
    exact (Ty.exchangeable_substitute hargument).2

theorem mem_leaves_settled? {l : Leaf} (h : settled? τ x = some s) (hτ : x.2.apply τ = x.2)
    (hl : l ∈ s.2.leaves) : l ∈ x.1.leaves ∨ l ∈ x.2.leaves := by
  rcases settled?_eq_some h with ⟨-, -, hs⟩ | ⟨-, -, hs⟩
  · rw [hs, hτ] at hl
    exact Or.inr hl
  · rw [hs] at hl
    exact Or.inl hl

end

/-- The other pairs settle nothing in a pair that is alone, neither before its turn nor after. -/
theorem alone_split {pairs : List (Ty × Ty)} {x : Ty × Ty} (hx : x ∈ pairs)
    (halone : Alone pairs x) :
    ∃ τ ρ, settleAll pairs [] = τ ++ ((settled? τ x).toList ++ ρ) ∧
      (∀ s ∈ τ, ¬ standsIn s.1 x) ∧ ∀ s ∈ ρ, ¬ standsIn s.1 x := by
  obtain ⟨before, after, rfl⟩ := List.append_of_mem hx
  obtain ⟨τ, hτ, hknown, hbefore⟩ := settleAll_extends before [] (by simp [Ty.Known])
  obtain ⟨ρ, hρ, -, hafter⟩ :=
    settleAll_extends after _ (hknown.append (known_settled? τ x))
  have hσ : settleAll (before ++ x :: after) [] = τ ++ ((settled? τ x).toList ++ ρ) :=
    calc settleAll (before ++ x :: after) []
      _ = settleAll (x :: after) (settleAll before []) := List.foldl_append
      _ = settleAll (x :: after) τ := by rw [hτ, List.nil_append]
      _ = τ ++ ((settled? τ x).toList ++ ρ) := by rw [← List.append_assoc, ← hρ]; rfl
  refine ⟨τ, ρ, hσ, fun s hs => ?_, fun s hs => ?_⟩
  · obtain ⟨y, hy, hsy⟩ := hbefore s hs
    exact not_standsIn_of_alone halone (by simp [hσ, hs]) (Or.inl hy) hsy
  · obtain ⟨y, hy, hsy⟩ := hafter s hs
    exact not_standsIn_of_alone halone (by simp [hσ, hs]) (Or.inr hy) hsy

theorem alone_fits {pairs : List (Ty × Ty)} {x : Ty × Ty} (hx : x ∈ pairs) (halone : Alone pairs x)
    (hargument : x.1.containsIgnore = false) (hparameter : x.2.containsIgnore = false)
    (h : Ty.subtype .inferring x.1 x.2) :
    Ty.subtype .inferring (x.1.apply (settleAll pairs [])) (x.2.apply (settleAll pairs [])) := by
  obtain ⟨τ, ρ, hσ, hτ, hρ⟩ := alone_split hx halone
  simp only [standsIn_iff, not_or] at hτ hρ
  have hargumentτ : x.1.apply τ = x.1 := Ty.apply_of_notMem fun s hs => (hτ s hs).1
  have hparameterτ : x.2.apply τ = x.2 := Ty.apply_of_notMem fun s hs => (hτ s hs).2
  rw [hσ, Ty.apply_append τ _ x.1, Ty.apply_append τ _ x.2, hargumentτ, hparameterτ]
  cases hs : settled? τ x with
  | none =>
    have hargumentρ : x.1.apply ρ = x.1 := Ty.apply_of_notMem fun s hs => (hρ s hs).1
    have hparameterρ : x.2.apply ρ = x.2 := Ty.apply_of_notMem fun s hs => (hρ s hs).2
    simpa [hargumentρ, hparameterρ] using h
  | some s =>
    -- what the pair has become is made of its own parts, which the later steps leave alone
    have hrest : ∀ t : Ty, (∀ l ∈ t.leaves, l ∈ x.1.leaves ∨ l ∈ x.2.leaves) →
        t.apply ((some s).toList ++ ρ) = Ty.substitute s.1 s.2 t := by
      intro t ht
      suffices h : (Ty.substitute s.1 s.2 t).apply ρ = Ty.substitute s.1 s.2 t from h
      refine Ty.apply_of_notMem fun s' hs' hl => ?_
      rcases (Ty.mem_leaves_substitute hl).elim (ht _) (mem_leaves_settled? hs hparameterτ) with
        hl | hl
      · exact (hρ s' hs').1 hl
      · exact (hρ s' hs').2 hl
    rw [hrest x.1 fun l hl => Or.inl hl, hrest x.2 fun l hl => Or.inr hl]
    exact subtype_of_settled? hs hparameterτ hargument hparameter

/-! ## Pairs that share a placeholder -/

/-- The replacement makes the pair fit. Where one side is a placeholder, it makes both sides one
type, up to marks. -/
structure Solves (θ : Replacement) (x : Ty × Ty) : Prop where
  fits : Ty.subtype .inferring (x.1.replace θ) (x.2.replace θ)
  equal : x.1.placeholder?.isSome ∨ x.2.placeholder?.isSome →
    (x.1.replace θ).valueless = (x.2.replace θ).valueless

/-- A placeholder that is settled and stands in a pair that is alone. -/
def Private (pairs : List (Ty × Ty)) (id : Nat) : Prop :=
  ∃ x ∈ pairs, Alone pairs x ∧ standsIn id x ∧ ∃ s ∈ settleAll pairs [], s.1 = id

def Public (pairs : List (Ty × Ty)) (t : Ty) : Prop :=
  ∀ id, Private pairs id → .placeholder id ∉ t.leaves

section
variable {pairs : List (Ty × Ty)} {x : Ty × Ty} {θ : Replacement}

theorem public_of_not_alone (hx : x ∈ pairs) (hshared : ¬ Alone pairs x) :
    Public pairs x.1 ∧ Public pairs x.2 := by
  have hstands : ∀ id, Private pairs id → ¬ standsIn id x := by
    rintro id ⟨y, hy, halone, hidy, s, hs, rfl⟩ hidx
    obtain ⟨before, after, rfl⟩ := List.append_of_mem hy
    rcases List.mem_append.mp hx with hx | hx
    · exact not_standsIn_of_alone halone hs (Or.inl hx) hidx hidy
    · rcases List.mem_cons.mp hx with rfl | hx
      · exact hshared halone
      · exact not_standsIn_of_alone halone hs (Or.inr hx) hidx hidy
  simp only [standsIn_iff, not_or] at hstands
  exact ⟨fun id hid => (hstands id hid).1, fun id hid => (hstands id hid).2⟩

theorem valueless_replace_placeholder {t : Ty} {id : Nat} (h : t.placeholder? = some id) :
    (t.replace θ).valueless = (θ id).valueless := by
  cases t with
  | placeholder v i =>
    cases h
    exact Ty.valueless_withValue v _
  | _ => cases h

theorem Solves.agrees {τ : Substitution} {s : Nat × Ty} (hx : Solves θ x)
    (hknown : Ty.Known τ)
    (hτ : ((x.2.apply τ).replace θ).valueless = (x.2.replace θ).valueless)
    (h : settled? τ x = some s) : Ty.Agrees θ s := by
  unfold Ty.Agrees
  rcases settled?_eq_some h with ⟨ha, -, hs⟩ | ⟨-, hp, hs⟩
  · rw [hs, hτ, ← hx.equal (Or.inl (by simp [ha])), valueless_replace_placeholder ha]
  · have hequal := hx.equal (Or.inr (by simp [hknown.placeholder?_of_apply hp]))
    rw [hs, hequal, ← hτ, valueless_replace_placeholder hp]

/-- What holds of the steps made so far, on the types that no pair that is alone has a part in. -/
structure Absorbed (pairs : List (Ty × Ty)) (θ : Replacement) (τ : Substitution) : Prop where
  known : Ty.Known τ
  public_apply : ∀ t, Public pairs t → Public pairs (t.apply τ)
  equal : ∀ t, Public pairs t → ((t.apply τ).replace θ).valueless = (t.replace θ).valueless

section
variable {τ : Substitution} {s : Nat × Ty}

theorem Absorbed.nil : Absorbed pairs θ [] where
  known := by simp [Ty.Known]
  public_apply _ ht := ht
  equal _ _ := rfl

theorem known_of_settled? (h : settled? τ x = some s) : Ty.Known [s] := by
  simpa [h] using known_settled? τ x

/-- A step of a pair that is alone does not reach the types in question. -/
theorem Absorbed.append_of_alone (hτ : Absorbed pairs θ τ) (hx : x ∈ pairs)
    (halone : Alone pairs x) (h : settled? τ x = some s) (hs : s ∈ settleAll pairs []) :
    Absorbed pairs θ (τ ++ [s]) := by
  have hprivate : Private pairs s.1 :=
    ⟨x, hx, halone, standsIn_of_settled? hτ.known h, s, hs, rfl⟩
  have hsame : ∀ t, Public pairs t → t.apply (τ ++ [s]) = t.apply τ := by
    intro t ht
    rw [Ty.apply_append]
    exact Ty.substitute_of_notMem s.1 s.2 _ (hτ.public_apply t ht s.1 hprivate)
  refine ⟨hτ.known.append (known_of_settled? h), fun t ht => ?_, fun t ht => ?_⟩
  · rw [hsame t ht]
    exact hτ.public_apply t ht
  · rw [hsame t ht]
    exact hτ.equal t ht

theorem Absorbed.append_of_solves (hτ : Absorbed pairs θ τ) (hx : x ∈ pairs)
    (hshared : ¬ Alone pairs x) (hsolves : Solves θ x) (h : settled? τ x = some s) :
    Absorbed pairs θ (τ ++ [s]) := by
  obtain ⟨hargument, hparameter⟩ := public_of_not_alone hx hshared
  have hreplacement : Public pairs s.2 := by
    rcases settled?_eq_some h with ⟨-, -, hs⟩ | ⟨-, -, hs⟩
    · rw [hs]
      exact hτ.public_apply _ hparameter
    · rw [hs]
      exact hargument
  have hagrees := hsolves.agrees hτ.known (hτ.equal _ hparameter) h
  refine ⟨hτ.known.append (known_of_settled? h), fun t ht id hid hl => ?_, fun t ht => ?_⟩
  · rw [Ty.apply_append] at hl
    exact (Ty.mem_leaves_substitute hl).elim (hτ.public_apply t ht id hid) (hreplacement id hid)
  · rw [Ty.apply_append]
    exact (hagrees.replace_substitute _).trans (hτ.equal t ht)

end

/-- A solution of the pairs that share something absorbs all that the call settles in them. -/
theorem absorbed_settleAll (hsolves : ∀ x ∈ pairs, ¬ Alone pairs x → Solves θ x) :
    Absorbed pairs θ (settleAll pairs []) := by
  refine settleAll_induction Absorbed.nil fun τ x s hx h hs hτ => ?_
  by_cases halone : Alone pairs x
  · exact hτ.append_of_alone hx halone h hs
  · exact hτ.append_of_solves hx halone (hsolves x hx halone) h

theorem shared_fits (hsolves : ∀ x ∈ pairs, ¬ Alone pairs x → Solves θ x) (hx : x ∈ pairs)
    (hshared : ¬ Alone pairs x) :
    Ty.subtype .inferring (x.1.apply (settleAll pairs [])) (x.2.apply (settleAll pairs [])) := by
  obtain ⟨hargument, hparameter⟩ := public_of_not_alone hx hshared
  have hfits := (hsolves x hx hshared).fits
  have habsorbed := absorbed_settleAll hsolves
  rw [← Ty.subtype_congr (habsorbed.equal _ hargument) (habsorbed.equal _ hparameter)] at hfits
  exact Ty.subtype_of_replace hfits

end

/-! ## Calls -/

/-- A call stays accepted with all that it settles, if one replacement solves every pair in which a
placeholder stands that is settled and stands in other pairs too. -/
theorem settled_call_accepted (c : Context) (result : Ty) (parameters arguments : List Ty)
    (haccepted : Ty.subtypes .inferring arguments parameters)
    (hclean : ∀ t ∈ arguments ++ parameters, t.containsIgnore = false) (θ : Replacement)
    (hsolves : ∀ s ∈ callSubstitution parameters arguments,
      1 < (arguments.zip parameters).countP (standsIn s.1) →
        ∀ x ∈ arguments.zip parameters, standsIn s.1 x → Solves θ x) :
    let σ := callSubstitution parameters arguments
    c.resolveCall parameters arguments result = (result.apply σ, c.apply σ) ∧
      Ty.subtypes .inferring (arguments.map (Ty.apply σ)) (parameters.map (Ty.apply σ)) := by
  intro σ
  refine ⟨rfl, ?_⟩
  have hσ : σ = settleAll (arguments.zip parameters) [] :=
    callSubstitution_eq_settleAll parameters arguments
  have hshared : ∀ x ∈ arguments.zip parameters, ¬ Alone (arguments.zip parameters) x →
      Solves θ x := by
    intro x hx halone
    simp only [Alone, ← hσ, not_forall, Nat.not_le] at halone
    obtain ⟨s, hs, hstands, hcount⟩ := halone
    exact hsolves s hs hcount x hx hstands
  obtain ⟨hlength, hfits⟩ := List.forall₂_iff_zip.mp (Ty.subtypes_iff.mp haccepted)
  rw [Ty.subtypes_iff, List.forall₂_map_left_iff, List.forall₂_map_right_iff, hσ]
  refine List.forall₂_iff_zip.mpr ⟨hlength, fun {a p} hx => ?_⟩
  by_cases halone : Alone (arguments.zip parameters) (a, p)
  · have hmem := List.of_mem_zip hx
    exact alone_fits hx halone (hclean a (by simp [hmem.1])) (hclean p (by simp [hmem.2]))
      (hfits hx)
  · exact shared_fits hshared hx halone

/-- One placeholder stands in two pairs, solved by a number. Another one is accepted for a number
and for a string, and settled by neither. -/
theorem shared_number_accepted :
    let arguments : List Ty := [.number true, .tuple true [.number true],
      .tuple true [.placeholder true 7], .tuple true [.placeholder true 7]]
    let parameters : List Ty := [.placeholder true 0, .tuple true [.placeholder true 0],
      .tuple true [.number false], .tuple true [.string false]]
    let σ : Substitution := [(0, .number true)]
    let c := Context.start ⟨[⟨"x", .placeholder true 0⟩], .standard⟩ "main" ["main"]
    c.resolveCall parameters arguments (.placeholder true 0) = (.number true, c.apply σ) ∧
      Ty.subtypes .inferring (arguments.map (Ty.apply σ)) (parameters.map (Ty.apply σ)) := by
  intro arguments parameters σ c
  have hsolves : ∀ x ∈ arguments.zip parameters, standsIn 0 x →
      Solves (fun _ => .number true) x := by
    simp only [arguments, parameters, List.zip_cons_cons, List.zip_nil_left, List.forall_mem_cons]
    refine ⟨fun _ => ⟨by decide, fun _ => rfl⟩, fun _ => ⟨by decide, fun _ => rfl⟩, ?_, ?_,
      by simp⟩
    · exact fun h => absurd h (by decide)
    · exact fun h => absurd h (by decide)
  refine settled_call_accepted c (.placeholder true 0) parameters arguments (by decide) (by decide)
    (fun _ => .number true) fun s hs _ => ?_
  cases List.mem_singleton.mp hs
  exact hsolves

/-- A function of a number and a string is called with one unknown argument for both. The call is
accepted, and would be refused with what it settles. -/
theorem number_and_string_at_once :
    let arguments : List Ty := [.placeholder true 0, .placeholder true 0]
    let parameters : List Ty := [.number true, .string true]
    let σ := callSubstitution parameters arguments
    Ty.subtypes .inferring arguments parameters ∧
      ¬ Ty.subtypes .inferring (arguments.map (Ty.apply σ)) (parameters.map (Ty.apply σ)) := by
  decide

-- A replacement that only fits is not enough. With `@a` for the placeholder both pairs would fit,
-- but the first pair settles it by the union.
example :
    let a : Atom Ty := ⟨"a", [], true⟩
    let arguments : List Ty := [.placeholder true 0, .placeholder true 0]
    let parameters : List Ty := [.union true [a, ⟨"b", [], true⟩], .atom a]
    let σ := callSubstitution parameters arguments
    Ty.subtypes .strict (Ty.replaceEach (fun _ => .atom a) arguments) parameters ∧
      ¬ Ty.subtypes .inferring (arguments.map (Ty.apply σ)) (parameters.map (Ty.apply σ)) := by
  decide

end ShapeCheck
