import Mathlib.Data.Fintype.Card
import Mathlib.Data.Fintype.EquivFin
import Mathlib.Logic.Relation
import ShapeCheck.Proofs.Steps

/-!
# The import graph of a program

A program is a tree that is checked as the file at some path, among other files. Its imports lead
from file to file. No cycle can be reached from its path just when every chain of imports from there
ends, because only finitely many files have imports at all. The same finiteness is what makes
the levels of an importer suffice: each file that is opened takes one from those that are left.
-/

namespace ShapeCheck

open Relation

def Sources.tree? (S : Sources) (path : String) : Option Stmt :=
  match S.parse? path with
  | some (.ok tree) => some tree
  | _ => none

theorem Sources.tree?_eq_some {S : Sources} {path : String} {tree : Stmt} :
    S.tree? path = some tree ↔ S.parse? path = some (.ok tree) := by
  unfold tree?
  split
  · rename_i h
    rw [h]
    simp
  · rename_i h
    constructor
    · intro e
      cases e
    · intro e
      exact absurd e (h tree)

def Sources.Imports (S : Sources) (a b : String) : Prop :=
  ∃ tree, S.tree? a = some tree ∧ b ∈ tree.importedFiles a

theorem not_transGen_of_acc {α : Type} {r : α → α → Prop} {a : α} (h : Acc (flip r) a) :
    ¬ TransGen r a a := by
  intro hc
  have hswap : TransGen (flip r) a a := transGen_swap.mpr hc
  have hacc : Acc (TransGen (flip r)) a := h.transGen
  clear h hc
  induction hacc with
  | intro a _ ih => exact ih a hswap hswap

/-- A tree that is checked as the file at the normalized path `path`. -/
structure Program where
  sources : Sources
  path : String
  tree : Stmt

namespace Program

/-- The tree that stands for a file: at the path of the program its own. -/
def tree? (P : Program) (a : String) : Option Stmt :=
  if a = P.path then some P.tree else P.sources.tree? a

def Imports (P : Program) (a b : String) : Prop :=
  ∃ tree, P.tree? a = some tree ∧ b ∈ tree.importedFiles a

def HasCycle (P : Program) : Prop :=
  ∃ q, ReflTransGen P.Imports P.path q ∧ TransGen P.Imports q q

def Grounded (P : Program) (a : String) : Prop :=
  Acc (flip P.Imports) a

variable {P : Program}

theorem tree?_path : P.tree? P.path = some P.tree :=
  if_pos rfl

theorem tree?_of_ne {a : String} (h : a ≠ P.path) : P.tree? a = P.sources.tree? a :=
  if_neg h

theorem imports_of_ne {a b : String} (h : a ≠ P.path) : P.Imports a b ↔ P.sources.Imports a b := by
  unfold Imports Sources.Imports
  rw [tree?_of_ne h]

theorem imports_path {b : String} : P.Imports P.path b ↔ b ∈ P.tree.importedFiles P.path := by
  unfold Imports
  rw [tree?_path]
  simp

theorem grounded_of_tree?_eq_none {a : String} (h : P.tree? a = none) : P.Grounded a := by
  constructor
  intro b hb
  obtain ⟨tree, ht, -⟩ := hb
  rw [h] at ht
  cases ht

theorem grounded_of_importedFiles {a : String} {tree : Stmt} (h : P.tree? a = some tree)
    (himports : ∀ b ∈ tree.importedFiles a, P.Grounded b) : P.Grounded a := by
  constructor
  intro b hb
  obtain ⟨tree', ht, hmem⟩ := hb
  rw [h] at ht
  cases ht
  exact himports b hmem

theorem Grounded.of_reach {a b : String} (h : P.Grounded a) (hab : ReflTransGen P.Imports a b) :
    P.Grounded b := by
  induction hab with
  | refl => exact h
  | tail _ hbc ih => exact ih.inv hbc

theorem not_hasCycle_of_grounded (h : P.Grounded P.path) : ¬ P.HasCycle := by
  rintro ⟨q, hq, hc⟩
  exact not_transGen_of_acc (h.of_reach hq) hc

end Program

/-! ## Finitely many files -/

def Sources.Covers (S : Sources) (F : Finset String) : Prop :=
  ∀ q, (S.text? q).isSome → q ∈ F

theorem Sources.isSome_text? {S : Sources} {q : String} {parsed : Except Error Stmt}
    (h : S.parse? q = some parsed) : (S.text? q).isSome := by
  unfold Sources.parse? at h
  rw [Option.map_eq_some_iff] at h
  obtain ⟨text, ht, -⟩ := h
  rw [ht]
  rfl

theorem Sources.Covers.mem_of_parse? {S : Sources} {F : Finset String} (h : S.Covers F)
    {q : String} {parsed : Except Error Stmt} (hq : S.parse? q = some parsed) : q ∈ F :=
  h q (Sources.isSome_text? hq)

theorem Sources.ofFiles_covers (files : Entries String) :
    (Sources.ofFiles files).Covers files.names.toFinset := by
  intro q hq
  exact List.mem_toFinset.mpr (Entries.mem_names_iff.mpr hq)

theorem Sources.card_names_le (files : Entries String) :
    files.names.toFinset.card ≤ (Sources.ofFiles files).capacity := by
  have h := List.toFinset_card_le files.names
  unfold Entries.names at h
  rwa [List.length_map] at h

def Program.Covered (P : Program) (F : Finset String) : Prop :=
  ∀ q, ReflTransGen P.Imports P.path q → (P.sources.text? q).isSome → q ∈ F

theorem Sources.Covers.covered {P : Program} {F : Finset String} (h : P.sources.Covers F) :
    P.Covered F :=
  fun q _ => h q

theorem Program.grounded_of_not_hasCycle {P : Program} {F : Finset String}
    (hF : P.sources.Covers F) (h : ¬ P.HasCycle) : P.Grounded P.path := by
  -- Imports lead only from these files on, and among them they are a strict order.
  let D := { a : String // a ∈ insert P.path F ∧ ReflTransGen P.Imports P.path a }
  have hfin : Finite D :=
    Finite.of_injective (fun a : D => (⟨a.1, a.2.1⟩ : { a // a ∈ insert P.path F }))
      fun a b hab => Subtype.ext (congrArg (fun x => x.1) hab)
  let r : D → D → Prop := fun b a => TransGen P.Imports a.1 b.1
  have htrans : IsTrans D r := ⟨fun _ _ _ hab hbc => hbc.trans hab⟩
  have hirrefl : Std.Irrefl r := ⟨fun a ha => h ⟨a.1, a.2.2, ha⟩⟩
  have hwf : WellFounded r := Finite.wellFounded_of_trans_of_irrefl r
  have hall : ∀ a : D, P.Grounded a.1 := by
    intro a
    induction a using hwf.induction with
    | _ a ih =>
      constructor
      intro b hb
      by_cases hbF : b ∈ insert P.path F
      · exact ih ⟨b, hbF, a.2.2.tail hb⟩ (.single hb)
      · apply grounded_of_tree?_eq_none
        rw [Finset.mem_insert, not_or] at hbF
        rw [tree?_of_ne hbF.1]
        cases ht : P.sources.tree? b with
        | none => rfl
        | some tree =>
          exact absurd (hF.mem_of_parse? (Sources.tree?_eq_some.mp ht)) hbF.2
  exact hall ⟨P.path, Finset.mem_insert_self _ _, .refl⟩

def Room (F : Finset String) (stack : List String) (n : Nat) : Prop :=
  (F \ stack.toFinset).card ≤ n

theorem Room.of_card_le {F : Finset String} {n : Nat} (h : F.card ≤ n) (stack : List String) :
    Room F stack n :=
  (Finset.card_le_card Finset.sdiff_subset).trans h

/-- Each file that is opened takes one level. -/
theorem Room.open {F : Finset String} {stack : List String} {n : Nat} {b : String}
    (h : Room F stack n) (hb : b ∈ F) (hstack : b ∉ stack) :
    ∃ m, n = m + 1 ∧ Room F (stack ++ [b]) m := by
  unfold Room at h ⊢
  have hmem : b ∈ F \ stack.toFinset :=
    Finset.mem_sdiff.mpr ⟨hb, fun hs => hstack (List.mem_toFinset.mp hs)⟩
  have herase : F \ (stack ++ [b]).toFinset = (F \ stack.toFinset).erase b := by
    ext x
    simp only [Finset.mem_sdiff, List.mem_toFinset, List.mem_append, List.mem_singleton,
      Finset.mem_erase]
    tauto
  have hcard := Finset.card_erase_of_mem hmem
  have hpos := Finset.card_pos.mpr ⟨b, hmem⟩
  refine ⟨n - 1, by omega, ?_⟩
  rw [herase, hcard]
  omega

end ShapeCheck
