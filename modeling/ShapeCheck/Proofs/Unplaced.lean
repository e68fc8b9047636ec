import ShapeCheck.Proofs.MatchingTokens
import ShapeCheck.Proofs.Readable
import ShapeCheck.Tree.Printer

/-!
# Types without places

Where tokens stand in the text decides the spans of a type that is read from them, and nothing else.
`Mimics` runs a parser on two cursors whose tokens differ in their spans only. Whatever it yields on
one of them it yields on the other, up to spans. Tokens without their spans are equal just when the
tokens match with every place beside every other.
-/

namespace ShapeCheck

def Token.unplaced (t : Token) : Token :=
  word t.kind t.value

@[simp] theorem Token.kind_unplaced (t : Token) : t.unplaced.kind = t.kind := rfl

@[simp] theorem Token.value_unplaced (t : Token) : t.unplaced.value = t.value := rfl

/-- The same tokens are left at other places, and as many levels of nesting. -/
structure Cursor.Like (c c' : Cursor) : Prop where
  limit_eq : c.limit = c'.limit
  depth_eq : c.depth = c'.depth
  tokens_eq : c.tokens.map Token.unplaced = c'.tokens.map Token.unplaced

/-- Where `p'` succeeds, `p` does on the same tokens at other places, and yields the same up to what
`erase` forgets. -/
def ParseM.Mimics {α β : Type} (erase : α → β) (p p' : ParseM α) : Prop :=
  ∀ c c' : Cursor, c.Like c' → ∀ a' d', p' c' = .ok a' d' →
    ∃ a d, p c = .ok a d ∧ d.Like d' ∧ erase a = erase a'

/-! ## Tokens that match -/

theorem Token.matches_iff_unplaced {t t' : Token} :
    t.Matches (fun _ _ => True) t' ↔ t.unplaced = t'.unplaced := by
  constructor
  · rintro ⟨hkind, hvalue, -⟩
    unfold unplaced
    rw [hkind, hvalue]
  · intro h
    refine ⟨?_, ?_, trivial⟩
    · rw [← t.kind_unplaced, h, kind_unplaced]
    · rw [← t.value_unplaced, h, value_unplaced]

theorem Cursor.matches_iff_like {c c' : Cursor} :
    c.Matches (fun _ _ => True) c' ↔ c.Like c' := by
  have htokens : c.tokens.map Token.unplaced = c'.tokens.map Token.unplaced ↔
      List.Forall₂ (Token.Matches fun _ _ => True) c.tokens c'.tokens := by
    rw [← List.forall₂_eq_eq_eq, List.forall₂_map_left_iff, List.forall₂_map_right_iff]
    exact ⟨fun h => h.imp fun _ _ => Token.matches_iff_unplaced.mpr,
      fun h => h.imp fun _ _ => Token.matches_iff_unplaced.mp⟩
  constructor
  · intro h
    exact ⟨h.limit_eq, h.depth_eq, htokens.mpr (.cons h.current h.ahead)⟩
  · intro h
    obtain ⟨hcurrent, hahead⟩ := List.forall₂_cons.mp (htokens.mp h.tokens_eq)
    exact ⟨hcurrent, hahead, h.depth_eq, h.limit_eq⟩

/-! ## Types that match -/

section
variable {ρ : Position → Position → Prop} {seen : String → Bool}

mutual
theorem TypeExpr.Matches.unplaced_eq : ∀ {t t' : TypeExpr}, t.Matches ρ seen t' →
    t.unplaced = t'.unplaced
  | .name _ _, _, h => by
    obtain ⟨s', rfl, -⟩ := h
    rfl
  | .number _, _, h => by
    obtain ⟨s', rfl, -⟩ := h
    rfl
  | .string _, _, h => by
    obtain ⟨s', rfl, -⟩ := h
    rfl
  | .tuple items _, _, h => by
    obtain ⟨items', s', rfl, hitems, -⟩ := h
    rw [unplaced, unplaced, TypeExpr.MatchesEach.unplaced_eq hitems]
  | .record entries _, _, h => by
    obtain ⟨entries', s', rfl, hentries, -⟩ := h
    rw [unplaced, unplaced, TypeExpr.MatchesEntries.unplaced_eq hentries]
  | .access t _ _, _, h => by
    obtain ⟨t', s', rfl, ht, -⟩ := h
    rw [unplaced, unplaced, TypeExpr.Matches.unplaced_eq ht]
  | .function parameters result _, _, h => by
    obtain ⟨parameters', result', s', rfl, hparameters, hresult, -⟩ := h
    rw [unplaced, unplaced, TypeExpr.MatchesEach.unplaced_eq hparameters,
      TypeExpr.Matches.unplaced_eq hresult]
  | .atom a, _, h => by
    obtain ⟨a', rfl, ha⟩ := h
    rw [unplaced, unplaced, TypeExpr.MatchesAtom.unplaced_eq ha]
  | .union atoms _, _, h => by
    obtain ⟨atoms', s', rfl, hatoms, -⟩ := h
    rw [unplaced, unplaced, TypeExpr.MatchesAtoms.unplaced_eq hatoms]
termination_by structural t => t
theorem TypeExpr.MatchesEach.unplaced_eq : ∀ {ts ts' : List TypeExpr},
    TypeExpr.MatchesEach ρ seen ts ts' → TypeExpr.unplacedEach ts = TypeExpr.unplacedEach ts'
  | [], _, h => by
    subst h
    rfl
  | t :: ts, _, h => by
    obtain ⟨t', ts', rfl, ht, hts⟩ := h
    rw [unplacedEach, unplacedEach, TypeExpr.Matches.unplaced_eq ht,
      TypeExpr.MatchesEach.unplaced_eq hts]
termination_by structural ts => ts
theorem TypeExpr.MatchesEntries.unplaced_eq : ∀ {es es' : List (String × TypeExpr)},
    TypeExpr.MatchesEntries ρ seen es es' →
      TypeExpr.unplacedEntries es = TypeExpr.unplacedEntries es'
  | [], _, h => by
    subst h
    rfl
  | (x, t) :: es, _, h => by
    obtain ⟨⟨_, t'⟩, es', rfl, ⟨rfl, ht⟩, hes⟩ := h
    rw [unplacedEntries, unplacedEntries, TypeExpr.Matches.unplaced_eq ht,
      TypeExpr.MatchesEntries.unplaced_eq hes]
termination_by structural es => es
theorem TypeExpr.MatchesAtom.unplaced_eq : ∀ {a a' : AtomNode TypeExpr},
    TypeExpr.MatchesAtom ρ seen a a' → TypeExpr.unplacedAtom a = TypeExpr.unplacedAtom a'
  | ⟨_, arguments, _⟩, _, h => by
    obtain ⟨arguments', s', rfl, harguments, -⟩ := h
    rw [unplacedAtom, unplacedAtom, TypeExpr.MatchesEach.unplaced_eq harguments]
termination_by structural a => a
theorem TypeExpr.MatchesAtoms.unplaced_eq : ∀ {as as' : List (AtomNode TypeExpr)},
    TypeExpr.MatchesAtoms ρ seen as as' → TypeExpr.unplacedAtoms as = TypeExpr.unplacedAtoms as'
  | [], _, h => by
    subst h
    rfl
  | a :: as, _, h => by
    obtain ⟨a', as', rfl, ha, has⟩ := h
    rw [unplacedAtoms, unplacedAtoms, TypeExpr.MatchesAtom.unplaced_eq ha,
      TypeExpr.MatchesAtoms.unplaced_eq has]
termination_by structural as => as
end

end

/-- A type that can be read is read the same wherever its tokens stand. -/
theorem TypeExpr.parse_mimics (power : Power) :
    ParseM.Mimics unplaced (parse power) (parse power) := by
  intro c c' hlike a' d' hrun
  have hmatches := parse_matches power c c' (Cursor.matches_iff_like.mpr hlike)
  rw [hrun] at hmatches
  generalize parse power c = r at hmatches ⊢
  cases hmatches with
  | ok ha hd => exact ⟨_, _, rfl, Cursor.matches_iff_like.mp hd, ha.unplaced_eq⟩

end ShapeCheck
