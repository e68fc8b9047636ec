import ShapeCheck.Proofs.ParseCongruence

/-!
# The limit of nesting only cuts off what is parsed

The limit shows in what is read from tokens only where it is reached, and then parsing stops with an
error that names it. So two limits lead to the same tree or to the same error, unless the smaller of
them is reached.
-/

namespace ShapeCheck

def Cursor.withLimit (limit : Nat) (c : Cursor) : Cursor :=
  { c with limit }

theorem Cursor.advance_withLimit (limit : Nat) (c : Cursor) :
    (c.withLimit limit).advance = (c.advance.1, c.advance.2.withLimit limit) := by
  obtain ⟨last, current, ahead, depth, _⟩ := c
  cases ahead <;> rfl

theorem Cursor.limit_advance (c : Cursor) : c.advance.2.limit = c.limit := by
  obtain ⟨last, current, ahead, depth, _⟩ := c
  cases ahead <;> rfl

inductive OutcomesCut (d d' : Nat) {α : Type} :
    EStateM.Result Error Cursor α → EStateM.Result Error Cursor α → Prop
  | ok (a : α) {c : Cursor} : c.limit = d → OutcomesCut d d' (.ok a c) (.ok a (c.withLimit d'))
  | error (e : Error) {c c' : Cursor} : OutcomesCut d d' (.error e c) (.error e c')
  | cut (position : Position) {c : Cursor} {r : EStateM.Result Error Cursor α} :
    OutcomesCut d d' (.error ⟨.nestingTooDeep d, position⟩ c) r

/-- From cursors that differ in their limits the parsers come to the same, unless the first is cut
off. -/
def ParseM.CutsOff (d d' : Nat) (α : Type) (p p' : ParseM α) : Prop :=
  ∀ c : Cursor, c.limit = d → OutcomesCut d d' (p c) (p' (c.withLimit d'))

namespace ParseM.CutsOff

variable {d d' : Nat} {α β : Type}

theorem bind {p p' : ParseM α} {f f' : α → ParseM β} (hp : CutsOff d d' α p p')
    (hf : ∀ a, CutsOff d d' β (f a) (f' a)) : CutsOff d d' β (p >>= f) (p' >>= f') := by
  intro c hc
  have hrun := hp c hc
  show OutcomesCut d d' (EStateM.bind p f c) (EStateM.bind p' f' (c.withLimit d'))
  unfold EStateM.bind
  generalize p c = r at hrun ⊢
  generalize p' (c.withLimit d') = r' at hrun ⊢
  cases hrun with
  | ok a hc₁ => exact hf a _ hc₁
  | error e => exact .error e
  | cut position => exact .cut position

theorem advance : CutsOff d d' Token advance advance := by
  intro c hc
  show OutcomesCut d d' (.ok c.advance.1 c.advance.2)
    (.ok (c.withLimit d').advance.1 (c.withLimit d').advance.2)
  rw [c.advance_withLimit]
  exact .ok _ (c.limit_advance.trans hc)

theorem congruence : Congruence (CutsOff d d') := by
  refine congruence_of_throw ?pure bind ?get ?throw advance
  case pure => exact fun a _ hc => .ok a hc
  case get => exact fun h c hc => h c c.depth d' c hc
  case throw => exact fun e _ _ => .error e

theorem tooDeep (p' : ParseM α) : CutsOff d d' α tooDeep p' := by
  intro c hc
  have hcut : (ParseM.tooDeep : ParseM α) c = .error ⟨.nestingTooDeep c.limit, c.position⟩ c := rfl
  rw [hcut, hc]
  exact .cut _

theorem nested (hd : d ≤ d') {p p' : ParseM α} (hp : CutsOff d d' α p p') :
    CutsOff d d' α (nested p) (nested p') := by
  intro c hc
  unfold ParseM.nested
  by_cases hdepth : c.limit ≤ c.depth
  · have henter : c.enter? = none := if_pos hdepth
    simp only [henter, Cursor.tooDeep, hc]
    exact .cut _
  · have hdepth' : ¬ d' ≤ c.depth := fun h => hdepth (hc ▸ Nat.le_trans hd h)
    let inner : Cursor := { c with depth := c.depth + 1 }
    have henter : c.enter? = some inner := if_neg hdepth
    have henter' : (c.withLimit d').enter? = some (inner.withLimit d') := if_neg hdepth'
    have hrun := hp inner hc
    rw [henter, henter']
    dsimp only
    generalize p inner = r at hrun ⊢
    generalize p' (inner.withLimit d') = r' at hrun ⊢
    cases hrun with
    | ok a hc₁ => exact .ok a hc₁
    | error e => exact .error e
    | cut position => exact .cut position

end ParseM.CutsOff

section
variable {d d' : Nat} (hd : d ≤ d')
include hd

open ParseM (CutsOff)

theorem Stmt.parseAll_cutsOff : CutsOff d d' _ parseAll parseAll := by
  intro c hc
  subst hc
  have hlevels : c.limit - c.depth ≤ d' - c.depth := Nat.sub_le_sub_right hd c.depth
  have hg := Grammar.ofLevels_congr CutsOff.congruence .tooDeep (.nested hd) hlevels
  have hstatements := fun n => parseUntil_congr CutsOff.congruence hg .eof n []
  exact CutsOff.congruence.remaining hstatements c rfl

end

theorem Cursor.ofTokens_withLimit (tokens : List Token) (file : String) (d d' : Nat) :
    (ofTokens tokens file d).withLimit d' = ofTokens tokens file d' := by
  cases tokens <;> rfl

/-- **The limit only cuts off.** What is read from tokens with some limit is read from them with
every larger limit, or the error says that the limit was reached. -/
theorem parseTokens_eq_or_tooDeep (tokens : List Token) (file : String) {d d' : Nat} (hd : d ≤ d') :
    parseTokens tokens file d = parseTokens tokens file d' ∨
      ∃ position, parseTokens tokens file d = .error ⟨.nestingTooDeep d, position⟩ := by
  have hlimit : (Cursor.ofTokens tokens file d).limit = d := by cases tokens <;> rfl
  have hrun := Stmt.parseAll_cutsOff hd (.ofTokens tokens file d) hlimit
  rw [Cursor.ofTokens_withLimit] at hrun
  unfold parseTokens
  generalize Stmt.parseAll (.ofTokens tokens file d) = r at hrun ⊢
  generalize Stmt.parseAll (.ofTokens tokens file d') = r' at hrun ⊢
  cases hrun with
  | ok body _ => exact Or.inl rfl
  | error e => exact Or.inl rfl
  | cut position => exact Or.inr ⟨position, rfl⟩

def bracketTokens : List Token :=
  ((tokenize "f([1, (x: [[number]]) x])" none).toOption).getD []

/-- Six levels suffice and are needed. -/
theorem bracketTokens_eq_or_tooDeep :
    parseTokens bracketTokens "main" 6 = parseTokens bracketTokens "main" 256 ∧
      (parseTokens bracketTokens "main" 6).isOk ∧
      ∃ position, parseTokens bracketTokens "main" 5 = .error ⟨.nestingTooDeep 5, position⟩ := by
  have hok : (parseTokens bracketTokens "main" 6).isOk := by decide +kernel
  have hcut : (parseTokens bracketTokens "main" 5).isOk = false := by decide +kernel
  have hsix : 6 ≤ 256 := by decide
  have hfive : 5 ≤ 6 := by decide
  refine ⟨?_, hok, ?_⟩
  · refine (parseTokens_eq_or_tooDeep bracketTokens "main" hsix).resolve_right ?_
    rintro ⟨position, h⟩
    rw [h] at hok
    cases hok
  · refine (parseTokens_eq_or_tooDeep bracketTokens "main" hfive).resolve_left fun h => ?_
    rw [h, hok] at hcut
    cases hcut

end ShapeCheck
