import ShapeCheck.Proofs.ParseCongruence
import ShapeCheck.Proofs.Readable

/-!
# Parsers come back to the depth they started at

Whether a parser succeeds or fails, it stops at the depth at which it started, at or after the token
at which it started. So parsers that agree wherever the cursor has the same depth are as good as
equal, and the parsers of phrases satisfy the equations that mention no levels: the parser of an
expression is that of its form, one level deeper, with the parsers of its parts.
-/

namespace ShapeCheck

open ParseM

variable {α β : Type} {limit depth : Nat}

structure Cursor.On (limit depth : Nat) (c : Cursor) : Prop where
  limit_eq : c.limit = limit
  depth_eq : c.depth = depth
  ends : c.Ends

theorem Cursor.On.enter {c : Cursor} (h : c.On limit depth) :
    ({ c with depth := c.depth + 1 } : Cursor).On limit (depth + 1) :=
  ⟨h.limit_eq, congrArg (· + 1) h.depth_eq, h.ends⟩

theorem Cursor.On.leave {c : Cursor} (h : c.On limit (depth + 1)) : c.leave.On limit depth :=
  ⟨h.limit_eq, congrArg (· - 1) h.depth_eq, h.ends⟩

theorem Cursor.Leads.leave {c c' : Cursor} {d : Nat}
    (h : ({ c with depth := d } : Cursor).Leads c') : c.Leads c'.leave := by
  obtain ⟨hends, passed, hpassed⟩ := h
  exact ⟨hends, passed, hpassed.tokens, hpassed.last⟩

def ParseM.reached : EStateM.Result Error Cursor α → Cursor
  | .ok _ c => c
  | .error _ c => c

/-- Started at that depth, the parsers do the same and come back to it. -/
def ParseM.Agree (limit depth : Nat) (α : Type) (p p' : ParseM α) : Prop :=
  ∀ c : Cursor, c.On limit depth →
    p c = p' c ∧ c.Leads (reached (p c)) ∧ (reached (p c)).On limit depth

namespace ParseM.Agree

theorem bind {p p' : ParseM α} {f f' : α → ParseM β} (hp : Agree limit depth α p p')
    (hf : ∀ a, Agree limit depth β (f a) (f' a)) : Agree limit depth β (p >>= f) (p' >>= f') := by
  intro c hc
  obtain ⟨heq, hleads, hon⟩ := hp c hc
  show EStateM.bind p f c = EStateM.bind p' f' c ∧ c.Leads (reached (EStateM.bind p f c)) ∧
    (reached (EStateM.bind p f c)).On limit depth
  unfold EStateM.bind
  rw [← heq]
  cases hrun : p c with
  | error e c₁ =>
    rw [hrun] at hleads hon
    exact ⟨rfl, hleads, hon⟩
  | ok a c₁ =>
    rw [hrun] at hleads hon
    obtain ⟨heq', hleads', hon'⟩ := hf a c₁ hon
    exact ⟨heq', hleads.trans hleads', hon'⟩

theorem advance : Agree limit depth Token advance advance := by
  intro c hc
  have hleads := Cursor.leads_advance hc.ends
  refine ⟨rfl, hleads, ?_⟩
  show c.advance.2.On limit depth
  obtain ⟨last, current, ahead, _, _⟩ := c
  cases ahead with
  | nil => exact hc
  | cons t ts => exact ⟨hc.limit_eq, hc.depth_eq, hleads.ends⟩

theorem congruence : Congruence (Agree limit depth) := by
  refine congruence_of_throw ?pure bind ?get ?throw advance
  case pure => exact fun _ _ hc => ⟨rfl, .refl hc.ends, hc⟩
  case get => exact fun h c hc => h c c.depth c.limit c hc
  case throw => exact fun _ _ hc => ⟨rfl, .refl hc.ends, hc⟩

theorem tooDeep : Agree limit depth α tooDeep tooDeep :=
  fun _ hc => ⟨rfl, .refl hc.ends, hc⟩

theorem self_right {p p' : ParseM α} (h : Agree limit depth α p p') :
    Agree limit depth α p' p' := by
  intro c hc
  obtain ⟨heq, hstays⟩ := h c hc
  rw [heq] at hstays
  exact ⟨rfl, hstays⟩

theorem of_eq {p p' q : ParseM α} (h : Agree limit depth α p p')
    (heq : ∀ c : Cursor, c.On limit depth → q c = p c) : Agree limit depth α q p' := by
  intro c hc
  rw [heq c hc]
  exact h c hc

theorem nested {p p' : ParseM α} (h : depth < limit → Agree limit (depth + 1) α p p') :
    Agree limit depth α (nested p) (nested p') := by
  intro c hc
  unfold ParseM.nested
  by_cases hdepth : c.limit ≤ c.depth
  · have henter : c.enter? = none := if_pos hdepth
    rw [henter]
    exact ⟨rfl, .refl hc.ends, hc⟩
  · have henter : c.enter? = some { c with depth := c.depth + 1 } := if_neg hdepth
    have hlt : depth < limit := by rw [← hc.limit_eq, ← hc.depth_eq]; omega
    obtain ⟨heq, hleads, hon⟩ := h hlt _ hc.enter
    rw [henter]
    dsimp only
    rw [← heq]
    cases hrun : p { c with depth := c.depth + 1 } with
    | ok a c₁ =>
      rw [hrun] at hleads hon
      exact ⟨rfl, hleads.leave, hon.leave⟩
    | error e c₁ =>
      rw [hrun] at hleads hon
      exact ⟨rfl, hleads.leave, hon.leave⟩

end ParseM.Agree

theorem TypeExpr.parseAt_agree (limit : Nat) : ∀ (levels depth : Nat) (power : Power),
    Agree limit depth TypeExpr (parseAt levels power) (parseAt levels power)
  | 0, _, _ => .tooDeep
  | levels + 1, depth, power => by
    have htype := parseAt_agree limit levels (depth + 1) .default
    exact .nested fun _ => parseBody_congr Agree.congruence htype power

theorem Grammar.ofLevels_agree (limit : Nat) : ∀ levels depth : Nat,
    Grammar.Related (Agree limit depth) (.ofLevels levels) (.ofLevels levels)
  | 0, _ => ⟨.tooDeep, .tooDeep, .tooDeep⟩
  | levels + 1, depth => by
    have hg := Grammar.ofLevels_agree limit levels (depth + 1)
    exact ⟨.nested fun _ => Expr.parseBody_congr Agree.congruence hg .default,
      TypeExpr.parseAt_agree limit (levels + 1) depth .default,
      .nested fun _ => Stmt.parseBlockBody_congr Agree.congruence hg⟩

theorem Stmt.parseAll_agree : Agree limit depth _ parseAll parseAll := by
  intro c hc
  have hg := Grammar.ofLevels_agree limit (limit - depth) depth
  have hstatements := fun n => parseUntil_congr Agree.congruence hg .eof n []
  have hall : parseAll c =
      (remaining >>= fun n => parseUntil (.ofLevels (limit - depth)) .eof n []) c := by
    rw [← hc.limit_eq, ← hc.depth_eq]
    rfl
  rw [hall]
  exact ⟨rfl, (Agree.congruence.remaining hstatements c hc).2⟩

/-! ## Parsers without levels -/

def Grammar.parts : Grammar :=
  ⟨Expr.parse .default, TypeExpr.parse .default, Stmt.parseBlock⟩

section
variable {c : Cursor} (hc : c.On limit depth)
include hc

theorem Cursor.On.parse_expr (power : Power) :
    Expr.parse power c = Expr.parseAt (limit - depth) power c := by
  rw [← hc.limit_eq, ← hc.depth_eq]
  rfl

theorem Cursor.On.parse_type (power : Power) :
    TypeExpr.parse power c = TypeExpr.parseAt (limit - depth) power c := by
  rw [← hc.limit_eq, ← hc.depth_eq]
  rfl

theorem Cursor.On.parseBlock : Stmt.parseBlock c = Stmt.parseBlockAt (limit - depth) c := by
  rw [← hc.limit_eq, ← hc.depth_eq]
  rfl

end

theorem Grammar.parts_agree (limit depth : Nat) :
    Grammar.Related (Agree limit depth) (.ofLevels (limit - depth)) .parts := by
  obtain ⟨hexpr, htype, hblock⟩ := Grammar.ofLevels_agree limit (limit - depth) depth
  exact ⟨fun c hc => ⟨(hc.parse_expr .default).symm, (hexpr c hc).2⟩,
    fun c hc => ⟨(hc.parse_type .default).symm, (htype c hc).2⟩,
    fun c hc => ⟨hc.parseBlock.symm, (hblock c hc).2⟩⟩

/-- The parser of a phrase that counts levels is the parser of its form, one level deeper. -/
theorem ParseM.Agree.levels {p : Nat → ParseM α} {form : Grammar → ParseM α}
    (hzero : p 0 = ParseM.tooDeep)
    (hsucc : ∀ n, p (n + 1) = ParseM.nested (form (.ofLevels n)))
    (hform : ∀ {depth g g'}, Grammar.Related (Agree limit depth) g g' →
      Agree limit depth α (form g) (form g')) :
    Agree limit depth α (p (limit - depth)) (ParseM.nested (form .parts)) := by
  cases hlevels : limit - depth with
  | zero =>
    intro c hc
    have hdepth : c.limit ≤ c.depth := by rw [hc.limit_eq, hc.depth_eq]; omega
    have henter : c.enter? = none := if_pos hdepth
    rw [hzero]
    refine ⟨?_, .refl hc.ends, hc⟩
    unfold ParseM.nested
    rw [henter]
    rfl
  | succ n =>
    have hn : n = limit - (depth + 1) := by omega
    rw [hsucc, hn]
    exact .nested fun _ => hform (Grammar.parts_agree limit (depth + 1))

end ShapeCheck
