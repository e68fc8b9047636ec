import ShapeCheck.Proofs.ParseCongruence
import ShapeCheck.Proofs.Yields

/-!
# Loops end by themselves

A loop over tokens comes with a bound on its rounds, the number of tokens that are left. Every round
but the last leaves a token behind, so it is never the bound that ends a loop: the outcome is that
of its rounds, repeated without any bound.
-/

namespace ShapeCheck

namespace ParseM

/-- A round goes on with a new state, or yields what the loop yields. -/
structure Loop (σ β : Type) where
  round : σ → ParseM (σ ⊕ β)
  bounded : Nat → σ → ParseM β
  bounded_succ : ∀ n s, bounded (n + 1) s = round s >>= Sum.elim (bounded n) pure

namespace Loop

variable {σ β : Type} {loop : Loop σ β} {s : σ} {c : Cursor}
  {r r' : EStateM.Result Error Cursor β}

/-- Rounds from the state `s` at the cursor `c` come to an end, with the outcome `r`. -/
inductive Repeats (loop : Loop σ β) : σ → Cursor → EStateM.Result Error Cursor β → Prop
  | done {s c b c'} : loop.round s c = .ok (.inr b) c' → Repeats loop s c (.ok b c')
  | failed {s c e c'} : loop.round s c = .error e c' → Repeats loop s c (.error e c')
  | again {s c s' c' r} : loop.round s c = .ok (.inl s') c' → Repeats loop s' c' r →
      Repeats loop s c r

theorem Repeats.unique (h : loop.Repeats s c r) (h' : loop.Repeats s c r') : r = r' := by
  induction h with
  | done hround => cases h' <;> simp_all
  | failed hround => cases h' <;> simp_all
  | again hround _ ih =>
    cases h' with
    | again hround' hrest =>
      rw [hround] at hround'
      cases hround'
      exact ih hrest
    | _ => simp_all

/-- A round after which the loop goes on leaves a token behind. -/
def Advances (loop : Loop σ β) : Prop :=
  ∀ s c, Gives (loop.round s) c fun next c' => next.isLeft → c'.tokens.length < c.tokens.length

theorem repeats_bounded (h : loop.Advances) : ∀ (n : Nat) (s : σ) (c : Cursor), c.Ends →
    c.tokens.length ≤ n → loop.Repeats s c (loop.bounded n s c)
  | 0, _, _, _, hn => absurd hn (by simp [Cursor.tokens])
  | n + 1, s, c, hends, hn => by
    rw [loop.bounded_succ]
    show loop.Repeats s c (EStateM.bind (loop.round s) (Sum.elim (loop.bounded n) pure) c)
    unfold EStateM.bind
    cases hround : loop.round s c with
    | error e c₁ => exact .failed hround
    | ok next c₁ =>
      obtain ⟨hleads, hshort⟩ := h s c hends next c₁ hround
      cases next with
      | inr b => exact .done hround
      | inl s' =>
        have hshort := hshort rfl
        exact .again hround (repeats_bounded h n s' c₁ hleads.ends (by omega))

/-- With the number of tokens that are left as its bound, the loop does what its rounds do without
any. -/
def EndsAt (loop : Loop σ β) (c : Cursor) : Prop :=
  ∀ s r, loop.Repeats s c r ↔ r = loop.bounded c.tokens.length s c

theorem Advances.endsAt (h : loop.Advances) (hends : c.Ends) : loop.EndsAt c := by
  intro s r
  have hrun := repeats_bounded h c.tokens.length s c hends (Nat.le_refl _)
  exact ⟨fun hr => hr.unique hrun, fun hr => hr ▸ hrun⟩

end Loop

theorem Shrinks.bind_moves {α β : Type} {p : ParseM α} {f : α → ParseM β} {c : Cursor}
    (hp : Shrinks p c) (hf : ∀ a c', Moves (f a) c') : Shrinks (p >>= f) c :=
  (hp.then hf).weaken fun _ _ h => h.2

/-! ## Lists -/

section
variable {α : Type} (closing : TokenKind) (item : List α → ParseM α)

def itemsRound (earlier : List α) : ParseM (List α ⊕ List α) := do
  if (← kind) = closing then return .inr earlier.reverse
  let a ← item earlier
  if (← kind) = .comma then
    let _ ← advance
    return .inl (a :: earlier)
  else
    return .inr (a :: earlier).reverse

def itemsLoop : Loop (List α) (List α) where
  round := itemsRound closing item
  bounded := items closing item
  bounded_succ n earlier := by
    unfold itemsRound
    simp only [bind_assoc, items]
    congr 1
    funext k
    split
    · rfl
    · simp only [bind_assoc]
      congr 1
      funext a
      congr 1
      funext k'
      split <;> simp

variable {closing item}

theorem itemsLoop_advances (h : ∀ earlier c, Moves (item earlier) c) :
    (itemsLoop closing item).Advances := by
  intro earlier c
  refine .kind ?_
  split
  · exact .pure nofun
  · refine (h earlier c).leads.bind fun a c₁ hc₁ => .kind ?_
    split
    case isTrue hcomma =>
      refine (advance_shrinks (by rw [hcomma]; decide)).bind fun _ c₂ hshort => .pure fun _ => ?_
      exact Nat.lt_of_lt_of_le hshort hc₁.1.length
    case isFalse => exact .pure nofun

end

theorem entryOf_moves {α : Type} {value : ParseM α} (h : ∀ c, Moves value c)
    (earlier : List (String × α)) (c : Cursor) : Moves (entryOf value earlier) c := by
  refine .get ?_
  dsimp only
  split
  · exact (detailed_gives (Q := fun _ _ => False) _).bind fun _ _ hfalse => hfalse.elim
  · refine .after (expectOr_moves _ _) fun _ c₁ => ?_
    refine .after (expect_moves _) fun _ c₂ => ?_
    exact .after (h c₂) fun _ _ => .pure trivial

end ParseM

open ParseM

/-! ## Phrases that go on -/

namespace TypeExpr

def followsRound (type : ParseM TypeExpr) (power : Power) (left : TypeExpr) :
    ParseM (TypeExpr ⊕ TypeExpr) := do
  let kind ← ParseM.kind
  if ((typePower? kind).getD .default).rank ≤ power.rank then return .inr left
  match TypeFollow.of? kind with
  | none => unexpected
  | some rule => return .inl (← parseFollow type left rule)

def followsLoop (type : ParseM TypeExpr) (power : Power) : Loop TypeExpr TypeExpr where
  round := followsRound type power
  bounded := parseFollows type power
  bounded_succ n left := by
    unfold followsRound
    simp only [bind_assoc, parseFollows]
    congr 1
    funext k
    split
    · rfl
    · cases TypeFollow.of? k with
      | none => rfl
      | some rule => simp only [bind_assoc, pure_bind, Sum.elim_inl]

section
variable {type : ParseM TypeExpr} {levels : Nat} (h : ∀ c, Gives type c (ReadFrom levels c))
include h

theorem parseFollow_shrinks (left : TypeExpr) (rule : TypeFollow) {c : Cursor}
    (hkind : c.kind ≠ .eof) : Shrinks (parseFollow type left rule) c := by
  cases rule with
  | union =>
    show Shrinks (parseUnion type left) c
    unfold parseUnion
    cases left.members? with
    | none => exact detailed_gives _
    | some atoms =>
      refine (advance_shrinks hkind).bind_moves fun _ c₁ => ?_
      exact (parseAtomNode_yields h).bind fun _ _ _ => .spanFrom (.pure trivial)
  | access =>
    exact (entryName_shrinks hkind).bind_moves fun _ c₁ => .spanFrom (.pure trivial)

theorem followsLoop_advances (power : Power) : (followsLoop type power).Advances := by
  intro left c
  refine .kind ?_
  split
  · exact .pure nofun
  · cases hrule : TypeFollow.of? c.kind with
    | none => exact unexpected_gives
    | some rule =>
      have hkind : c.kind ≠ .eof := fun heof => by rw [heof] at hrule; cases hrule
      exact (parseFollow_shrinks h left rule hkind).bind fun _ _ hshort => .pure fun _ => hshort

end

end TypeExpr

namespace Expr

variable {g : Grammar} {levels : Nat}

def followsRound (g : Grammar) (power : Power) (left : Expr) : ParseM (Expr ⊕ Expr) := do
  let kind ← ParseM.kind
  if ((exprPower? kind).getD .default).rank ≤ power.rank then return .inr left
  match ExprFollow.of? kind with
  | none => unexpected
  | some rule => return .inl (← parseFollow g left rule)

def followsLoop (g : Grammar) (power : Power) : Loop Expr Expr where
  round := followsRound g power
  bounded := parseFollows g power
  bounded_succ n left := by
    unfold followsRound
    simp only [bind_assoc, parseFollows]
    congr 1
    funext k
    split
    · rfl
    · cases ExprFollow.of? k with
      | none => rfl
      | some rule => simp only [bind_assoc, pure_bind, Sum.elim_inl]

theorem parseFollow_shrinks (h : g.Yields levels) (left : Expr) (rule : ExprFollow)
    {c : Cursor} (hkind : c.kind ≠ .eof) : Shrinks (parseFollow g left rule) c := by
  cases rule with
  | call =>
    refine (advance_shrinks hkind).bind_moves fun _ c₁ => ?_
    exact (commaList_yields (expr_runs h)).bind fun _ _ _ => .spanFrom (.pure trivial)
  | access =>
    exact (entryName_shrinks hkind).bind_moves fun _ c₁ => .spanFrom (.pure trivial)

theorem followsLoop_advances (h : g.Yields levels) (power : Power) :
    (followsLoop g power).Advances := by
  intro left c
  refine .kind ?_
  split
  · exact .pure nofun
  · cases hrule : ExprFollow.of? c.kind with
    | none => exact unexpected_gives
    | some rule =>
      have hkind : c.kind ≠ .eof := fun heof => by rw [heof] at hrule; cases hrule
      exact (parseFollow_shrinks h left rule hkind).bind fun _ _ hshort => .pure fun _ => hshort

end Expr

/-! ## Statements -/

namespace Stmt

def untilRound (g : Grammar) (closing : TokenKind) (earlier : List Stmt) :
    ParseM (List Stmt ⊕ List Stmt) := do
  if (← kind) = closing then return .inr earlier.reverse
  if (← kind) = .eof then detailed "unclosed block"
  return .inl ((← parseOne g) :: earlier)

def untilLoop (g : Grammar) (closing : TokenKind) : Loop (List Stmt) (List Stmt) where
  round := untilRound g closing
  bounded := parseUntil g closing
  bounded_succ n earlier := by
    unfold untilRound
    simp only [bind_assoc, parseUntil]
    congr 1
    funext k
    split
    · rfl
    · simp only [bind_assoc]
      congr 1
      funext k'
      split <;> simp only [bind_assoc, pure_bind, Sum.elim_inl]

theorem untilLoop_advances {g : Grammar} {levels : Nat} (h : g.Yields levels)
    (closing : TokenKind) : (untilLoop g closing).Advances := by
  intro earlier c
  refine .kind ?_
  split
  · exact .pure nofun
  · refine .kind ?_
    split
    · exact (detailed_gives (Q := fun _ _ => False) _).bind fun _ _ hfalse => hfalse.elim
    · exact (parseOne_yields h).bind fun _ _ hs => .pure fun _ => hs.2.short

end Stmt

end ShapeCheck
