import ShapeCheck.Proofs.Calls
import ShapeCheck.Proofs.Joining

/-!
# Where calls stop

A call stops at or after the token at which it was made, at the same depth, whether it succeeds or
fails, and leaves no `eof` behind. Other tokens may follow an `eof`; to see that none of them is
reached, a call is compared with the same call on the tokens up to the first `eof` only.
-/

namespace ShapeCheck

open ParseM Seam

/-! ## Calls that succeed leave a token behind -/

namespace ParseM.Loop

variable {σ β : Type} {loop : Loop σ β} {s : σ} {c c' : Cursor} {b : β}

theorem Repeats.leads (hloop : loop.Advances) (h : loop.Repeats s c (.ok b c')) (hends : c.Ends) :
    c.Leads c' := by
  generalize hr : EStateM.Result.ok b c' = r at h
  induction h with
  | done hround =>
    cases hr
    exact (hloop _ _ hends _ _ hround).1
  | failed hround => cases hr
  | again hround _ ih =>
    have hleads := (hloop _ _ hends _ _ hround).1
    exact hleads.trans (ih hleads.ends hr)

theorem bounded_moves (hloop : loop.Advances) (s : σ) (c : Cursor) :
    Moves (loop.bounded c.tokens.length s) c := by
  intro hends b c' hrun
  have hrepeats := repeats_bounded hloop c.tokens.length s c hends (Nat.le_refl _)
  rw [hrun] at hrepeats
  exact ⟨hrepeats.leads hloop hends, trivial⟩

end ParseM.Loop

theorem TypeExpr.parseBody_shrinks {type : ParseM TypeExpr} {levels : Nat}
    (h : ∀ c, Gives type c (ReadFrom levels c)) (power : Power) (c : Cursor) :
    Shrinks (parseBody type power) c := by
  refine .kind ?_
  cases hrule : TypeStart.of? c.kind with
  | none => exact unexpected_gives
  | some rule =>
    have hkind : c.kind ≠ .eof := fun heof => by simp [heof, TypeStart.of?] at hrule
    have hstart : Shrinks (parseStart type rule) c :=
      (parseStart_yields h rule hkind).weaken fun _ _ ht => ht.1.2.opens.short
    refine hstart.bind_moves fun left c₁ => .remaining ?_
    exact Loop.bounded_moves (followsLoop_advances h power) left c₁

theorem Expr.parseBody_shrinks {g : Grammar} {levels : Nat} (h : g.Yields levels) (power : Power)
    (c : Cursor) : Shrinks (parseBody g power) c := by
  refine .kind ?_
  cases hrule : ExprStart.of? c.kind with
  | none => exact unexpected_gives
  | some rule =>
    have hkind : c.kind ≠ .eof := fun heof => by simp [heof, ExprStart.of?] at hrule
    have hstart : Shrinks (parseStart g rule) c :=
      (parseStart_yields h rule hkind).weaken fun _ _ he => he.1.2.opens.short
    refine hstart.bind_moves fun left c₁ => .remaining ?_
    exact Loop.bounded_moves (followsLoop_advances h power) left c₁

namespace Call

def isPhrase : Call → Bool
  | list _ _ => false
  | _ => true

theorem run_shrinks {call : Call} (hphrase : call.isPhrase) (c : Cursor) : Shrinks call.run c := by
  have hyields := Grammar.ofLevels_yields (c.limit - c.depth)
  cases call with
  | stmt => exact (Stmt.parseOne_yields hyields).weaken fun _ _ hs => hs.2.short
  | expr power =>
    show Shrinks (Expr.parseAt (c.limit - c.depth) power) c
    cases c.limit - c.depth with
    | zero => exact tooDeep_gives
    | succ n =>
      exact nested_gives (fun _ _ h => h)
        (Expr.parseBody_shrinks (Grammar.ofLevels_yields n) power _)
  | type power =>
    show Shrinks (TypeExpr.parseAt (c.limit - c.depth) power) c
    cases c.limit - c.depth with
    | zero => exact tooDeep_gives
    | succ n =>
      exact nested_gives (fun _ _ h => h)
        (TypeExpr.parseBody_shrinks (TypeExpr.parseAt_yields n) power _)
  | block => exact (hyields.block c).weaken fun _ _ hs => hs.2.opens.short
  | list item bracket => cases hphrase

end Call

/-! ## No call leaves an `eof` behind -/

theorem Item.parser_moves {g : Grammar} {levels : Nat} (h : g.Yields levels) (item : Item)
    (earlier : List item.Yield) (c : Cursor) : Moves (item.parser g earlier) c := by
  have hexpr (c : Cursor) : Moves g.expr c := (h.expr c).weaken fun _ _ _ => trivial
  have htype (c : Cursor) : Moves g.type c := (h.type c).weaken fun _ _ _ => trivial
  cases item with
  | expr => exact hexpr c
  | type => exact htype c
  | entry => exact entryOf_moves hexpr earlier c
  | typeEntry => exact entryOf_moves htype earlier c
  | parameter => exact (Expr.parseParameter_yields h c).weaken fun _ _ _ => trivial
  | typeParameter =>
    exact (TypeExpr.parseFunctionParameter_yields h.type c).weaken fun _ _ _ => trivial

section
variable {s : Seam} {c c' : Cursor}

theorem Item.parser_joins {g : Grammar} {levels : Nat} (h : g.Joined s levels) (item : Item)
    (earlier : List item.Yield) (hm : s.Meets c c') : s.Joined (item.parser g earlier) c c' := by
  cases item with
  | expr => exact h.expr c c' hm
  | type => exact h.type c c' hm
  | entry => exact entryOf_joins h.expr earlier hm
  | typeEntry => exact entryOf_joins h.type earlier hm
  | parameter => exact Expr.parseParameter_joins h hm
  | typeParameter => exact TypeExpr.parseFunctionParameter_joins h.type hm

theorem Bracket.closing_ne (bracket : Bracket) :
    bracket.closing ≠ .eof ∧ bracket.closing ≠ .semicolon := by
  cases bracket <;> decide

theorem Expr.parseAt_joins (levels : Nat) (power : Power) (hm : s.Meets c c') :
    s.Joined (parseAt levels power) c c' := by
  cases levels with
  | zero => exact tooDeep_joins hm
  | succ n =>
    exact nested_joins (fun _ _ hm => parseBody_joins (Grammar.ofLevels_joined n) power hm) hm

theorem Call.run_joins (heof : s.next.kind = .eof) (call : Call) (ha : s.Abreast c c') :
    s.Joins call.run call.run c c' fun _ => s.Meets := by
  obtain ⟨ts, hbefore⟩ := ha.meets
  have hlevels : c'.limit - c'.depth = c.limit - c.depth := by
    rw [hbefore.limit_eq, hbefore.depth_eq]
  have hg := Grammar.ofLevels_joined (s := s) (c.limit - c.depth)
  cases call with
  | stmt =>
    show s.Outcomes _ _ (Stmt.parseOne (.ofLevels (c'.limit - c'.depth)) c')
    rw [hlevels]
    refine (Stmt.parseOne_joins hg ha.meets).weaken fun _ _ _ ho => ?_
    rcases ho with hpast | ⟨ha, -⟩
    · simp [hpast.next_kind] at heof
    · exact ha.meets
  | expr power =>
    show s.Outcomes _ _ (Expr.parseAt (c'.limit - c'.depth) power c')
    rw [hlevels]
    exact (Expr.parseAt_joins _ power ha.meets).weaken fun _ _ _ ha => ha.meets
  | type power =>
    show s.Outcomes _ _ (TypeExpr.parseAt (c'.limit - c'.depth) power c')
    rw [hlevels]
    exact (TypeExpr.parseAt_joins _ power c c' ha.meets).weaken fun _ _ _ ha => ha.meets
  | block =>
    show s.Outcomes _ _ (Stmt.parseBlockAt (c'.limit - c'.depth) c')
    rw [hlevels]
    exact (hg.block c c' ha.meets).weaken fun _ _ _ ha => ha.meets
  | list item bracket =>
    show s.Outcomes _ _
      (commaList bracket.closing (item.parser (.ofLevels (c'.limit - c'.depth))) c')
    rw [hlevels]
    refine (commaList_joins bracket.closing_ne (Item.parser_moves hg.yields item)
      (fun earlier _ _ hm => Item.parser_joins hg item earlier hm) ha).weaken fun _ _ _ ha => ?_
    exact ha.meets

end

theorem Cursor.Ends.exists_first {c : Cursor} (h : c.Ends) :
    ∃ ts final more, c.tokens = ts ++ final :: more ∧ (∀ t ∈ ts, t.kind ≠ .eof) ∧
      final.kind = .eof := by
  obtain ⟨t, ht, hkind⟩ := h
  cases hfind : c.tokens.find? (·.kind = .eof) with
  | none =>
    have hnone := List.find?_eq_none.mp hfind t (List.mem_of_getLast? ht)
    simp [hkind] at hnone
  | some final =>
    obtain ⟨hfinal, ts, more, htokens, hts⟩ := List.find?_eq_some_iff_append.mp hfind
    exact ⟨ts, final, more, htokens, by simpa using hts, by simpa using hfinal⟩

theorem Seam.Outcomes.meets {α : Type} {s : Seam} (heof : s.next.kind = .eof)
    {r r' : EStateM.Result Error Cursor α} (h : s.Outcomes (fun _ => s.Meets) r r') :
    s.Meets (reached r) (reached r') := by
  cases h with
  | ok hm => exact hm
  | error hm => exact hm
  | lost hnext => simp [heof] at hnext

/-- A call comes to the same on the tokens up to the first `eof` alone. -/
theorem Call.kind_ne_of_passed (call : Call) {c : Cursor} (hends : c.Ends) {passed : List Token}
    (hpassed : c.Passes (reached (call.run c)) passed) : ∀ t ∈ passed, t.kind ≠ .eof := by
  obtain ⟨ts, final, more, htokens, hts, hfinal⟩ := hends.exists_first
  obtain ⟨t, ht, heof⟩ := hends
  rw [htokens, List.getLast?_append, List.getLast?_cons] at ht
  have hend : t ∈ (final :: more).getLast? := by
    rw [List.getLast?_cons]
    exact ht
  let s : Seam := ⟨final, final, more, hfinal, Or.inl hfinal, t, hend, heof⟩
  let alone : Cursor := { c with ahead := c.ahead.take ts.length }
  have halone : alone.tokens = ts ++ [final] := by
    show c.tokens.take (ts.length + 1) = ts ++ [final]
    rw [htokens, List.append_cons]
    exact List.take_left' (by simp)
  have hnext : s.next.kind = .semicolon → ∀ t ∈ ts.getLast?, t.kind ≠ .semicolon := by
    simp [s, hfinal]
  have habreast : s.Abreast alone c := ⟨⟨ts, halone, htokens, rfl, rfl, hts, hnext⟩, rfl⟩
  obtain ⟨left, hleft⟩ := (call.run_joins hfinal habreast).meets hfinal
  have hpassed : ts ++ final :: more = passed ++ left ++ final :: more := by
    rw [← htokens, hpassed.tokens, hleft.tokens', List.append_assoc]
  have hsplit : ts = passed ++ left := List.append_cancel_right hpassed
  intro u hu
  exact hts u (hsplit ▸ List.mem_append_left left hu)

/-! ## Positions -/

structure Cursor.StandsAt (tokens : List Token) (pos : Nat) (c : Cursor) : Prop where
  lt : pos < tokens.length
  tokens_eq : c.tokens = tokens.drop pos

section
variable {tokens passed : List Token} {pos : Nat} {c c' : Cursor} (h : c.StandsAt tokens pos)
include h

theorem Cursor.StandsAt.ends (hlast : ∃ t ∈ tokens.getLast?, t.kind = .eof) : c.Ends := by
  obtain ⟨t, ht, heof⟩ := hlast
  have hlt := h.lt
  refine ⟨t, ?_, heof⟩
  rw [h.tokens_eq, List.getLast?_drop, if_neg (by omega)]
  exact ht

theorem Cursor.StandsAt.passes (hpassed : c.Passes c' passed) :
    c'.StandsAt tokens (pos + passed.length) := by
  have hlength := congrArg List.length h.tokens_eq
  rw [hpassed.length, List.length_drop] at hlength
  constructor
  · have hpos : 0 < c'.tokens.length := by simp [Cursor.tokens]
    omega
  · rw [← List.drop_drop, ← h.tokens_eq, hpassed.tokens, List.drop_left]

theorem Cursor.StandsAt.mem_passed (hpassed : c.Passes c' passed) {i : Nat} {t : Token}
    (hi : pos ≤ i) (hlt : i < pos + passed.length) (ht : tokens[i]? = some t) : t ∈ passed := by
  have hindex : tokens[pos + (i - pos)]? = some t := by rwa [Nat.add_sub_cancel' hi]
  rw [← List.getElem?_drop, ← h.tokens_eq, hpassed.tokens,
    List.getElem?_append_left (by omega)] at hindex
  exact List.mem_of_getElem? hindex

end

structure Cursor.LoopsEnd (g : Grammar) (c : Cursor) : Prop where
  list : ∀ (item : Item) (bracket : Bracket),
    (itemsLoop bracket.closing (item.parser g)).EndsAt c
  expr : ∀ power, (Expr.followsLoop g power).EndsAt c
  type : ∀ power, (TypeExpr.followsLoop g.type power).EndsAt c
  stmts : ∀ closing, (Stmt.untilLoop g closing).EndsAt c

theorem Cursor.Ends.loopsEnd {c : Cursor} (h : c.Ends) {g : Grammar} {levels : Nat}
    (hg : g.Yields levels) : c.LoopsEnd g :=
  ⟨fun item _ => (itemsLoop_advances (Item.parser_moves hg item)).endsAt h,
    fun power => (Expr.followsLoop_advances hg power).endsAt h,
    fun power => (TypeExpr.followsLoop_advances hg.type power).endsAt h,
    fun closing => (Stmt.untilLoop_advances hg closing).endsAt h⟩

/-- **Calls return and keep their place.** Wherever a cursor stands in a list of tokens, and at
whatever depth, a call returns, with the outcome that its parser has, and no loop on the way runs
into its bound. The call stops at a token that is not before the first one, with no `eof` between
them, at the depth at which it was made. If it is the call of a phrase and succeeds, it has left a
token behind. -/
theorem calls_return (given : List Token) (file : String) (maxDepth : Nat) (call : Call) {pos : Nat}
    {c : Cursor} (hc : c.StandsAt (Cursor.ofTokens given file maxDepth).tokens pos) :
    (∀ r, call.Returns c r ↔ r = call.run c) ∧ c.LoopsEnd (.ofLevels (c.limit - c.depth)) ∧
      ∃ pos', pos ≤ pos' ∧
        (reached (call.run c)).StandsAt (Cursor.ofTokens given file maxDepth).tokens pos' ∧
        (∀ i t, pos ≤ i → i < pos' → (Cursor.ofTokens given file maxDepth).tokens[i]? = some t →
          t.kind ≠ .eof) ∧
        (reached (call.run c)).depth = c.depth ∧
        ∀ a c', call.run c = .ok a c' → call.isPhrase → pos < pos' := by
  have hends := hc.ends (Cursor.ofTokens_ends given file maxDepth)
  have hon : c.On c.limit c.depth := ⟨rfl, rfl, hends⟩
  obtain ⟨-, ⟨hends', passed, hpassed⟩, hon'⟩ := call.agree c hon
  have hkind := call.kind_ne_of_passed hends hpassed
  refine ⟨fun r => call.returns_iff hon, hends.loopsEnd (Grammar.ofLevels_yields _),
    pos + passed.length, by omega, hc.passes hpassed, ?_, hon'.depth_eq, ?_⟩
  · intro i t hi hlt ht
    exact hkind t (hc.mem_passed hpassed hi hlt ht)
  · intro a c' hrun hphrase
    have hshort := (Call.run_shrinks hphrase c hends a c' hrun).2
    rw [hrun] at hpassed
    have hlength : c.tokens.length = passed.length + c'.tokens.length := hpassed.length
    omega

def interruptedTokens : List Token :=
  (tokenize "f([1, x" none).toOption.getD [] ++ (tokenize "2])" none).toOption.getD []

/-- The call fails at the first `eof`, two levels deep, and comes back. -/
theorem interruptedTokens_call_returns :
    let c := Cursor.ofTokens interruptedTokens "main" 3
    c.StandsAt c.tokens 0 ∧ (Call.expr .default).Returns c (Expr.parse .default c) ∧
      (reached (Expr.parse .default c)).kind = .eof ∧
      (reached (Expr.parse .default c)).StandsAt c.tokens 6 ∧
      (reached (Expr.parse .default c)).depth = 0 := by
  intro c
  have hc : c.StandsAt c.tokens 0 := ⟨by simp [Cursor.tokens], rfl⟩
  obtain ⟨hreturns, -, pos, -, hstands, -, hdepth, -⟩ :=
    calls_return interruptedTokens "main" 3 (.expr .default) hc
  have hkind : (reached (Expr.parse .default c)).kind = .eof := by decide +kernel
  have hlength : c.tokens.length = 11 := by decide +kernel
  have hrest : (reached (Expr.parse .default c)).tokens.length = 5 := by decide +kernel
  have hdrop := congrArg List.length hstands.tokens_eq
  rw [List.length_drop] at hdrop
  have hpos : pos = 6 := by
    have hlt := hstands.lt
    have hdrop' : 5 = c.tokens.length - pos := hrest.symm.trans hdrop
    omega
  have hzero : c.depth = 0 := by decide +kernel
  exact ⟨hc, (hreturns _).mpr rfl, hkind, hpos ▸ hstands, hdepth.trans hzero⟩

end ShapeCheck
