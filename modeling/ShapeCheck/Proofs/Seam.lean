import ShapeCheck.Proofs.Loops

/-!
# The same tokens before different ends

To every parser but that of a whole statement, `;` is what the end of the file is: a token that
neither starts nor continues anything. So where the same tokens are followed by the end of the file
on one side and by `;` on the other, parsers do the same on both sides until they have left these
tokens behind. Here are the rules for the steps that parsers are made of.
-/

namespace ShapeCheck

open ParseM

/-- Two ways to go on after the same tokens. -/
structure Seam where
  final : Token
  next : Token
  more : List Token
  final_kind : final.kind = .eof
  next_kind : next.kind = .eof ∨ next.kind = .semicolon
  ends : ∃ t ∈ (next :: more).getLast?, t.kind = .eof

namespace Seam

variable (s : Seam)

structure Before (ts : List Token) (c c' : Cursor) : Prop where
  tokens : c.tokens = ts ++ [s.final]
  tokens' : c'.tokens = ts ++ s.next :: s.more
  depth_eq : c.depth = c'.depth
  limit_eq : c.limit = c'.limit
  kind_ne : ∀ t ∈ ts, t.kind ≠ .eof
  last_ne : s.next.kind = .semicolon → ∀ t ∈ ts.getLast?, t.kind ≠ .semicolon

def Meets (c c' : Cursor) : Prop :=
  ∃ ts, s.Before ts c c'

structure Abreast (c c' : Cursor) : Prop where
  meets : s.Meets c c'
  last_eq : c.last = c'.last

/-- The first cursor stands at the end, the second one after the `;`. -/
structure Past (c c' : Cursor) : Prop where
  next_kind : s.next.kind = .semicolon
  tokens : c.tokens = [s.final]
  tokens' : c'.tokens = s.more
  depth_eq : c.depth = c'.depth
  limit_eq : c.limit = c'.limit

/-- Where the cursors are after a statement. -/
def Onward (c c' : Cursor) : Prop :=
  s.Past c c' ∨ s.Abreast c c' ∧ (s.next.kind = .semicolon → c.kind ≠ .eof)

variable {s} {c c' : Cursor}

theorem Past.kind (h : s.Past c c') : c.kind = .eof := by
  rw [Cursor.kind, (List.cons.inj h.tokens).1, s.final_kind]

theorem Meets.ends (h : s.Meets c c') : c.Ends := by
  obtain ⟨ts, h⟩ := h
  refine ⟨s.final, ?_, s.final_kind⟩
  rw [h.tokens]
  simp

theorem Meets.ends' (h : s.Meets c c') : c'.Ends := by
  obtain ⟨ts, h⟩ := h
  obtain ⟨t, ht, hkind⟩ := s.ends
  refine ⟨t, ?_, hkind⟩
  rw [h.tokens', List.getLast?_append, Option.mem_def.mp ht]
  rfl

theorem Before.current {t : Token} {ts : List Token} (h : s.Before (t :: ts) c c') :
    c.current = t ∧ c'.current = t ∧ c.kind ≠ .eof := by
  have hcurrent : c.current = t := (List.cons.inj h.tokens).1
  refine ⟨hcurrent, (List.cons.inj h.tokens').1, ?_⟩
  rw [Cursor.kind, hcurrent]
  exact h.kind_ne t List.mem_cons_self

/-- The cursors stand at the same token or at the seam. -/
theorem Meets.current_cases (h : s.Meets c c') :
    c.current = c'.current ∧ c.kind ≠ .eof ∨ c.current = s.final ∧ c'.current = s.next := by
  obtain ⟨ts, h⟩ := h
  cases ts with
  | nil => exact Or.inr ⟨(List.cons.inj h.tokens).1, (List.cons.inj h.tokens').1⟩
  | cons t ts =>
    obtain ⟨hcurrent, hcurrent', hkind⟩ := h.current
    exact Or.inl ⟨hcurrent.trans hcurrent'.symm, hkind⟩

theorem Meets.current_eq (h : s.Meets c c') (hkind : c.kind ≠ .eof) : c.current = c'.current := by
  rcases h.current_cases with ⟨heq, -⟩ | ⟨hfinal, -⟩
  · exact heq
  · rw [Cursor.kind, hfinal] at hkind
    exact absurd s.final_kind hkind

theorem Meets.current_next (h : s.Meets c c') (hkind : c.kind = .eof) : c'.current = s.next := by
  rcases h.current_cases with ⟨-, hne⟩ | ⟨-, hnext⟩
  · exact absurd hkind hne
  · exact hnext

theorem Before.advance {t : Token} {ts : List Token} (h : s.Before (t :: ts) c c') :
    c.advance.1 = c'.advance.1 ∧ s.Before ts c.advance.2 c'.advance.2 ∧
      c.advance.2.last = c'.advance.2.last := by
  obtain ⟨last, current, ahead, depth, limit⟩ := c
  obtain ⟨last', current', ahead', depth', limit'⟩ := c'
  obtain ⟨htokens, htokens', hdepth, hlimit, hkind, hlast⟩ := h
  simp only [Cursor.tokens, List.cons_append, List.cons.injEq] at htokens htokens'
  obtain ⟨rfl, rfl⟩ := htokens
  obtain ⟨rfl, rfl⟩ := htokens'
  have hkind' : ∀ u ∈ ts, u.kind ≠ .eof := fun u hu => hkind u (List.mem_cons_of_mem _ hu)
  cases ts with
  | nil => exact ⟨rfl, ⟨rfl, rfl, hdepth, hlimit, hkind', by simp⟩, rfl⟩
  | cons u us =>
    refine ⟨rfl, ⟨rfl, rfl, hdepth, hlimit, hkind', ?_⟩, rfl⟩
    simpa [List.getLast?_cons_cons] using hlast

theorem Meets.exists_cons (h : s.Meets c c') (hkind : c.kind ≠ .eof) :
    ∃ ts, s.Before (c.current :: ts) c c' := by
  obtain ⟨ts, h⟩ := h
  cases ts with
  | nil =>
    have hfinal : c.current = s.final := (List.cons.inj h.tokens).1
    rw [Cursor.kind, hfinal] at hkind
    exact absurd s.final_kind hkind
  | cons t ts => exact ⟨ts, h.current.1 ▸ h⟩

/-! ## Kinds at the seam -/

/-- The kinds are the same, or those of the two tokens that nothing goes on with. -/
def Alike (k k' : TokenKind) : Prop :=
  k = k' ∨ k = .eof ∧ k' = .semicolon

theorem Alike.apply {β : Type} {k k' : TokenKind} (h : Alike k k') (f : TokenKind → β)
    (hf : f .semicolon = f .eof) : f k' = f k := by
  rcases h with rfl | ⟨rfl, rfl⟩
  · rfl
  · exact hf

theorem alike_next : Alike s.final.kind s.next.kind := by
  rw [s.final_kind]
  rcases s.next_kind with h | h
  · exact Or.inl h.symm
  · exact Or.inr ⟨rfl, h⟩

theorem Meets.kind_alike (h : s.Meets c c') : Alike c.kind c'.kind := by
  unfold Cursor.kind
  rcases h.current_cases with ⟨heq, -⟩ | ⟨hfinal, hnext⟩
  · exact Or.inl (congrArg Token.kind heq)
  · rw [hfinal, hnext]
    exact alike_next

theorem Meets.peek_alike (h : s.Meets c c') (hkind : c.kind ≠ .eof) :
    Alike (c.peekKind 1) (c'.peekKind 1) := by
  obtain ⟨ts, h⟩ := h.exists_cons hkind
  have hpeek : c.peekKind 1 = (c.tokens[1]?.map Token.kind).getD .eof := rfl
  have hpeek' : c'.peekKind 1 = (c'.tokens[1]?.map Token.kind).getD .eof := rfl
  rw [hpeek, hpeek', h.tokens, h.tokens']
  cases ts with
  | nil => exact alike_next
  | cons t ts => exact Or.inl rfl

/-- A name before a colon stands before the seam. -/
theorem Meets.named_iff (h : s.Meets c c') :
    c'.kind = .identifier ∧ c'.peekKind 1 = .colon ↔
      c.kind = .identifier ∧ c.peekKind 1 = .colon := by
  have hname := h.kind_alike.apply (· = .identifier) (by simp)
  by_cases hkind : c.kind = .identifier
  · have hcolon := (h.peek_alike (by simp [hkind])).apply (· = .colon) (by simp)
    simp only [hname, hcolon]
  · simp [hname, hkind]

/-! ## Outcomes -/

variable {α β : Type}

/-- How the same parser ends for both cursors. A failure before `;` says nothing about what follows
it. -/
inductive Outcomes (s : Seam) (Q : α → Cursor → Cursor → Prop) :
    EStateM.Result Error Cursor α → EStateM.Result Error Cursor α → Prop
  | ok {a c c'} : Q a c c' → Outcomes s Q (.ok a c) (.ok a c')
  | error {e e' c c'} : s.Meets c c' → Outcomes s Q (.error e c) (.error e' c')
  | lost {e c r} : s.next.kind = .semicolon → Outcomes s Q (.error e c) r

def Joins (s : Seam) (p p' : ParseM α) (c c' : Cursor) (Q : α → Cursor → Cursor → Prop) : Prop :=
  s.Outcomes Q (p c) (p' c')

abbrev Joined (s : Seam) (p : ParseM α) (c c' : Cursor) : Prop :=
  s.Joins p p c c' fun _ => s.Abreast

variable {P : α → Cursor → Cursor → Prop} {Q : β → Cursor → Cursor → Prop}

theorem Joins.bind {p p' : ParseM α} {f f' : α → ParseM β} (hp : s.Joins p p' c c' P)
    (hf : ∀ a c₁ c₁', P a c₁ c₁' → s.Joins (f a) (f' a) c₁ c₁' Q) :
    s.Joins (p >>= f) (p' >>= f') c c' Q := by
  show s.Outcomes Q (EStateM.bind p f c) (EStateM.bind p' f' c')
  unfold EStateM.bind
  unfold Joins at hp
  generalize p c = r at hp ⊢
  generalize p' c' = r' at hp ⊢
  cases hp with
  | ok ha => exact hf _ _ _ ha
  | error hm => exact .error hm
  | lost hnext => exact .lost hnext

theorem Joins.weaken {P' : α → Cursor → Cursor → Prop} {p p' : ParseM α}
    (h : s.Joins p p' c c' P) (hP : ∀ a c₁ c₁', P a c₁ c₁' → P' a c₁ c₁') :
    s.Joins p p' c c' P' := by
  unfold Joins at h ⊢
  generalize p c = r at h ⊢
  generalize p' c' = r' at h ⊢
  cases h with
  | ok ha => exact .ok (hP _ _ _ ha)
  | error hm => exact .error hm
  | lost hnext => exact .lost hnext

theorem Joins.pure {a : α} (h : P a c c') : s.Joins (Pure.pure a) (Pure.pure a) c c' P :=
  .ok h

theorem Joins.get {f f' : Cursor → ParseM β} (h : s.Joins (f c) (f' c') c c' Q) :
    s.Joins (get >>= f) (get >>= f') c c' Q :=
  h

theorem Joins.kind_of_eq {f f' : TokenKind → ParseM β} (hsame : c'.kind = c.kind)
    (h : s.Joins (f c.kind) (f' c.kind) c c' Q) :
    s.Joins (ParseM.kind >>= f) (ParseM.kind >>= f') c c' Q := by
  show s.Outcomes Q (f c.kind c) (f' c'.kind c')
  rwa [hsame]

theorem Joins.kind {f f' : TokenKind → ParseM β} (hm : s.Meets c c')
    (hf : f' .semicolon = f' .eof) (h : s.Joins (f c.kind) (f' c.kind) c c' Q) :
    s.Joins (ParseM.kind >>= f) (ParseM.kind >>= f') c c' Q := by
  rw [← hm.kind_alike.apply f' hf] at h
  exact h

theorem Joins.remaining {f f' : Nat → ParseM β}
    (h : s.Joins (f c.tokens.length) (f' c'.tokens.length) c c' Q) :
    s.Joins (ParseM.remaining >>= f) (ParseM.remaining >>= f') c c' Q :=
  h

theorem Joins.spanFrom {start : Position} {f f' : Span → ParseM β} (ha : s.Abreast c c')
    (h : s.Joins (f (c.spanFrom start)) (f' (c.spanFrom start)) c c' Q) :
    s.Joins (ParseM.spanFrom start >>= f) (ParseM.spanFrom start >>= f') c c' Q := by
  have hspan : c'.spanFrom start = c.spanFrom start := by rw [Cursor.spanFrom, ← ha.last_eq]; rfl
  show s.Outcomes Q (f (c.spanFrom start) c) (f' (c'.spanFrom start) c')
  rwa [hspan]

section
variable (hm : s.Meets c c')
include hm

theorem unexpected_joins : s.Joins unexpected unexpected c c' P :=
  .error hm

theorem detailed_joins (message : String) : s.Joins (detailed message) (detailed message) c c' P :=
  .error hm

theorem tooDeep_joins : s.Joins tooDeep tooDeep c c' P :=
  .error hm

theorem advance_joins_peek (hkind : c.kind ≠ .eof) :
    s.Joins advance advance c c' fun _ c₁ c₁' => s.Abreast c₁ c₁' ∧ c₁.kind = c.peekKind 1 := by
  obtain ⟨ts, h⟩ := hm.exists_cons hkind
  obtain ⟨htoken, hbefore, hlast⟩ := h.advance
  have hpeek : c.advance.2.kind = c.peekKind 1 := by
    obtain ⟨last, current, ahead, depth, limit⟩ := c
    cases ahead with
    | nil => exact absurd rfl (hm.ends.ahead_ne_nil hkind)
    | cons t ahead => rfl
  show s.Outcomes _ (.ok c.advance.1 c.advance.2) (.ok c'.advance.1 c'.advance.2)
  rw [← htoken]
  exact .ok ⟨⟨⟨ts, hbefore⟩, hlast⟩, hpeek⟩

theorem advance_joins (hkind : c.kind ≠ .eof) : s.Joined advance c c' :=
  (advance_joins_peek hm hkind).weaken fun _ _ _ h => h.1

theorem expect_joins {k : TokenKind} (hk : k ≠ .eof ∧ k ≠ .semicolon) :
    s.Joined (expect k) c c' := by
  apply Joins.kind hm
  · simp [hk.1.symm, hk.2.symm]
  · split
    case isTrue hkind => exact advance_joins hm (hkind ▸ hk.1)
    case isFalse => exact unexpected_joins hm

theorem expectOr_joins {k : TokenKind} (message : String) (hk : k ≠ .eof ∧ k ≠ .semicolon) :
    s.Joined (expectOr k message) c c' := by
  apply Joins.kind hm
  · simp [hk.1.symm, hk.2.symm]
  · split
    case isTrue hkind => exact advance_joins hm (hkind ▸ hk.1)
    case isFalse => exact detailed_joins hm message

theorem skip_joins {k : TokenKind} (hk : k ≠ .eof ∧ k ≠ .semicolon) :
    s.Joins (skip k) (skip k) c c' fun _ => s.Meets := by
  apply Joins.kind hm
  · simp [hk.1.symm, hk.2.symm]
  · split
    case isTrue hkind =>
      exact (advance_joins hm (hkind ▸ hk.1)).bind fun _ _ _ ha => .pure ha.meets
    case isFalse => exact .pure hm

theorem entryName_joins (hkind : c.kind ≠ .eof) : s.Joined entryName c c' := by
  refine (advance_joins hm hkind).bind fun _ _ _ ha => ?_
  exact (expectOr_joins ha.meets _ (by decide)).bind fun _ _ _ ha => .pure ha

end

theorem Meets.enter (h : s.Meets c c') :
    s.Meets { c with depth := c.depth + 1 } { c' with depth := c'.depth + 1 } := by
  obtain ⟨ts, h⟩ := h
  refine ⟨ts, h.tokens, h.tokens', ?_, h.limit_eq, h.kind_ne, h.last_ne⟩
  simp [h.depth_eq]

theorem Meets.leave (h : s.Meets c c') : s.Meets c.leave c'.leave := by
  obtain ⟨ts, h⟩ := h
  refine ⟨ts, h.tokens, h.tokens', ?_, h.limit_eq, h.kind_ne, h.last_ne⟩
  simp [Cursor.leave, h.depth_eq]

theorem nested_joins {p : ParseM α} (h : ∀ c c', s.Meets c c' → s.Joined p c c')
    (hm : s.Meets c c') : s.Joined (nested p) c c' := by
  obtain ⟨ts, hbefore⟩ := id hm
  show s.Outcomes _ (nested p c) (nested p c')
  unfold nested
  by_cases hdepth : c.limit ≤ c.depth
  · have hdepth' : c'.limit ≤ c'.depth := by rwa [← hbefore.limit_eq, ← hbefore.depth_eq]
    simp only [Cursor.enter?, hdepth, hdepth', if_true]
    exact .error hm
  · have hdepth' : ¬ c'.limit ≤ c'.depth := by rwa [← hbefore.limit_eq, ← hbefore.depth_eq]
    let inner : Cursor := { c with depth := c.depth + 1 }
    let inner' : Cursor := { c' with depth := c'.depth + 1 }
    have henter : c.enter? = some inner := if_neg hdepth
    have henter' : c'.enter? = some inner' := if_neg hdepth'
    have hrun : s.Outcomes _ (p inner) (p inner') := h inner inner' hm.enter
    rw [henter, henter']
    dsimp only
    generalize p inner = r at hrun ⊢
    generalize p inner' = r' at hrun ⊢
    cases hrun with
    | ok ha => exact .ok ⟨ha.meets.leave, ha.last_eq⟩
    | error hm => exact .error hm.leave
    | lost hnext => exact .lost hnext

/-! ## Loops -/

/-- Rounds that lead from related states to related states make loops that do. -/
theorem outcomes_of_repeats {σ : Type} {loop : Loop σ β} {R : σ → Cursor → Cursor → Prop}
    (hround : ∀ st c c', R st c c' → s.Joins (loop.round st) (loop.round st) c c' (Sum.elim R Q))
    {st : σ} {r r' : EStateM.Result Error Cursor β} (h : loop.Repeats st c r)
    (h' : loop.Repeats st c' r') (hst : R st c c') : s.Outcomes Q r r' := by
  induction h generalizing c' with
  | done hrun =>
    have hjoins : s.Outcomes _ _ _ := hround _ _ _ hst
    rw [hrun] at hjoins
    generalize hrun' : loop.round _ c' = outcome at hjoins
    cases hjoins with
    | ok hb =>
      rw [h'.unique (.done hrun')]
      exact .ok hb
  | failed hrun =>
    have hjoins : s.Outcomes _ _ _ := hround _ _ _ hst
    rw [hrun] at hjoins
    generalize hrun' : loop.round _ c' = outcome at hjoins
    cases hjoins with
    | error hm =>
      rw [h'.unique (.failed hrun')]
      exact .error hm
    | lost hnext => exact .lost hnext
  | again hrun _ ih =>
    have hjoins : s.Outcomes _ _ _ := hround _ _ _ hst
    rw [hrun] at hjoins
    generalize hrun' : loop.round _ c' = outcome at hjoins
    cases hjoins with
    | ok hb =>
      cases h' with
      | again hagain hrest =>
        rw [hrun'] at hagain
        cases hagain
        exact ih hrest hb
      | done hdone => simp [hrun'] at hdone
      | failed hfailed => simp [hrun'] at hfailed

theorem loop_joins {σ : Type} {loop : Loop σ β} (hloop : loop.Advances)
    {R : σ → Cursor → Cursor → Prop}
    (hround : ∀ st c c', R st c c' → s.Joins (loop.round st) (loop.round st) c c' (Sum.elim R Q))
    {st : σ} (hst : R st c c') (hm : s.Meets c c') :
    s.Joins (loop.bounded c.tokens.length st) (loop.bounded c'.tokens.length st) c c' Q :=
  outcomes_of_repeats hround (Loop.repeats_bounded hloop _ st c hm.ends (Nat.le_refl _))
    (Loop.repeats_bounded hloop _ st c' hm.ends' (Nat.le_refl _)) hst

/-! ## Lists -/

section
variable {closing : TokenKind} (hclosing : closing ≠ .eof ∧ closing ≠ .semicolon)
include hclosing

theorem commaList_joins {item : List α → ParseM α} (hmoves : ∀ earlier c, Moves (item earlier) c)
    (hitem : ∀ earlier c c', s.Meets c c' → s.Joined (item earlier) c c') (ha : s.Abreast c c') :
    s.Joined (commaList closing item) c c' := by
  have hround : ∀ earlier c c', s.Abreast c c' →
      s.Joins (itemsRound closing item earlier) (itemsRound closing item earlier) c c'
        (Sum.elim (fun _ => s.Abreast) (fun _ => s.Abreast)) := by
    intro earlier c c' ha
    apply Joins.kind ha.meets
    · simp [hclosing.1.symm, hclosing.2.symm]
    · split
      · exact .pure ha
      · refine (hitem earlier c c' ha.meets).bind fun a c₁ c₁' ha₁ => ?_
        apply Joins.kind ha₁.meets rfl
        split
        case isTrue hcomma =>
          refine (advance_joins ha₁.meets (by simp [hcomma])).bind fun _ _ _ ha₂ => ?_
          exact .pure ha₂
        case isFalse => exact .pure ha₁
  refine .remaining ?_
  refine (loop_joins (itemsLoop_advances hmoves) hround ha ha.meets).bind fun as c₁ c₁' ha₁ => ?_
  exact (expect_joins ha₁.meets hclosing).bind fun _ _ _ ha₂ => .pure ha₂

end

theorem entryOf_fails (item : ParseM α) (earlier : List (String × α))
    (hkind : c.kind ≠ .identifier) : ∃ e, entryOf item earlier c = .error e c := by
  by_cases hname : earlier.any (·.1 = c.current.value)
  · refine ⟨c.detailed "duplicate record entry", ?_⟩
    show (if _ then _ else _ : ParseM (String × α)) c = _
    rw [if_pos hname]
    rfl
  · refine ⟨c.detailed "expected record entry name", ?_⟩
    show (if _ then _ else _ : ParseM (String × α)) c = _
    rw [if_neg hname]
    have hfails : expectOr .identifier "expected record entry name" c =
        .error (c.detailed "expected record entry name") c := by
      show (if _ then _ else _ : ParseM Token) c = _
      rw [if_neg hkind]
      rfl
    show EStateM.bind _ _ c = _
    rw [EStateM.bind, hfails]

section
variable {item : ParseM α} (hmoves : ∀ c, Moves item c)
  (hitem : ∀ c c', s.Meets c c' → s.Joined item c c')
include hitem

theorem entryOf_joins (earlier : List (String × α)) (hm : s.Meets c c') :
    s.Joined (entryOf item earlier) c c' := by
  by_cases hkind : c.kind = .eof
  · -- What stands at the seam is no name, whether or not its text is that of an earlier entry.
    have hkind' : c'.kind ≠ .identifier := by
      rw [Cursor.kind, hm.current_next hkind]
      rcases s.next_kind with h | h <;> simp [h]
    obtain ⟨e, he⟩ := entryOf_fails item earlier (c := c) (by simp [hkind])
    obtain ⟨e', he'⟩ := entryOf_fails item earlier hkind'
    show s.Outcomes _ (entryOf item earlier c) (entryOf item earlier c')
    rw [he, he']
    exact .error hm
  · refine .get ?_
    rw [← hm.current_eq hkind]
    dsimp only
    split
    · exact (detailed_joins (P := fun _ _ _ => False) hm _).bind fun _ _ _ hfalse => hfalse.elim
    · refine (expectOr_joins hm _ (by decide)).bind fun name c₁ c₁' ha => ?_
      refine (expect_joins ha.meets (by decide)).bind fun _ c₂ c₂' ha => ?_
      exact (hitem c₂ c₂' ha.meets).bind fun _ _ _ ha => .pure ha

include hmoves

theorem entries_joins (hm : s.Meets c c') : s.Joined (entries item) c c' := by
  refine (skip_joins hm (by decide)).bind fun _ c₁ c₁' hm₁ => ?_
  refine (expect_joins hm₁ (by decide)).bind fun _ c₂ c₂' ha => ?_
  exact commaList_joins (by decide) (entryOf_moves hmoves)
    (fun earlier _ _ hm => entryOf_joins hitem earlier hm) ha

theorem arguments_joins (ha : s.Abreast c c') : s.Joined (arguments item) c c' := by
  apply Joins.kind ha.meets rfl
  split
  case isTrue hkind =>
    refine (advance_joins ha.meets (by simp [hkind])).bind fun _ c₁ c₁' ha => ?_
    exact commaList_joins (by decide) (fun _ => hmoves) (fun _ => hitem) ha
  case isFalse => exact .pure ha

omit hmoves in
theorem declaredType_joins (ha : s.Abreast c c') : s.Joined (declaredType item) c c' := by
  apply Joins.kind ha.meets rfl
  split
  case isTrue hkind =>
    refine (advance_joins ha.meets (by simp [hkind])).bind fun _ c₁ c₁' ha => ?_
    exact (hitem c₁ c₁' ha.meets).bind fun _ _ _ ha => .pure ha
  case isFalse => exact .pure ha

end

/-! ## After a statement -/

/-- At the seam only the second cursor goes on, over the `;`. -/
theorem past_of_eof (hm : s.Meets c c') (hkind : c.kind = .eof) (hnext : s.next.kind = .semicolon) :
    s.Past c c'.advance.2 := by
  obtain ⟨ts, hbefore⟩ := hm
  cases ts with
  | cons t ts => exact absurd hkind hbefore.current.2.2
  | nil =>
    have hahead : c'.ahead = s.more := (List.cons.inj hbefore.tokens').2
    obtain ⟨t, ht, heof⟩ := s.ends
    cases hmore : s.more with
    | nil =>
      simp only [hmore, List.getLast?_singleton, Option.mem_some_iff] at ht
      simp [ht, heof] at hnext
    | cons u us =>
      have hadvance : c'.advance.2 =
          { c' with last := c'.current.span.stop, current := u, ahead := us } := by
        rw [Cursor.advance, hahead, hmore]
      rw [hadvance]
      exact ⟨hnext, hbefore.tokens, hmore.symm, hbefore.depth_eq, hbefore.limit_eq⟩

theorem skip_eq (k : TokenKind) (c : Cursor) :
    skip k c = .ok () (if c.kind = k then c.advance.2 else c) := by
  show (if c.kind = k then _ else _ : ParseM Unit) c = _
  split <;> rfl

theorem skip_semicolon_joins (ha : s.Abreast c c') :
    s.Joins (skip .semicolon) (skip .semicolon) c c' fun _ => s.Onward := by
  show s.Outcomes _ (skip .semicolon c) (skip .semicolon c')
  rw [skip_eq, skip_eq]
  apply Outcomes.ok
  by_cases hkind : c.kind = .eof
  · have hnext : c'.kind = s.next.kind := congrArg Token.kind (ha.meets.current_next hkind)
    rw [if_neg (by simp [hkind]), hnext]
    split
    case isTrue hsemicolon => exact Or.inl (past_of_eof ha.meets hkind hsemicolon)
    case isFalse hsemicolon => exact Or.inr ⟨ha, fun h => absurd h hsemicolon⟩
  · have hsame : c'.kind = c.kind := congrArg Token.kind (ha.meets.current_eq hkind).symm
    rw [hsame]
    split
    case isTrue hsemicolon =>
      obtain ⟨ts, hbefore⟩ := ha.meets.exists_cons hkind
      obtain ⟨-, hafter, hlast⟩ := hbefore.advance
      refine Or.inr ⟨⟨⟨ts, hafter⟩, hlast⟩, fun hnext => ?_⟩
      cases ts with
      | nil => exact absurd hsemicolon (hbefore.last_ne hnext c.current rfl)
      | cons t ts => exact hafter.current.2.2
    case isFalse => exact Or.inr ⟨ha, fun _ => hkind⟩

end Seam

end ShapeCheck
