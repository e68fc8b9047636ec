import ShapeCheck.Proofs.Readable
import ShapeCheck.Tree.Printer

/-!
# Parsers on given tokens

`Reads` follows a parser forward over tokens that are known, from the first of them to those that
are left. A phrase that is continued is read from its start on, one continuation after the other.
So `Phrase.Spells` speaks of the way from its first token to any of its continuations, and only
`Phrase.body` asks that nothing continues it further.
-/

namespace ShapeCheck

open Token (word mark separated entry listed)

/-- The cursor stands at the first of `ts`, with `levels` levels of nesting left below `limit`. -/
structure Cursor.At (limit levels : Nat) (ts : List Token) (c : Cursor) : Prop where
  limit_eq : c.limit = limit
  depth_add : c.depth + levels = limit
  tokens_eq : c.tokens = ts

theorem Cursor.At.kind {limit levels : Nat} {t : Token} {ts : List Token} {c : Cursor}
    (h : c.At limit levels (t :: ts)) : c.kind = t.kind :=
  congrArg Token.kind (List.cons.inj h.tokens_eq).1

/-- From the tokens `ts` the parser gets to `rest`, and yields what satisfies `Q`. -/
def ParseM.Reads {α : Type} (limit levels : Nat) (p : ParseM α) (ts rest : List Token)
    (Q : α → Prop) : Prop :=
  ∀ c : Cursor, c.At limit levels ts → ∃ a c', p c = .ok a c' ∧ c'.At limit levels rest ∧ Q a

namespace ParseM

variable {α β : Type} {limit levels : Nat} {ts rest rest' : List Token} {Q : α → Prop}
  {R : β → Prop}

theorem Reads.weaken {Q' : α → Prop} {p : ParseM α} (h : Reads limit levels p ts rest Q)
    (hQ : ∀ a, Q a → Q' a) : Reads limit levels p ts rest Q' := by
  intro c hc
  obtain ⟨a, c', hrun, hc', ha⟩ := h c hc
  exact ⟨a, c', hrun, hc', hQ a ha⟩

theorem Reads.pure {a : α} (h : Q a) : Reads limit levels (Pure.pure a) ts ts Q :=
  fun c hc => ⟨a, c, rfl, hc, h⟩

theorem Reads.bind {p : ParseM α} {f : α → ParseM β} (hp : Reads limit levels p ts rest Q)
    (hf : ∀ a, Q a → Reads limit levels (f a) rest rest' R) :
    Reads limit levels (p >>= f) ts rest' R := by
  intro c hc
  obtain ⟨a, c₁, hrun, hc₁, ha⟩ := hp c hc
  obtain ⟨b, c₂, hrun', hc₂, hb⟩ := hf a ha c₁ hc₁
  refine ⟨b, c₂, ?_, hc₂, hb⟩
  show EStateM.bind p f c = _
  unfold EStateM.bind
  rw [hrun]
  exact hrun'

theorem Reads.get {f : Cursor → ParseM β}
    (h : ∀ c, c.At limit levels ts → Reads limit levels (f c) ts rest R) :
    Reads limit levels (get >>= f) ts rest R :=
  fun c hc => h c hc c hc

theorem Reads.kind {t : Token} {f : TokenKind → ParseM β}
    (h : Reads limit levels (f t.kind) (t :: ts) rest R) :
    Reads limit levels (ParseM.kind >>= f) (t :: ts) rest R := by
  intro c hc
  have hrun := h c hc
  rw [← hc.kind] at hrun
  exact hrun

theorem Reads.remaining {f : Nat → ParseM β}
    (h : Reads limit levels (f ts.length) ts rest R) :
    Reads limit levels (ParseM.remaining >>= f) ts rest R := by
  intro c hc
  have hrun := h c hc
  rw [← hc.tokens_eq] at hrun
  exact hrun

theorem Reads.spanFrom {start : Position} {f : Span → ParseM β}
    (h : ∀ span, Reads limit levels (f span) ts rest R) :
    Reads limit levels (ParseM.spanFrom start >>= f) ts rest R :=
  fun c hc => h _ c hc

theorem advance_reads {t : Token} (h : rest ≠ []) :
    Reads limit levels advance (t :: rest) rest (· = t) := by
  intro c hc
  obtain ⟨hcurrent, hahead⟩ := List.cons.inj hc.tokens_eq
  obtain ⟨next, more, rfl⟩ := List.exists_cons_of_ne_nil h
  refine ⟨t, { c with last := c.current.span.stop, current := next, ahead := more }, ?_, ?_, rfl⟩
  · show EStateM.Result.ok c.advance.1 c.advance.2 = _
    unfold Cursor.advance
    rw [hahead, hcurrent]
  · exact ⟨hc.limit_eq, hc.depth_add, rfl⟩

theorem expect_reads {t : Token} {k : TokenKind} (hkind : t.kind = k) (h : rest ≠ []) :
    Reads limit levels (expect k) (t :: rest) rest (· = t) := by
  refine .kind ?_
  rw [if_pos hkind]
  exact advance_reads h

theorem expectOr_reads {t : Token} {k : TokenKind} {message : String} (hkind : t.kind = k)
    (h : rest ≠ []) : Reads limit levels (expectOr k message) (t :: rest) rest (· = t) := by
  refine .kind ?_
  rw [if_pos hkind]
  exact advance_reads h

theorem skip_reads {t : Token} {k : TokenKind} (hkind : t.kind = k) (h : rest ≠ []) :
    Reads limit levels (skip k) (t :: rest) rest fun _ => True := by
  refine .kind ?_
  rw [if_pos hkind]
  exact (advance_reads h).bind fun _ _ => .pure trivial

/-- What is one level deeper may use one level less. -/
theorem nested_reads {p : ParseM α} (h : Reads limit levels p ts rest Q) :
    Reads limit (levels + 1) (nested p) ts rest Q := by
  intro c hc
  have hroom : ¬ c.limit ≤ c.depth := by
    have := hc.limit_eq
    have := hc.depth_add
    omega
  have hinner : Cursor.At limit levels ts { c with depth := c.depth + 1 } :=
    ⟨hc.limit_eq, by have := hc.depth_add; show c.depth + 1 + levels = limit; omega, hc.tokens_eq⟩
  obtain ⟨a, c', hrun, hc', ha⟩ := h _ hinner
  refine ⟨a, c'.leave, ?_, ⟨hc'.limit_eq, ?_, hc'.tokens_eq⟩, ha⟩
  · unfold nested Cursor.enter?
    rw [if_neg hroom]
    dsimp only
    rw [hrun]
  · have := hc.depth_add
    have := hc'.depth_add
    show c'.depth - 1 + (levels + 1) = limit
    omega

/-! ### Lists -/

section
variable {ι : Type} {closing : TokenKind} {item : List α → ParseM α} {write : ι → List Token}
  {erase : α → β} {value : ι → β}

/-- The items that are left, after those that were read before them. What is written as `write a` is
read as `value a`. -/
theorem items_reads {as : List ι} (hclosing : closing ≠ .comma)
    (hstart : ∀ a ∈ as, ∃ t ts, write a = t :: ts ∧ t.kind ≠ closing)
    (hitem : ∀ before a after earlier next rest, as = before ++ a :: after →
      earlier.reverse.map erase = before.map value → next.kind = .comma ∨ next.kind = closing →
        Reads limit levels (item earlier) (write a ++ next :: rest) (next :: rest)
          (erase · = value a)) :
    ∀ (after before : List ι) (earlier : List α) (n : Nat), as = before ++ after →
      earlier.reverse.map erase = before.map value → after.length ≤ n →
        Reads limit levels (items closing item n earlier)
          (separated .comma (after.map write) ++ mark closing :: rest) (mark closing :: rest)
          (fun bs => bs.map erase = as.map value)
  | [], before, earlier, n, has, hearlier, _ => by
    have hdone : earlier.reverse.map erase = as.map value := by
      rw [has, List.append_nil]
      exact hearlier
    cases n with
    | zero => exact .pure hdone
    | succ n =>
      refine .kind ?_
      rw [if_pos (Token.kind_mark closing)]
      exact .pure hdone
  | a :: after, before, earlier, n + 1, has, hearlier, hn => by
    have hmem : a ∈ as := by simp [has]
    obtain ⟨t, ts, hwrite, hkind⟩ := hstart a hmem
    have hsnoc : ∀ b, erase b = value a →
        (b :: earlier).reverse.map erase = (before ++ [a]).map value := by
      intro b hb
      rw [List.reverse_cons, List.map_append, List.map_append, hearlier]
      simp [hb]
    show Reads limit levels _ ((write a ++ (after.map write).flatMap (mark .comma :: ·)) ++
      mark closing :: rest) _ _
    rw [List.append_assoc, hwrite, List.cons_append]
    refine .kind ?_
    rw [if_neg hkind, ← List.cons_append, ← hwrite]
    cases after with
    | nil =>
      refine (hitem before a [] earlier _ _ has hearlier (Or.inr rfl)).bind fun b hb => ?_
      refine .kind ?_
      rw [if_neg (by rw [Token.kind_mark]; exact hclosing)]
      refine .pure ?_
      rw [hsnoc b hb, has]
    | cons a' after =>
      have hnext := hitem before a (a' :: after) earlier (mark .comma)
        (separated .comma ((a' :: after).map write) ++ mark closing :: rest) has hearlier
        (Or.inl rfl)
      rw [show ((a' :: after).map write).flatMap (mark .comma :: ·) ++ mark closing :: rest =
        mark .comma :: (separated .comma ((a' :: after).map write) ++ mark closing :: rest) from
          rfl]
      refine hnext.bind fun b hb => ?_
      refine .kind ?_
      rw [if_pos (Token.kind_mark .comma)]
      refine (advance_reads (by simp)).bind fun _ _ => ?_
      refine items_reads hclosing hstart hitem (a' :: after) (before ++ [a]) (b :: earlier) n ?_
        (hsnoc b hb) (by simpa using hn)
      rw [has, List.append_assoc]
      rfl

theorem length_le_separated {k : TokenKind} {pieces : List (List Token)}
    (h : ∀ piece ∈ pieces, piece ≠ []) : pieces.length ≤ (separated k pieces).length := by
  cases pieces with
  | nil => exact Nat.zero_le _
  | cons piece pieces =>
    have hpos := List.length_pos_iff.mpr (h piece (by simp))
    have hmore : pieces.length ≤ (pieces.flatMap (mark k :: ·)).length := by
      clear h
      induction pieces with
      | nil => exact Nat.zero_le _
      | cons piece pieces ih =>
        simp only [List.flatMap_cons, List.length_append, List.length_cons]
        omega
    simp only [separated, List.length_append, List.length_cons]
    omega

theorem commaList_reads {as : List ι} (hclosing : closing ≠ .comma)
    (hstart : ∀ a ∈ as, ∃ t ts, write a = t :: ts ∧ t.kind ≠ closing)
    (hitem : ∀ before a after earlier next rest, as = before ++ a :: after →
      earlier.reverse.map erase = before.map value → next.kind = .comma ∨ next.kind = closing →
        Reads limit levels (item earlier) (write a ++ next :: rest) (next :: rest)
          (erase · = value a)) (hrest : rest ≠ []) :
    Reads limit levels (commaList closing item) (listed closing (as.map write) ++ rest) rest
      (fun bs => bs.map erase = as.map value) := by
  have hlength : as.length ≤ (listed closing (as.map write) ++ rest).length := by
    have hpieces : ∀ piece ∈ as.map write, piece ≠ [] := by
      intro piece hmem
      obtain ⟨a, ha, rfl⟩ := List.mem_map.mp hmem
      obtain ⟨t, ts, hwrite, -⟩ := hstart a ha
      rw [hwrite]
      exact List.cons_ne_nil t ts
    have hle := length_le_separated (k := .comma) hpieces
    rw [List.length_map] at hle
    simp only [listed, List.length_append]
    omega
  refine .remaining ?_
  rw [show listed closing (as.map write) ++ rest =
    separated .comma (as.map write) ++ mark closing :: rest by simp [listed]] at hlength ⊢
  refine (items_reads hclosing hstart hitem as [] [] _ rfl rfl hlength).bind fun bs hbs => ?_
  exact (expect_reads (Token.kind_mark closing) hrest).bind fun _ _ => .pure hbs

variable (erase value)

/-- A list whose items are all read in the same way. -/
theorem commaList_reads_as {as : List ι} {item : ParseM α} (hclosing : closing ≠ .comma)
    (hstart : ∀ a ∈ as, ∃ t ts, write a = t :: ts ∧ t.kind ≠ closing)
    (hitem : ∀ a ∈ as, ∀ next rest, next.kind = .comma ∨ next.kind = closing →
      Reads limit levels item (write a ++ next :: rest) (next :: rest) (erase · = value a))
    (hrest : rest ≠ []) :
    Reads limit levels (commaList closing fun _ => item) (listed closing (as.map write) ++ rest)
      rest (fun bs => bs.map erase = as.map value) := by
  refine commaList_reads hclosing hstart ?_ hrest
  intro before a after _ next rest has _ hnext
  exact hitem a (by simp [has]) next rest hnext

/-- The entries of a record whose names are all different. -/
theorem entries_reads_as {parser : ParseM α} {es : List (String × ι)}
    (hnames : (es.map Prod.fst).Nodup)
    (hvalue : ∀ e ∈ es, ∀ next rest, next.kind = .comma ∨ next.kind = .closeCurly →
      Reads limit levels parser (write e.2 ++ next :: rest) (next :: rest) (erase · = value e.2))
    (hrest : rest ≠ []) :
    Reads limit levels (entries parser)
      (mark .percent :: mark .openCurly ::
        (listed .closeCurly (es.map fun e => entry e.1 (write e.2)) ++ rest))
      rest (fun fs => fs.map (Prod.map id erase) = es.map (Prod.map id value)) := by
  refine (skip_reads rfl (by simp)).bind fun _ _ => ?_
  refine (expect_reads rfl (by simp [listed])).bind fun _ _ => ?_
  refine commaList_reads (by decide) ?_ ?_ hrest
  · exact fun e _ => ⟨_, _, rfl, by simp⟩
  intro before e after earlier next rest hes hearlier hnext
  -- the names before this one are those of `before`, and so other than its own
  have hnew : (earlier.any fun e' => decide (e'.1 = e.1)) = false := by
    rw [List.any_eq_false]
    intro e' he' heq
    have hbefore : e'.1 ∈ before.map Prod.fst := by
      have hmem : Prod.map id erase e' ∈ before.map (Prod.map id value) := by
        rw [← hearlier]
        exact List.mem_map_of_mem (List.mem_reverse.mpr he')
      obtain ⟨e'', he'', heq''⟩ := List.mem_map.mp hmem
      have hname : (Prod.map id value e'').1 = (Prod.map id erase e').1 := congrArg Prod.fst heq''
      exact List.mem_map.mpr ⟨e'', he'', hname⟩
    rw [hes, List.map_append, List.map_cons] at hnames
    have hdisjoint := (List.nodup_append.mp hnames).2.2 _ hbefore e.1 (by simp)
    exact hdisjoint (of_decide_eq_true heq)
  refine .get fun c hc => ?_
  have hcurrent : c.current.value = e.1 := by
    rw [(List.cons.inj hc.tokens_eq).1]
    rfl
  dsimp only
  rw [hcurrent, hnew]
  refine (expectOr_reads rfl (by simp)).bind fun name hname => ?_
  subst hname
  refine (expect_reads rfl (by simp)).bind fun _ _ => ?_
  refine (hvalue e (by simp [hes]) next rest hnext).bind fun a ha => .pure ?_
  simp [Prod.map, ha]

theorem arguments_reads_as {item : ParseM α} {as : List ι}
    (hstart : ∀ a ∈ as, ∃ t ts, write a = t :: ts ∧ t.kind ≠ .closeParen)
    (hitem : ∀ a ∈ as, ∀ next rest, next.kind = .comma ∨ next.kind = .closeParen →
      Reads limit levels item (write a ++ next :: rest) (next :: rest) (erase · = value a))
    (hrest : rest ≠ []) :
    Reads limit levels (arguments item)
      (mark .openParen :: (listed .closeParen (as.map write) ++ rest)) rest
      (fun bs => bs.map erase = as.map value) := by
  refine .kind ?_
  rw [if_pos (Token.kind_mark .openParen)]
  refine (advance_reads (by simp [listed])).bind fun _ _ => ?_
  exact commaList_reads_as erase value (by decide) hstart hitem hrest

end

/-! What is written is often of the kind that is read. -/

section
variable {write : α → List Token} {as : List α}

theorem commaList_reads_each {closing : TokenKind} {item : ParseM α} (erase : α → β)
    (hclosing : closing ≠ .comma)
    (hstart : ∀ a ∈ as, ∃ t ts, write a = t :: ts ∧ t.kind ≠ closing)
    (hitem : ∀ a ∈ as, ∀ next rest, next.kind = .comma ∨ next.kind = closing →
      Reads limit levels item (write a ++ next :: rest) (next :: rest) (erase · = erase a))
    (hrest : rest ≠ []) :
    Reads limit levels (commaList closing fun _ => item) (listed closing (as.map write) ++ rest)
      rest (fun bs => bs.map erase = as.map erase) :=
  commaList_reads_as erase erase hclosing hstart hitem hrest

theorem entries_reads {value : ParseM α} (erase : α → α) {es : List (String × α)}
    (hnames : (es.map Prod.fst).Nodup)
    (hvalue : ∀ e ∈ es, ∀ next rest, next.kind = .comma ∨ next.kind = .closeCurly →
      Reads limit levels value (write e.2 ++ next :: rest) (next :: rest) (erase · = erase e.2))
    (hrest : rest ≠ []) :
    Reads limit levels (entries value)
      (mark .percent :: mark .openCurly ::
        (listed .closeCurly (es.map fun e => entry e.1 (write e.2)) ++ rest))
      rest (fun fs => fs.map (Prod.map id erase) = es.map (Prod.map id erase)) :=
  entries_reads_as erase erase hnames hvalue hrest

theorem arguments_reads {item : ParseM α} (erase : α → β)
    (hstart : ∀ a ∈ as, ∃ t ts, write a = t :: ts ∧ t.kind ≠ .closeParen)
    (hitem : ∀ a ∈ as, ∀ next rest, next.kind = .comma ∨ next.kind = .closeParen →
      Reads limit levels item (write a ++ next :: rest) (next :: rest) (erase · = erase a))
    (hrest : rest ≠ []) :
    Reads limit levels (arguments item)
      (mark .openParen :: (listed .closeParen (as.map write) ++ rest)) rest
      (fun bs => bs.map erase = as.map erase) :=
  arguments_reads_as erase erase hstart hitem hrest

end

theorem entryName_reads {t : Token} {name : String} (hrest : rest ≠ []) :
    Reads limit levels entryName (t :: word .identifier name :: rest) rest (· = name) := by
  refine (advance_reads (by simp)).bind fun _ _ => ?_
  exact (expectOr_reads rfl hrest).bind fun _ hname => .pure (by rw [hname]; rfl)

/-! ### Phrases -/

namespace Phrase

variable {σ ρ : Type} (phrase : Phrase α σ ρ)

/-- Continuing `a` at `c` comes to `b` at `c'`, however many steps are allowed beyond that. -/
def Reaches (a : α) (c : Cursor) (b : α) (c' : Cursor) : Prop :=
  ∃ k, k + c'.tokens.length ≤ c.tokens.length ∧
    ∀ n, phrase.follows (n + k) a c = phrase.follows n b c'

/-- From the tokens `ts` the phrase gets to `rest`, where more may follow. -/
def Spells (limit levels : Nat) (ts rest : List Token) (Q : α → Prop) : Prop :=
  ∀ c : Cursor, c.At limit levels ts → ∃ rule a c₁ b c', phrase.start? c.kind = some rule ∧
    phrase.start rule c = .ok a c₁ ∧ phrase.Reaches a c₁ b c' ∧ c'.At limit levels rest ∧ Q b

variable {phrase} {t : Token}

theorem Spells.weaken {Q' : α → Prop} (h : phrase.Spells limit levels ts rest Q)
    (hQ : ∀ a, Q a → Q' a) : phrase.Spells limit levels ts rest Q' := by
  intro c hc
  obtain ⟨rule, a, c₁, b, c', hrule, hrun, hreaches, hc', hb⟩ := h c hc
  exact ⟨rule, a, c₁, b, c', hrule, hrun, hreaches, hc', hQ b hb⟩

theorem Spells.start (rule : σ) (hrule : phrase.start? t.kind = some rule)
    (h : Reads limit levels (phrase.start rule) (t :: ts) rest Q) :
    phrase.Spells limit levels (t :: ts) rest Q := by
  intro c hc
  obtain ⟨a, c', hrun, hc', ha⟩ := h c hc
  refine ⟨rule, a, c', a, c', by rw [hc.kind, hrule], hrun, ⟨0, by omega, fun _ => rfl⟩, hc', ha⟩

theorem Spells.follow {Q' : α → Prop} (h : phrase.Spells limit levels ts (t :: rest) Q) (rule : ρ)
    (hrule : phrase.follow? t.kind = some rule)
    (hfollow : ∀ a, Q a → Reads limit levels (phrase.follow a rule) (t :: rest) rest' Q')
    (hshort : rest'.length ≤ rest.length) : phrase.Spells limit levels ts rest' Q' := by
  intro c hc
  obtain ⟨start, a, c₁, b, c₂, hstart, hrun, ⟨k, hk, hreaches⟩, hc₂, hb⟩ := h c hc
  obtain ⟨b', c₃, hrun', hc₃, hb'⟩ := hfollow b hb c₂ hc₂
  refine ⟨start, a, c₁, b', c₃, hstart, hrun, ⟨k + 1, ?_, fun n => ?_⟩, hc₃, hb'⟩
  · rw [hc₂.tokens_eq, List.length_cons] at hk
    rw [hc₃.tokens_eq]
    omega
  · rw [show n + (k + 1) = n + 1 + k by omega, hreaches,
      phrase.follows_step n b c₂ rule (by rw [hc₂.kind, hrule])]
    show EStateM.bind _ _ c₂ = _
    unfold EStateM.bind
    rw [hrun']

/-- A phrase ends where nothing continues it. -/
theorem Spells.body (h : phrase.Spells limit levels ts (t :: rest) Q)
    (hstop : phrase.follow? t.kind = none) :
    Reads limit levels phrase.body ts (t :: rest) Q := by
  intro c hc
  obtain ⟨rule, a, c₁, b, c', hrule, hrun, ⟨k, hk, hreaches⟩, hc', hb⟩ := h c hc
  refine ⟨b, c', ?_, hc', hb⟩
  have hloop : phrase.follows c₁.tokens.length a c₁ = .ok b c' := by
    rw [show c₁.tokens.length = c₁.tokens.length - k + k by omega, hreaches,
      phrase.follows_stop _ _ _ (by rw [hc'.kind, hstop])]
  have hkind : ParseM.kind c = .ok c.kind c := rfl
  unfold Phrase.body
  show EStateM.bind _ _ c = _
  unfold EStateM.bind
  rw [hkind]
  dsimp only
  rw [hrule]
  show EStateM.bind _ _ c = _
  unfold EStateM.bind
  rw [hrun]
  exact hloop

end Phrase

end ParseM

end ShapeCheck
