import ShapeCheck.Proofs.Reading
import ShapeCheck.Proofs.Yields

/-!
# Reading what was printed

The tokens of a readable tree are read as that tree again, with other spans. The levels of nesting
are the induction: with parsers for the parts of a phrase that read all trees of some number of
levels, the parsers of whole phrases read all trees of one level more.
-/

namespace ShapeCheck

open Token (word mark separated entry listed)

open ParseM

/-! ## Types -/

def TypeExpr.ReadBy (limit levels : Nat) (type : ParseM TypeExpr) : Prop :=
  ∀ t next rest, TypeExpr.Readable levels t → TypeFollow.of? next.kind = none →
    Reads limit levels type (t.tokens ++ next :: rest) (next :: rest) (·.unplaced = t.unplaced)

namespace TypeExpr

/-- A type begins with a token that starts types, and after a name at its beginning it can only go
on with a dot. -/
theorem tokens_begin {levels : Nat} : ∀ t : TypeExpr, t.Readable levels →
    ∃ first more, t.tokens = first :: more ∧ (TypeStart.of? first.kind).isSome ∧
      (first.kind = .identifier → ∀ second ∈ more.head?, second.kind = .dot)
  | .name x _, _ => ⟨_, _, rfl, rfl, fun _ _ h => absurd h (Option.not_mem_none _)⟩
  | .number _, _ => ⟨_, _, rfl, rfl, fun _ _ h => absurd h (Option.not_mem_none _)⟩
  | .string _, _ => ⟨_, _, rfl, rfl, fun _ _ h => absurd h (Option.not_mem_none _)⟩
  | .tuple _ _, _ => ⟨_, _, rfl, rfl, nofun⟩
  | .record _ _, _ => ⟨_, _, rfl, rfl, nofun⟩
  | .function _ _ _, _ => ⟨_, _, rfl, rfl, nofun⟩
  | .atom ⟨_, _, _⟩, _ => ⟨_, _, rfl, rfl, nofun⟩
  | .union (⟨_, _, _⟩ :: _) _, _ => ⟨_, _, rfl, rfl, nofun⟩
  | .union [] _, h => absurd h.2.1 (by simp)
  | .access t x _, h => by
    obtain ⟨first, more, htokens, hstart, hsecond⟩ := tokens_begin t h.1
    refine ⟨first, more ++ [mark .dot, word .identifier x], ?_, hstart, ?_⟩
    · rw [tokens, htokens, List.cons_append]
    · intro hfirst second hmem
      rw [List.head?_append, List.head?_cons] at hmem
      cases hmore : more.head? with
      | none =>
        rw [hmore] at hmem
        cases hmem
        rfl
      | some second' =>
        rw [hmore] at hmem
        cases hmem
        exact hsecond hfirst _ hmore

theorem tokens_start {levels : Nat} {t : TypeExpr} {closing : TokenKind} (ht : t.Readable levels)
    (hclosing : TypeStart.of? closing = none) :
    ∃ first more, t.tokens = first :: more ∧ first.kind ≠ closing := by
  obtain ⟨first, more, htokens, hstart, -⟩ := tokens_begin t ht
  refine ⟨first, more, htokens, ?_⟩
  rintro rfl
  rw [hclosing] at hstart
  cases hstart

section
variable {limit levels : Nat} {type : ParseM TypeExpr} (h : ReadBy limit levels type)
include h

theorem parseAtomNode_reads {a : AtomNode TypeExpr} {rest : List Token}
    (ha : ReadableAtom levels a) (hrest : rest ≠ []) :
    Reads limit levels (parseAtomNode type) (tokensAtom a ++ rest) rest
      (unplacedAtom · = unplacedAtom a) := by
  obtain ⟨x, arguments, span⟩ := a
  have hmem : ∀ t ∈ arguments, t.Readable levels := readableEach_iff.mp ha
  rw [tokensAtom, tokensEach_eq_map]
  refine (expectOr_reads rfl (by simp)).bind fun token htoken => ?_
  subst htoken
  refine (arguments_reads unplaced (fun t ht => tokens_start (hmem t ht) rfl) ?_ hrest).bind
    fun arguments' harguments => ?_
  · intro t ht next rest hnext
    refine h t next rest (hmem t ht) ?_
    rcases hnext with hnext | hnext <;> rw [hnext] <;> rfl
  · refine .spanFrom fun span' => .pure ?_
    simp only [unplacedAtom, unplacedEach_eq_map, harguments]
    rfl

omit h in
/-- The name of a parameter is followed by a colon. -/
theorem not_named {first next : Token} {more rest : List Token} {c : Cursor}
    (hc : c.At limit levels (first :: more ++ next :: rest))
    (hsecond : first.kind = .identifier → ∀ second ∈ more.head?, second.kind ≠ .colon)
    (hnext : next.kind ≠ .colon) : ¬ (c.kind = .identifier ∧ c.peekKind 1 = .colon) := by
  rintro ⟨hkind, hpeek⟩
  have hfirst : first.kind = .identifier := by
    rw [← hkind]
    exact (congrArg Token.kind (List.cons.inj hc.tokens_eq).1).symm
  unfold Cursor.peekKind at hpeek
  rw [show c.current :: c.ahead = first :: more ++ next :: rest from hc.tokens_eq] at hpeek
  cases more with
  | nil => exact hnext hpeek
  | cons second more => exact hsecond hfirst second rfl hpeek

theorem parseFunctionParameter_reads {t : TypeExpr} {next : Token} {rest : List Token}
    (ht : t.Readable levels) (hnext : next.kind = .comma ∨ next.kind = .closeParen) :
    Reads limit levels (parseFunctionParameter type) (t.tokens ++ next :: rest) (next :: rest)
      (·.unplaced = t.unplaced) := by
  refine .get fun c hc => ?_
  have hfollow : TypeFollow.of? next.kind = none := by
    rcases hnext with hnext | hnext <;> rw [hnext] <;> rfl
  have hplain : ¬ (c.kind = .identifier ∧ c.peekKind 1 = .colon) := by
    obtain ⟨first, more, htokens, -, hsecond⟩ := tokens_begin t ht
    rw [htokens] at hc
    refine not_named hc (fun hfirst second hmem => ?_) ?_
    · rw [hsecond hfirst second hmem]
      decide
    · rcases hnext with hnext | hnext <;> rw [hnext] <;> decide
  dsimp only
  rw [if_neg hplain]
  exact h t next rest ht hfollow

omit h in
theorem symbol_spells {x : String} {t : TypeExpr} {rest : List Token} (hrest : rest ≠ [])
    (ht : ∀ span, (if x = "number" then number span else if x = "string" then string span
      else name x span).unplaced = t.unplaced) :
    (phrase type).Spells limit levels (word .identifier x :: rest) rest
      (·.unplaced = t.unplaced) := by
  refine .start TypeStart.symbol rfl ?_
  refine (expect_reads rfl hrest).bind fun token htoken => .pure ?_
  subst htoken
  exact ht _

theorem atom_spells {a : AtomNode TypeExpr} {rest : List Token} (ha : ReadableAtom levels a)
    (hrest : rest ≠ []) :
    (phrase type).Spells limit levels (tokensAtom a ++ rest) rest
      (·.unplaced = .atom (unplacedAtom a)) := by
  have hreads := parseAtomNode_reads h ha hrest
  obtain ⟨x, arguments, span⟩ := a
  refine .start TypeStart.atom rfl (hreads.bind fun b hb => .pure ?_)
  rw [unplaced, hb]

def ofAtoms : List (AtomNode TypeExpr) → TypeExpr
  | [a] => .atom a
  | as => .union as default

omit h in
theorem members?_of_unplaced {t : TypeExpr} {as : List (AtomNode TypeExpr)}
    (ht : t.unplaced = ofAtoms as) :
    ∃ as', t.members? = some as' ∧ as'.map unplacedAtom = as := by
  cases t with
  | atom a =>
    rcases as with - | ⟨b, - | ⟨c, more⟩⟩
    · cases ht
    · exact ⟨[a], rfl, by rw [List.map_singleton, TypeExpr.atom.inj ht]⟩
    · cases ht
  | union as' span =>
    rcases as with - | ⟨b, - | ⟨c, more⟩⟩
    · exact ⟨as', rfl, by simpa using (TypeExpr.union.inj ht).1⟩
    · cases ht
    · exact ⟨as', rfl, by simpa using (TypeExpr.union.inj ht).1⟩
  | _ => rcases as with - | ⟨b, - | ⟨c, more⟩⟩ <;> cases ht

omit h in
/-- One more atom goes on a union. -/
theorem union_spells {ts ws rest : List Token} {t : Token} {before : List (AtomNode TypeExpr)}
    {a : AtomNode TypeExpr} (hbefore : before ≠ [])
    (hspells : (phrase type).Spells limit levels ts (mark .pipe :: (ws ++ t :: rest))
      (·.unplaced = ofAtoms before))
    (hatom : Reads limit levels (parseAtomNode type) (ws ++ t :: rest) (t :: rest)
      (unplacedAtom · = a)) :
    (phrase type).Spells limit levels ts (t :: rest) (·.unplaced = ofAtoms (before ++ [a])) := by
  refine hspells.follow TypeFollow.union rfl ?_ (by simp)
  intro left hleft
  obtain ⟨atoms, hatoms, herase⟩ := members?_of_unplaced hleft
  show Reads limit levels (parseUnion type left) _ _ _
  unfold parseUnion
  rw [hatoms]
  refine (advance_reads (by simp)).bind fun _ _ => ?_
  refine hatom.bind fun b hb => ?_
  refine .spanFrom fun span => .pure ?_
  obtain ⟨first, others, rfl⟩ := List.exists_cons_of_ne_nil hbefore
  rw [unplaced, unplacedAtoms_eq_map, List.map_append, herase, List.map_singleton, hb]
  cases others <;> rfl

/-- Atoms that go on a union, after those that were read before them. -/
theorem atoms_spell {ts rest : List Token} {next : Token} :
    ∀ more before : List (AtomNode TypeExpr), before ≠ [] → (∀ a ∈ more, ReadableAtom levels a) →
      (phrase type).Spells limit levels ts
        ((more.map tokensAtom).flatMap (mark .pipe :: ·) ++ next :: rest)
        (·.unplaced = ofAtoms (before.map unplacedAtom)) →
      (phrase type).Spells limit levels ts (next :: rest)
        (·.unplaced = ofAtoms ((before ++ more).map unplacedAtom))
  | [], before, _, _, hspells => by
    rw [List.append_nil]
    exact hspells
  | a :: more, before, hbefore, hmore, hspells => by
    rw [show before ++ a :: more = (before ++ [a]) ++ more by simp]
    refine atoms_spell more (before ++ [a]) (by simp) (fun b hb => hmore b (by simp [hb])) ?_
    rw [List.map_cons, List.flatMap_cons, List.cons_append, List.cons_append, List.append_assoc]
      at hspells
    rw [List.map_append, List.map_singleton]
    cases hmarks : (more.map tokensAtom).flatMap (mark .pipe :: ·) ++ next :: rest with
    | nil => simp at hmarks
    | cons t us =>
      rw [hmarks] at hspells
      exact union_spells (by simpa using hbefore) hspells
        (parseAtomNode_reads h (hmore a (by simp)) (by simp))

/-- From its first token on, a type is read up to where it can be continued. -/
theorem spells : ∀ (t : TypeExpr) (next : Token) (rest : List Token), t.Readable (levels + 1) →
    (t.Open → TypeFollow.of? next.kind = none) →
      (phrase type).Spells limit levels (t.tokens ++ next :: rest) (next :: rest)
        (·.unplaced = t.unplaced)
  | .name x _, next, rest, ht, _ => by
    refine symbol_spells (by simp) fun span => ?_
    rw [if_neg ht.2.1, if_neg ht.2.2]
    rfl
  | .number _, next, rest, _, _ => symbol_spells (by simp) fun _ => rfl
  | .string _, next, rest, _, _ => symbol_spells (by simp) fun _ => rfl
  | .tuple items _, next, rest, ht, _ => by
    have hitems : ∀ t ∈ items, t.Readable levels := readableEach_iff.mp ht.2
    rw [tokens, tokensEach_eq_map]
    refine .start TypeStart.tuple rfl ?_
    refine (advance_reads (by simp)).bind fun _ _ => ?_
    refine (commaList_reads_each unplaced (by decide)
      (fun t ht => tokens_start (hitems t ht) rfl) ?_ (by simp)).bind fun items' hitems' => ?_
    · intro t ht next rest hnext
      refine h t next rest (hitems t ht) ?_
      rcases hnext with hnext | hnext <;> rw [hnext] <;> rfl
    · refine .spanFrom fun span => .pure ?_
      simp only [unplaced, unplacedEach_eq_map, hitems']
  | .record entries _, next, rest, ht, _ => by
    have hentries : ∀ e ∈ entries, e.2.Readable levels := readableEntries_iff.mp ht.2.2
    rw [tokens, tokensEntries_eq_map]
    refine .start TypeStart.record rfl ?_
    refine .get fun c hc => ?_
    refine (entries_reads unplaced ht.2.1 ?_ (by simp)).bind fun entries' hentries' => ?_
    · intro e he next rest hnext
      refine h e.2 next rest (hentries e he) ?_
      rcases hnext with hnext | hnext <;> rw [hnext] <;> rfl
    · refine .spanFrom fun span => .pure ?_
      simp only [unplaced, unplacedEntries_eq_map, hentries']
  | .function parameters result _, next, rest, ht, hnext => by
    have hparameters : ∀ t ∈ parameters, t.Readable levels := readableEach_iff.mp ht.2.1
    rw [tokens, tokensEach_eq_map, List.append_assoc]
    refine .start TypeStart.function rfl ?_
    refine (advance_reads (by simp)).bind fun _ _ => ?_
    refine (commaList_reads_each unplaced (by decide)
      (fun t ht => tokens_start (hparameters t ht) rfl)
      (fun t ht _ _ hnext => parseFunctionParameter_reads h (hparameters t ht) hnext)
      (by simp)).bind fun parameters' hparameters' => ?_
    refine (h result next rest ht.2.2 (hnext trivial)).bind fun result' hresult => ?_
    refine .spanFrom fun span => .pure ?_
    simp only [unplaced, unplacedEach_eq_map, hparameters', hresult]
  | .atom a, next, rest, ht, _ => atom_spells h ht.2 (by simp)
  | .union [] _, _, _, ht, _ => absurd ht.2.1 (by simp)
  | .union (a :: more) _, next, rest, ht, _ => by
    have hatoms : ∀ b ∈ a :: more, ReadableAtom levels b := readableAtoms_iff.mp ht.2.2
    have hfirst := atom_spells h (hatoms a (by simp))
      (show (more.map tokensAtom).flatMap (mark .pipe :: ·) ++ next :: rest ≠ [] by simp)
    have hall := atoms_spell h more [a] (by simp) (fun b hb => hatoms b (by simp [hb])) hfirst
    rw [tokens, tokensAtoms_eq_map, List.map_cons, separated, List.append_assoc]
    refine hall.weaken fun t' ht' => ?_
    rw [ht', unplaced, unplacedAtoms_eq_map]
    cases more with
    | nil => exact absurd ht.2.1 (by simp)
    | cons b more => rfl
  | .access t x _, next, rest, ht, _ => by
    rw [tokens, List.append_assoc]
    refine (spells t (mark .dot) (word .identifier x :: next :: rest) ht.1
      fun hopen => absurd hopen ht.2).follow TypeFollow.access rfl ?_
      (by simp)
    intro left hleft
    refine (entryName_reads (by simp)).bind fun entry hentry => ?_
    refine .spanFrom fun span => .pure ?_
    simp only [unplaced, hleft, hentry]

end

theorem parseAt_reads {limit : Nat} : ∀ levels : Nat, ReadBy limit levels (parseAt levels .default)
  | 0, t, _, _, ht, _ => absurd ht.pos (by simp)
  | levels + 1, t, next, rest, ht, hnext => by
    refine nested_reads ?_
    rw [← body_phrase]
    exact (spells (parseAt_reads levels) t next rest ht fun _ => hnext).body hnext

end TypeExpr

/-! ## Expressions -/

/-- The text of a number is read as that number, if it is a number that some text is read as. -/
def Numeral.Faithful (numeral : Binary64 → String) : Prop :=
  ∀ text value, Numeral.read? text = some value → Numeral.read? (numeral value) = some value

open Classical in
/-- A text of each number that some text is read as. -/
noncomputable def Numeral.write (value : Binary64) : String :=
  if h : ∃ text, Numeral.read? text = some value then h.choose else ""

theorem Numeral.write_faithful : Numeral.Faithful Numeral.write := by
  intro text value htext
  have hsome : ∃ text, Numeral.read? text = some value := ⟨text, htext⟩
  rw [Numeral.write, dif_pos hsome]
  exact hsome.choose_spec

structure Grammar.ReadBy (numeral : Binary64 → String) (limit levels : Nat) (g : Grammar) :
    Prop where
  expr : ∀ e next rest, Expr.Readable levels e → ExprFollow.of? next.kind = none →
    Reads limit levels g.expr (e.tokens numeral ++ next :: rest) (next :: rest)
      (·.unplaced = e.unplaced)
  type : TypeExpr.ReadBy limit levels g.type
  block : ∀ body span rest, Stmt.Readable levels (.block body span) → rest ≠ [] →
    Reads limit levels g.block ((Stmt.block body span).tokens numeral ++ rest) rest
      (·.unplaced = (Stmt.block body span).unplaced)

/-- An expression begins with a token that starts expressions, other than the brace that starts a
block, and after a name at its beginning it can only go on with a dot or a parenthesis. -/
theorem Expr.tokens_begin (numeral : Binary64 → String) : ∀ e : Expr,
    ∃ first more, e.tokens numeral = first :: more ∧ (ExprStart.of? first.kind).isSome ∧
      first.kind ≠ .openCurly ∧ (first.kind = .identifier →
        ∀ second ∈ more.head?, second.kind = .dot ∨ second.kind = .openParen)
  | .name _ _ => ⟨_, _, rfl, rfl, nofun, fun _ _ h => absurd h (Option.not_mem_none _)⟩
  | .number _ _ => ⟨_, _, rfl, rfl, nofun, nofun⟩
  | .string _ _ => ⟨_, _, rfl, rfl, nofun, nofun⟩
  | .tuple _ _ => ⟨_, _, rfl, rfl, nofun, nofun⟩
  | .record _ _ => ⟨_, _, rfl, rfl, nofun, nofun⟩
  | .function _ _ _ => ⟨_, _, rfl, rfl, nofun, nofun⟩
  | .importFile _ _ => ⟨_, _, rfl, rfl, nofun, nofun⟩
  | .atom _ _ _ => ⟨_, _, rfl, rfl, nofun, nofun⟩
  | .access e x _ => by
    obtain ⟨first, more, htokens, hstart, hcurly, hsecond⟩ := tokens_begin numeral e
    refine ⟨first, more ++ [mark .dot, word .identifier x], ?_, hstart, hcurly, ?_⟩
    · rw [tokens, htokens, List.cons_append]
    · intro hfirst second hmem
      cases more with
      | nil =>
        cases hmem
        exact Or.inl rfl
      | cons second' more =>
        cases hmem
        exact hsecond hfirst _ rfl
  | .call e arguments _ => by
    obtain ⟨first, more, htokens, hstart, hcurly, hsecond⟩ := tokens_begin numeral e
    refine ⟨first, more ++ mark .openParen :: listed .closeParen (tokensEach numeral arguments),
      ?_, hstart, hcurly, ?_⟩
    · rw [tokens, htokens, List.cons_append]
    · intro hfirst second hmem
      cases more with
      | nil =>
        cases hmem
        exact Or.inr rfl
      | cons second' more =>
        cases hmem
        exact hsecond hfirst _ rfl

theorem Expr.tokens_start (numeral : Binary64 → String) (e : Expr) {closing : TokenKind}
    (hclosing : ExprStart.of? closing = none) :
    ∃ first more, e.tokens numeral = first :: more ∧ first.kind ≠ closing := by
  obtain ⟨first, more, htokens, hstart, -⟩ := tokens_begin numeral e
  refine ⟨first, more, htokens, ?_⟩
  rintro rfl
  rw [hclosing] at hstart
  cases hstart

section
variable {numeral : Binary64 → String} {limit levels : Nat} {g : Grammar}
  (h : g.ReadBy numeral limit levels)
include h

theorem Grammar.ReadBy.declared {declared : Option TypeExpr} {next : Token} {rest : List Token}
    (hdeclared : TypeExpr.ReadableDeclared levels declared) (hcolon : next.kind ≠ .colon)
    (hnext : TypeFollow.of? next.kind = none) :
    Reads limit levels (declaredType g.type) (TypeExpr.tokensDeclared declared ++ next :: rest)
      (next :: rest) (·.map TypeExpr.unplaced = declared.map TypeExpr.unplaced) := by
  cases declared with
  | none =>
    refine .kind ?_
    rw [if_neg hcolon]
    exact .pure rfl
  | some t =>
    refine .kind ?_
    rw [if_pos (Token.kind_mark .colon)]
    refine (advance_reads (by simp)).bind fun _ _ => ?_
    refine (h.type t next rest (hdeclared t rfl) hnext).bind fun t' ht' => .pure ?_
    rw [Option.map_some, Option.map_some, ht']

namespace Expr

theorem exprs_read {es : List Expr} {closing : TokenKind} {rest : List Token}
    (hes : ReadableEach levels es) (hcomma : closing ≠ .comma)
    (hstart : ExprStart.of? closing = none) (hfollow : ExprFollow.of? closing = none)
    (hrest : rest ≠ []) :
    Reads limit levels (commaList closing fun _ => g.expr)
      (listed closing (tokensEach numeral es) ++ rest) rest
      (unplacedEach · = unplacedEach es) := by
  rw [tokensEach_eq_map]
  refine (commaList_reads_each unplaced hcomma (fun e _ => tokens_start numeral e hstart) ?_
    hrest).weaken fun es' hes' => by rw [unplacedEach_eq_map, unplacedEach_eq_map, hes']
  intro e he next rest hnext
  refine h.expr e next rest (readableEach_iff.mp hes e he) ?_
  rcases hnext with hnext | hnext <;> rw [hnext]
  · rfl
  · exact hfollow

theorem parseParameter_reads {p : Parameter} {next : Token} {rest : List Token}
    (hp : TypeExpr.ReadableDeclared levels p.declared)
    (hnext : next.kind = .comma ∨ next.kind = .closeParen) :
    Reads limit levels (parseParameter g) (p.tokens ++ next :: rest) (next :: rest)
      (·.unplaced = p.unplaced) := by
  refine (expectOr_reads rfl (by simp)).bind fun name hname => ?_
  subst hname
  refine (h.declared hp ?_ ?_).bind fun declared hdeclared => .spanFrom fun span => .pure ?_
  · rcases hnext with hnext | hnext <;> rw [hnext] <;> decide
  · rcases hnext with hnext | hnext <;> rw [hnext] <;> rfl
  · simp only [Parameter.unplaced, hdeclared]
    rfl

/-- A block can be followed by anything, an expression only by what does not continue it. -/
theorem parseFunctionBody_reads {body : Stmt} {next : Token} {rest : List Token}
    (hform : body.IsBody) (hbody : body.Readable levels)
    (hnext : ∀ e, body = .expr e → ExprFollow.of? next.kind = none) :
    Reads limit levels (parseFunctionBody g) (body.tokens numeral ++ next :: rest) (next :: rest)
      (·.unplaced = body.unplaced) := by
  cases body with
  | block body span =>
    refine .kind ?_
    rw [if_pos (Token.kind_mark .openCurly)]
    exact h.block body span _ hbody (by simp)
  | expr e =>
    obtain ⟨first, more, htokens, -, hcurly, -⟩ := tokens_begin numeral e
    have hexpr := h.expr e next rest hbody (hnext e rfl)
    rw [htokens] at hexpr
    rw [Stmt.tokens, htokens]
    refine .kind ?_
    rw [if_neg hcurly]
    exact hexpr.bind fun e' he' => .pure (by rw [Stmt.unplaced, Stmt.unplaced, he'])
  | _ => exact hform.elim

/-- From its first token on, an expression is read up to where it can be continued. -/
theorem spells (hnumeral : Numeral.Faithful numeral) :
    ∀ (e : Expr) (next : Token) (rest : List Token), e.Readable (levels + 1) →
      (e.Open → ExprFollow.of? next.kind = none) →
        (phrase g).Spells limit levels (e.tokens numeral ++ next :: rest) (next :: rest)
          (·.unplaced = e.unplaced)
  | .name x _, next, rest, _, _ => by
    refine .start ExprStart.primary rfl ?_
    refine .get fun c hc => ?_
    have hcurrent : c.current = word .identifier x := (List.cons.inj hc.tokens_eq).1
    dsimp only
    rw [hcurrent]
    exact (advance_reads (by simp)).bind fun _ _ => .pure rfl
  | .number value _, next, rest, he, _ => by
    obtain ⟨-, text, htext⟩ := he
    refine .start ExprStart.primary rfl ?_
    refine .get fun c hc => ?_
    have hcurrent : c.current = word .number (numeral value) := (List.cons.inj hc.tokens_eq).1
    dsimp only
    rw [hcurrent]
    dsimp only [word]
    rw [hnumeral text value htext]
    exact (advance_reads (by simp)).bind fun _ _ => .pure rfl
  | .string x _, next, rest, _, _ => by
    refine .start ExprStart.primary rfl ?_
    refine .get fun c hc => ?_
    have hcurrent : c.current = word .string x := (List.cons.inj hc.tokens_eq).1
    dsimp only
    rw [hcurrent]
    exact (advance_reads (by simp)).bind fun _ _ => .pure rfl
  | .tuple items _, next, rest, he, _ => by
    refine .start ExprStart.tuple rfl ?_
    refine (advance_reads (by simp)).bind fun _ _ => ?_
    refine (exprs_read h he.2 (by decide) rfl rfl (by simp)).bind fun items' hitems => ?_
    refine .spanFrom fun span => .pure ?_
    rw [unplaced, unplaced, hitems]
  | .record entries _, next, rest, he, _ => by
    have hentries : ∀ e ∈ entries, e.2.Readable levels := readableEntries_iff.mp he.2.2
    rw [tokens, tokensEntries_eq_map]
    refine .start ExprStart.record rfl ?_
    refine .get fun c hc => ?_
    refine (entries_reads unplaced he.2.1 ?_ (by simp)).bind fun entries' hentries' => ?_
    · intro e he next rest hnext
      refine h.expr e.2 next rest (hentries e he) ?_
      rcases hnext with hnext | hnext <;> rw [hnext] <;> rfl
    · refine .spanFrom fun span => .pure ?_
      simp only [unplaced, unplacedEntries_eq_map, hentries']
  | .function parameters body _, next, rest, he, hnext => by
    obtain ⟨-, hparameters, hform, hbody⟩ := he
    rw [tokens, List.append_assoc]
    refine .start ExprStart.function rfl ?_
    refine (advance_reads (by simp)).bind fun _ _ => ?_
    refine (commaList_reads_each Parameter.unplaced (by decide)
      (fun p _ => ⟨_, _, rfl, by simp⟩)
      (fun p hp _ _ hnext => parseParameter_reads h (hparameters p hp) hnext)
      (by simp)).bind fun parameters' hparameters' => ?_
    refine (parseFunctionBody_reads h hform hbody ?_).bind fun body' hbody' => ?_
    · exact fun e he => hnext (by rw [he]; trivial)
    · refine .spanFrom fun span => .pure ?_
      rw [unplaced, unplaced, hparameters', hbody']
  | .importFile path _, next, rest, _, _ => by
    refine .start ExprStart.importFile rfl ?_
    refine (advance_reads (by simp)).bind fun _ _ => ?_
    refine (expect_reads rfl (by simp)).bind fun _ _ => ?_
    refine (expectOr_reads rfl (by simp)).bind fun path' hpath => ?_
    subst hpath
    refine (expect_reads rfl (by simp)).bind fun _ _ => ?_
    exact .spanFrom fun span => .pure rfl
  | .atom x arguments _, next, rest, he, _ => by
    refine .start ExprStart.atom rfl ?_
    refine (advance_reads (by simp)).bind fun token htoken => ?_
    subst htoken
    have harguments : Reads limit levels (ParseM.arguments g.expr)
        (mark .openParen :: (listed .closeParen (tokensEach numeral arguments) ++ next :: rest))
        (next :: rest) (unplacedEach · = unplacedEach arguments) := by
      refine .kind ?_
      rw [if_pos (Token.kind_mark .openParen)]
      refine (advance_reads (by simp [listed])).bind fun _ _ => ?_
      exact exprs_read h he.2 (by decide) rfl rfl (by simp)
    refine harguments.bind fun arguments' harguments' => .spanFrom fun span => .pure ?_
    rw [unplaced, unplaced, harguments']
    rfl
  | .access e x _, next, rest, he, _ => by
    rw [tokens, List.append_assoc]
    refine (spells hnumeral e (mark .dot) (word .identifier x :: next :: rest) he.1
      fun hopen => absurd hopen he.2).follow ExprFollow.access rfl ?_ (by simp)
    intro left hleft
    refine (entryName_reads (by simp)).bind fun entry hentry => ?_
    refine .spanFrom fun span => .pure ?_
    rw [unplaced, unplaced, hleft, hentry]
  | .call e arguments _, next, rest, he, _ => by
    rw [tokens, List.append_assoc]
    refine (spells hnumeral e (mark .openParen)
      (listed .closeParen (tokensEach numeral arguments) ++ next :: rest) he.1
      fun hopen => absurd hopen he.2.1).follow ExprFollow.call rfl ?_ (by simp)
    intro left hleft
    refine (advance_reads (by simp)).bind fun _ _ => ?_
    refine (exprs_read h he.2.2 (by decide) rfl rfl (by simp)).bind fun arguments' harguments => ?_
    refine .spanFrom fun span => .pure ?_
    rw [unplaced, unplaced, hleft, harguments]

end Expr

/-! ## Statements -/

omit h in
theorem StmtStart.of?_eq_none {k : TokenKind} (hstart : (ExprStart.of? k).isSome)
    (hcurly : k ≠ .openCurly) (hname : k ≠ .identifier) : StmtStart.of? k = none := by
  cases k <;> simp_all [StmtStart.of?, ExprStart.of?]

namespace Stmt

/-- Every statement is printed with a semicolon after it, which continues nothing. -/
theorem parseAssignment_reads {a : Assignment Expr} (ha : ReadableAssignment levels a)
    (rest : List Token) :
    Reads limit levels (parseAssignment g)
      (tokensAssignment numeral a ++ mark .semicolon :: rest) (mark .semicolon :: rest)
      (unplacedAssignment · = unplacedAssignment a) := by
  obtain ⟨x, declared, value, span⟩ := a
  obtain ⟨hsome, hdeclared, hvalue⟩ := ha
  rw [tokensAssignment, List.append_assoc]
  refine (expectOr_reads rfl (by simp)).bind fun name hname => ?_
  subst hname
  cases value with
  | none =>
    refine (h.declared hdeclared (by decide) rfl).bind fun declared' hdeclared' => ?_
    have hdeclared'' : declared'.isSome := by
      have heq := congrArg Option.isSome hdeclared'
      rw [Option.isSome_map, Option.isSome_map] at heq
      rw [heq]
      simpa using hsome
    have hmissing : Reads limit levels (parseValue g declared'.isSome) (mark .semicolon :: rest)
        (mark .semicolon :: rest) (· = none) := by
      refine .kind ?_
      rw [if_neg (by decide), if_pos hdeclared'']
      exact .pure rfl
    refine hmissing.bind fun value' hvalue' => .spanFrom fun span' => .pure ?_
    simp only [unplacedAssignment, hdeclared', hvalue']
    rfl
  | some e =>
    refine (h.declared hdeclared (by decide) rfl).bind fun declared' hdeclared' => ?_
    have hgiven : Reads limit levels (parseValue g declared'.isSome)
        (mark .assignment :: (e.tokens numeral ++ mark .semicolon :: rest))
        (mark .semicolon :: rest) (·.map Expr.unplaced = some e.unplaced) := by
      refine .kind ?_
      rw [if_pos (Token.kind_mark .assignment)]
      refine (advance_reads (by simp)).bind fun _ _ => ?_
      refine (h.expr e _ rest hvalue rfl).bind fun e' he' => .pure ?_
      rw [Option.map_some, he']
    refine hgiven.bind fun value' hvalue' => .spanFrom fun span' => .pure ?_
    simp only [unplacedAssignment, Expr.unplacedValue_eq_map, hdeclared', hvalue']
    rfl

omit h in
/-- After the name in an assignment stands a colon or an equals sign. -/
theorem peek_assignment {a : Assignment Expr} (ha : ReadableAssignment levels a)
    {rest : List Token} {c : Cursor}
    (hc : c.At limit levels (tokensAssignment numeral a ++ rest)) :
    c.peekKind 1 = .colon ∨ c.peekKind 1 = .assignment := by
  obtain ⟨x, declared, value, span⟩ := a
  unfold Cursor.peekKind
  rw [show c.current :: c.ahead = _ from hc.tokens_eq]
  cases declared with
  | some t => exact Or.inl rfl
  | none =>
    cases value with
    | some e => exact Or.inr rfl
    | none => exact absurd ha.1 (by simp)

omit h in
/-- A name that starts an expression is followed by neither of them. -/
theorem peek_expr {e : Expr} {rest : List Token} {c : Cursor}
    (hc : c.At limit levels (e.tokens numeral ++ mark .semicolon :: rest))
    (hkind : c.kind = .identifier) : c.peekKind 1 ≠ .colon ∧ c.peekKind 1 ≠ .assignment := by
  obtain ⟨first, more, htokens, -, -, hsecond⟩ := Expr.tokens_begin numeral e
  have hc' := hc
  rw [htokens, List.cons_append] at hc'
  have hfirst : first.kind = .identifier := by rw [← hc'.kind, hkind]
  have hpeek : c.peekKind 1 = .dot ∨ c.peekKind 1 = .openParen ∨ c.peekKind 1 = .semicolon := by
    unfold Cursor.peekKind
    rw [show c.current :: c.ahead = _ from hc'.tokens_eq]
    cases more with
    | nil => exact Or.inr (Or.inr rfl)
    | cons second more =>
      rcases hsecond hfirst second rfl with hdot | hparen
      · exact Or.inl hdot
      · exact Or.inr (Or.inl hparen)
  rcases hpeek with hpeek | hpeek | hpeek <;> rw [hpeek] <;> decide

theorem parseIdentifier_reads_assign {a : Assignment Expr} (ha : ReadableAssignment levels a)
    (rest : List Token) :
    Reads limit levels (parseIdentifier g)
      (tokensAssignment numeral a ++ mark .semicolon :: rest) (mark .semicolon :: rest)
      (·.unplaced = (Stmt.assign a).unplaced) := by
  have hassign : Reads limit levels (do return Stmt.assign (← parseAssignment g))
      (tokensAssignment numeral a ++ mark .semicolon :: rest) (mark .semicolon :: rest)
      (·.unplaced = (Stmt.assign a).unplaced) :=
    (parseAssignment_reads h ha rest).bind fun a' ha' => .pure (by rw [unplaced, unplaced, ha'])
  refine .get fun c hc => ?_
  rcases peek_assignment ha hc with hpeek | hpeek
  · rw [hpeek]
    exact hassign
  · rw [hpeek]
    exact hassign

theorem exprStmt_reads {e : Expr} (he : e.Readable levels) (rest : List Token) :
    Reads limit levels (do return Stmt.expr (← g.expr))
      (e.tokens numeral ++ mark .semicolon :: rest) (mark .semicolon :: rest)
      (·.unplaced = (Stmt.expr e).unplaced) :=
  (h.expr e _ rest he rfl).bind fun e' he' => .pure (by rw [unplaced, unplaced, he'])

theorem parseIdentifier_reads_expr {e : Expr} {first : Token} {more : List Token}
    (he : e.Readable levels) (htokens : e.tokens numeral = first :: more)
    (hfirst : first.kind = .identifier) (rest : List Token) :
    Reads limit levels (parseIdentifier g)
      (e.tokens numeral ++ mark .semicolon :: rest) (mark .semicolon :: rest)
      (·.unplaced = (Stmt.expr e).unplaced) := by
  refine .get fun c hc => ?_
  have hkind : c.kind = .identifier := by
    rw [htokens] at hc
    rw [hc.kind, hfirst]
  obtain ⟨hcolon, hassignment⟩ := peek_expr hc hkind
  split
  · exact absurd ‹_› hcolon
  · exact absurd ‹_› hassignment
  · exact exprStmt_reads h he rest

theorem parseExport_reads {a : Assignment Expr} {span : Span} (ha : ReadableAssignment levels a)
    (rest : List Token) :
    Reads limit levels (parseExport g)
      (mark .exportWord :: (tokensAssignment numeral a ++ mark .semicolon :: rest))
      (mark .semicolon :: rest) (·.unplaced = (Stmt.exported a span).unplaced) := by
  refine (advance_reads (by simp)).bind fun _ _ => ?_
  have hassign := parseAssignment_reads h ha rest
  obtain ⟨x, declared, value, span'⟩ := a
  refine .kind ?_
  rw [if_neg (by simp)]
  refine hassign.bind fun a' ha' => .spanFrom fun span' => .pure ?_
  rw [unplaced, unplaced, ha']

/-- A statement is read from its tokens, and the semicolon after it is left behind. -/
theorem parseOne_reads {s : Stmt} {rest : List Token} (hs : s.Readable levels) (hrest : rest ≠ []) :
    Reads limit levels (parseOne g) (s.tokens numeral ++ mark .semicolon :: rest) rest
      (·.unplaced = s.unplaced) := by
  have finish : ∀ {p : ParseM Stmt} {ts : List Token},
      Reads limit levels p ts (mark .semicolon :: rest) (·.unplaced = s.unplaced) →
      Reads limit levels (do let stmt ← p; skip .semicolon; return stmt) ts rest
        (·.unplaced = s.unplaced) := by
    intro p ts hp
    refine hp.bind fun s' hs' => ?_
    exact (skip_reads rfl hrest).bind fun _ _ => .pure hs'
  cases s with
  | block body span => exact .kind (finish (h.block body span _ hs (by simp)))
  | assign a =>
    have hassign := parseIdentifier_reads_assign h hs rest
    obtain ⟨x, declared, value, span⟩ := a
    exact .kind (finish hassign)
  | exported a span => exact .kind (finish (parseExport_reads h hs rest))
  | expr e =>
    obtain ⟨first, more, htokens, hstart, hcurly, -⟩ := Expr.tokens_begin numeral e
    have hexpr := finish (exprStmt_reads h hs rest)
    have hname := fun hfirst => finish (parseIdentifier_reads_expr h hs htokens hfirst rest)
    rw [htokens] at hexpr hname
    rw [tokens, htokens]
    refine .kind ?_
    by_cases hfirst : first.kind = .identifier
    · rw [hfirst]
      exact hname hfirst
    · rw [StmtStart.of?_eq_none hstart hcurly hfirst]
      exact hexpr
  | type t => exact hs.elim

omit h in
/-- No statement begins like the end of a block or of a file. -/
theorem tokens_begin (numeral : Binary64 → String) {s : Stmt} (hs : s.Readable levels) :
    ∃ first more, s.tokens numeral = first :: more ∧ first.kind ≠ .closeCurly ∧
      first.kind ≠ .eof := by
  cases s with
  | block body span => exact ⟨_, _, rfl, nofun, nofun⟩
  | assign a =>
    obtain ⟨x, declared, value, span⟩ := a
    exact ⟨_, _, rfl, nofun, nofun⟩
  | exported a span => exact ⟨_, _, rfl, nofun, nofun⟩
  | expr e =>
    obtain ⟨first, more, htokens, hstart, -⟩ := Expr.tokens_begin numeral e
    refine ⟨first, more, htokens, ?_, ?_⟩ <;> intro hkind <;> rw [hkind] at hstart <;> cases hstart
  | type t => exact hs.elim

theorem parseUntil_reads {closing : Token} {rest : List Token}
    (hclosing : closing.kind = .closeCurly ∨ closing.kind = .eof) :
    ∀ (ss earlier : List Stmt) (n : Nat), (∀ s ∈ ss, s.Readable levels) → ss.length ≤ n →
      Reads limit levels (parseUntil g closing.kind n earlier)
        (tokensEach numeral ss ++ closing :: rest) (closing :: rest)
        (·.map unplaced = (earlier.reverse ++ ss).map unplaced)
  | [], earlier, n, _, _ => by
    have hdone : earlier.reverse.map unplaced = (earlier.reverse ++ []).map unplaced := by
      rw [List.append_nil]
    cases n with
    | zero => exact .pure hdone
    | succ n =>
      refine .kind ?_
      rw [if_pos rfl]
      exact .pure hdone
  | s :: ss, earlier, n + 1, hss, hn => by
    obtain ⟨first, more, htokens, hcurly, heof⟩ := tokens_begin numeral (hss s (by simp))
    have hone := parseOne_reads h (hss s (by simp))
      (show tokensEach numeral ss ++ closing :: rest ≠ [] by simp)
    rw [tokensEach, List.append_assoc, List.cons_append]
    rw [htokens] at hone ⊢
    refine .kind ?_
    have hgo : first.kind ≠ closing.kind := by
      rcases hclosing with hclosing | hclosing <;> rw [hclosing] <;> assumption
    rw [if_neg hgo]
    refine .kind ?_
    rw [if_neg heof]
    refine hone.bind fun s' hs' => ?_
    refine (parseUntil_reads hclosing ss (s' :: earlier) n (fun s hs => hss s (by simp [hs]))
      (by simpa using hn)).weaken fun bs hbs => ?_
    simp [hbs, hs']

omit h in
theorem length_le_tokensEach (numeral : Binary64 → String) (ss : List Stmt) :
    ss.length ≤ (tokensEach numeral ss).length := by
  induction ss with
  | nil => exact Nat.zero_le _
  | cons s ss ih =>
    simp only [tokensEach, List.length_append, List.length_cons]
    omega

theorem parseBlockBody_reads {body : List Stmt} {span : Span} {rest : List Token}
    (hbody : ReadableEach levels body) (hrest : rest ≠ []) :
    Reads limit levels (parseBlockBody g) ((Stmt.block body span).tokens numeral ++ rest) rest
      (·.unplaced = (Stmt.block body span).unplaced) := by
  rw [tokens, List.append_assoc, List.cons_append]
  refine (expect_reads rfl (by simp)).bind fun _ _ => ?_
  refine .remaining ?_
  have hlength :
      body.length ≤ (tokensEach numeral body ++ ([mark .closeCurly] ++ rest)).length := by
    have hle := length_le_tokensEach numeral body
    rw [List.length_append]
    omega
  refine (parseUntil_reads h (Or.inl (Token.kind_mark .closeCurly)) body [] _
    (readableEach_iff.mp hbody) hlength).bind fun body' hbody' => ?_
  refine (expect_reads rfl hrest).bind fun _ _ => .spanFrom fun span' => .pure ?_
  rw [unplaced, unplaced, unplacedEach_eq_map, unplacedEach_eq_map, hbody']
  rfl

end Stmt

end

/-! ## Programs -/

theorem Grammar.ofLevels_reads {numeral : Binary64 → String} (hnumeral : Numeral.Faithful numeral)
    (limit : Nat) : ∀ levels : Nat, (Grammar.ofLevels levels).ReadBy numeral limit levels
  | 0 => by
    refine ⟨fun e _ _ he _ => absurd he.pos (by simp), TypeExpr.parseAt_reads 0, ?_⟩
    exact fun body span rest hbody _ => absurd hbody.1 (by simp)
  | levels + 1 => by
    have h := Grammar.ofLevels_reads hnumeral limit levels
    refine ⟨fun e next rest he hnext => ?_, TypeExpr.parseAt_reads (levels + 1), ?_⟩
    · refine nested_reads ?_
      show Reads limit levels (Expr.parseBody (Grammar.ofLevels levels) .default) _ _ _
      rw [← Expr.body_phrase]
      exact (Expr.spells h hnumeral e next rest he fun _ => hnext).body hnext
    · exact fun body span rest hbody hrest =>
        nested_reads (Stmt.parseBlockBody_reads h hbody.2 hrest)

/-- A list that does not end in `eof` is followed by one. -/
theorem Cursor.ofTokens_at {ts : List Token} (file : String) (limit : Nat)
    (h : ∀ t ∈ ts.getLast?, t.kind ≠ .eof) : ∃ closing : Token, closing.kind = .eof ∧
      (Cursor.ofTokens ts file limit).At limit limit (ts ++ [closing]) := by
  cases ts with
  | nil => exact ⟨.eof (.at 0 file), rfl, rfl, Nat.zero_add _, rfl⟩
  | cons t ts =>
    have hlast : ((t :: ts).getLast (by simp)).kind ≠ .eof :=
      h _ (List.getLast?_eq_some_getLast (by simp))
    refine ⟨.eof ((t :: ts).getLast (by simp)).span.stop, rfl, rfl, Nat.zero_add _, ?_⟩
    unfold Cursor.ofTokens Cursor.tokens
    dsimp only
    rw [if_neg hlast]
    rfl

theorem Stmt.getLast?_tokensEach (numeral : Binary64 → String) (ss : List Stmt) :
    ∀ t ∈ (Stmt.tokensEach numeral ss).getLast?, t.kind ≠ .eof := by
  induction ss with
  | nil => exact fun _ h => absurd h (Option.not_mem_none _)
  | cons s ss ih =>
    intro t ht
    rw [Stmt.tokensEach, List.getLast?_append, List.getLast?_cons] at ht
    cases hlast : (Stmt.tokensEach numeral ss).getLast? with
    | none =>
      rw [hlast] at ht
      cases ht
      decide
    | some last =>
      rw [hlast] at ht
      cases ht
      exact ih last hlast

/-- At the start of a file all levels of nesting are left. -/
theorem grammar_reads {limit : Nat} (ts : List Token) :
    Reads limit limit grammar ts ts (· = Grammar.ofLevels limit) := by
  refine .get fun c hc => .pure ?_
  have hlimit := hc.limit_eq
  have hdepth := hc.depth_add
  rw [show c.limit - c.depth = limit by omega]

/-- **Round trip.** A program that was read from any tokens is printed as tokens that are read as
the same program, within the same limit and up to the places of its parts. -/
theorem parseTokens_print {numeral : Binary64 → String} (hnumeral : Numeral.Faithful numeral)
    {tokens : List Token} {file : String} {maxDepth : Nat} {tree : Stmt}
    (h : parseTokens tokens file maxDepth = .ok tree) (file' : String) :
    ∃ tree', parseTokens (tree.print numeral) file' maxDepth = .ok tree' ∧
      tree'.unplaced = tree.unplaced := by
  obtain ⟨body, span, rfl, hbody⟩ := parseTokens_readable h
  obtain ⟨closing, hclosing, hat⟩ :=
    Cursor.ofTokens_at file' maxDepth (Stmt.getLast?_tokensEach numeral body)
  have hall : Reads maxDepth maxDepth Stmt.parseAll (Stmt.tokensEach numeral body ++ [closing])
      [closing] (·.map Stmt.unplaced = body.map Stmt.unplaced) := by
    refine (grammar_reads _).bind fun g hg => .remaining ?_
    subst hg
    have hlength : body.length ≤ (Stmt.tokensEach numeral body ++ [closing]).length := by
      have hle := Stmt.length_le_tokensEach numeral body
      rw [List.length_append]
      omega
    rw [← hclosing]
    exact Stmt.parseUntil_reads (Grammar.ofLevels_reads hnumeral maxDepth maxDepth)
      (Or.inr hclosing) body [] _ hbody hlength
  obtain ⟨body', c, hrun, -, hbody'⟩ := hall _ hat
  refine ⟨.block body' ⟨.at 0 file', c.position⟩, ?_, ?_⟩
  · unfold parseTokens Stmt.print
    dsimp only
    rw [hrun]
  · rw [Stmt.unplaced, Stmt.unplaced, Stmt.unplacedEach_eq_map, Stmt.unplacedEach_eq_map, hbody']

def manyOpeners : List Token :=
  let declared := "export f: (n: @a | @b, string) [\x7bk: t.u\x7d]"
  let value := " = (x, y: string,) \x7by: x\x7d.y(x)(@c)"
  let block := "\x7b () \x7b import(\"g\") \x7d([x.y,]); (z) z %\x7b\x7d \x7d"
  match tokenize (declared ++ value ++ block) none with
  | .ok tokens => tokens
  | .error _ => []

theorem manyOpeners_read_back :
    Numeral.Faithful Numeral.write ∧ ∃ tree, parseTokens manyOpeners "main" 6 = .ok tree ∧
      ∃ tree', parseTokens (tree.print Numeral.write) "copy" 6 = .ok tree' ∧
        tree'.unplaced = tree.unplaced := by
  refine ⟨Numeral.write_faithful, ?_⟩
  have hok : (parseTokens manyOpeners "main" 6).isOk = true := by decide +kernel
  cases h : parseTokens manyOpeners "main" 6 with
  | ok tree => exact ⟨tree, rfl, parseTokens_print Numeral.write_faithful h "copy"⟩
  | error e =>
    rw [h] at hok
    cases hok

end ShapeCheck
