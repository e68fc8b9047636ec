import ShapeCheck.Proofs.Readable
import ShapeCheck.Proofs.SpanTree

/-!
# What parsers yield

Each parser has one lemma here, which says all that is known of a tree that it yields: tokens can be
read as the tree within the levels of nesting that are left, and the spans of the tree cover the
tokens that the parser left behind. For a parser notes where it starts and asks at the end where the
last token it left behind ends, and the parsers that it calls on its way leave parts of these tokens
behind, one after the other.
-/

namespace ShapeCheck

open SpanTree (CoverEach)

/-! ## What lies between two cursors -/

namespace Cursor

def Runs (c c' : Cursor) (ns : List SpanTree) : Prop :=
  ∃ passed, c.Passes c' passed ∧ CoverEach ns passed

structure Opens (c c' : Cursor) (ns : List SpanTree) : Prop where
  runs : c.Runs c' ns
  short : c'.tokens.length < c.tokens.length

def Covers (c c' : Cursor) (n : SpanTree) : Prop :=
  ∃ passed, c.Passes c' passed ∧ n.Covers passed

section
variable {c c₁ c₂ : Cursor} {n : SpanTree} {ns ms : List SpanTree}

theorem Runs.refl (c : Cursor) : c.Runs c [] :=
  ⟨[], .refl c, trivial⟩

theorem Leads.runs (h : c.Leads c₁) : c.Runs c₁ [] := by
  obtain ⟨passed, hpassed⟩ := h.passed
  exact ⟨passed, hpassed, trivial⟩

theorem Runs.trans (h₁ : c.Runs c₁ ns) (h₂ : c₁.Runs c₂ ms) : c.Runs c₂ (ns ++ ms) := by
  obtain ⟨first, hfirst, hns⟩ := h₁
  obtain ⟨second, hsecond, hms⟩ := h₂
  exact ⟨first ++ second, hfirst.trans hsecond, hns.append hms⟩

theorem Runs.move (h₁ : c.Runs c₁ ns) (h₂ : c₁.Leads c₂) : c.Runs c₂ ns := by
  have h := h₁.trans h₂.runs
  rwa [List.append_nil] at h

theorem Opens.trans (h₁ : c.Opens c₁ ns) (h₂ : c₁.Runs c₂ ms) : c.Opens c₂ (ns ++ ms) := by
  refine ⟨h₁.runs.trans h₂, ?_⟩
  obtain ⟨passed, hpassed, -⟩ := h₂
  have hlength := hpassed.length
  have hshort := h₁.short
  omega

theorem Opens.move (h₁ : c.Opens c₁ ns) (h₂ : c₁.Leads c₂) : c.Opens c₂ ns :=
  ⟨h₁.runs.move h₂, Nat.lt_of_le_of_lt h₂.length h₁.short⟩

theorem Passes.opens (h : c.Passes c₁ [c.current]) : c.Opens c₁ [] := by
  refine ⟨⟨_, h, trivial⟩, ?_⟩
  rw [h.length]
  simp

theorem Passes.covers (h : c.Passes c₁ [c.current]) : c.Covers c₁ (.node c.current.span []) :=
  ⟨_, h, ⟨_, rfl, _, rfl, rfl⟩, trivial⟩

theorem Covers.opens (h : c.Covers c₁ n) : c.Opens c₁ [n] := by
  obtain ⟨passed, hpassed, hn⟩ := h
  refine ⟨⟨passed, hpassed, hn.each⟩, ?_⟩
  obtain ⟨first, hfirst, -⟩ := hn.span_eq
  have hpos := List.length_pos_of_mem (List.mem_of_mem_head? hfirst)
  have hlength := hpassed.length
  omega

theorem Covers.children (h : c.Covers c₁ n) : c.Opens c₁ n.children := by
  obtain ⟨passed, hpassed, hn⟩ := h
  exact ⟨⟨passed, hpassed, hn.children⟩, (Covers.opens ⟨passed, hpassed, hn⟩).short⟩

theorem Passes.current_eq {first : Token} {later : List Token} (h : c.Passes c₁ (first :: later)) :
    c.current = first :=
  (List.cons.inj h.tokens).1

theorem Covers.start_eq (h : c.Covers c₁ n) : n.span.start = c.position := by
  obtain ⟨passed, hpassed, hn⟩ := h
  obtain ⟨first, hfirst, final, -, hspan⟩ := hn.span_eq
  obtain ⟨later, rfl⟩ := List.head?_eq_some_iff.mp hfirst
  rw [hspan, Cursor.position, hpassed.current_eq]

/-- From the start of the current token to the end of the last one. -/
theorem Opens.node (h : c.Opens c₁ ns) : c.Covers c₁ (.node (c₁.spanFrom c.position) ns) := by
  obtain ⟨⟨passed, hpassed, hns⟩, hshort⟩ := h
  have hne : passed ≠ [] := by
    rintro rfl
    have hlength := hpassed.length
    rw [List.length_nil, Nat.zero_add] at hlength
    omega
  have hfinal := List.getLast?_eq_some_getLast hne
  have hlast : c₁.last = (passed.getLast hne).span.stop := by
    rw [hpassed.last, endAfter, hfinal]
    rfl
  obtain ⟨first, later, rfl⟩ := List.exists_cons_of_ne_nil hne
  refine ⟨_, hpassed, ⟨first, rfl, _, hfinal, ?_⟩, hns⟩
  rw [Cursor.spanFrom, Cursor.position, hpassed.current_eq, hlast]

theorem Covers.enter {d : Nat} (h : ({ c with depth := d } : Cursor).Covers c₁ n) :
    c.Covers c₁ n := by
  obtain ⟨passed, hpassed, hn⟩ := h
  exact ⟨passed, ⟨hpassed.tokens, hpassed.last⟩, hn⟩

theorem Covers.leave (h : c.Covers c₁ n) : c.Covers c₁.leave n := by
  obtain ⟨passed, hpassed, hn⟩ := h
  exact ⟨passed, ⟨hpassed.tokens, hpassed.last⟩, hn⟩

end

end Cursor

namespace ParseM

variable {α : Type} {c : Cursor} {k : TokenKind} {f : α → SpanTree}

theorem advance_opens (hkind : c.kind ≠ .eof) :
    Gives advance c fun t c' => t = c.current ∧ c.Opens c' [] :=
  advance_gives.weaken fun _ _ h => ⟨h.1, (h.2 hkind).opens⟩

theorem expect_opens (hk : k ≠ .eof) :
    Gives (expect k) c fun t c' => t = c.current ∧ c.Opens c' [] :=
  (expect_gives k).weaken fun _ _ h => ⟨h.1, (h.2 hk).opens⟩

theorem expectOr_opens (message : String) (hk : k ≠ .eof) :
    Gives (expectOr k message) c fun t c' => t = c.current ∧ c.Opens c' [] :=
  (expectOr_gives k message).weaken fun _ _ h => ⟨h.1, (h.2 hk).opens⟩

theorem entryName_opens (hkind : c.kind ≠ .eof) : Gives entryName c fun _ c' => c.Opens c' [] := by
  refine (advance_opens hkind).bind fun _ c₁ hc₁ => ?_
  refine (expectOr_moves _ _).leads.bind fun _ c₂ hc₂ => ?_
  exact .pure (hc₁.2.move hc₂.1)

section
variable {P : α → Prop} {item : ParseM α}
  (h : ∀ c, Gives item c fun a c' => P a ∧ c.Runs c' [f a])
include h

theorem commaList_yields {closing : TokenKind} :
    Gives (commaList closing fun _ => item) c fun as c' =>
      (∀ a ∈ as, P a) ∧ c.Runs c' (as.map f) := by
  let I : List α → Cursor → Prop := fun earlier c' =>
    (∀ a ∈ earlier, P a) ∧ c.Runs c' (earlier.reverse.map f)
  have step : ∀ earlier c₁, I earlier c₁ → Gives item c₁ fun a c' => I (a :: earlier) c' := by
    intro earlier c₁ he
    refine (h c₁).weaken fun a c' ha => ⟨List.forall_mem_cons.mpr ⟨ha.1, he.1⟩, ?_⟩
    rw [List.reverse_cons, List.map_append]
    exact he.2.trans ha.2
  have hnil : I [] c := ⟨by simp, .refl c⟩
  refine (commaList_gives (fun hc he => ⟨he.1, he.2.move hc⟩) hnil step).weaken fun as c' has => ?_
  obtain ⟨heach, hruns⟩ := has
  rw [List.reverse_reverse] at hruns
  exact ⟨fun a ha => heach a (List.mem_reverse.mpr ha), hruns⟩

/-- The names of a record are all different. -/
theorem entries_yields :
    Gives (entries item) c fun es c' => ((es.map Prod.fst).Nodup ∧ ∀ e ∈ es, P e.2) ∧
      c.Opens c' (es.map fun e => f e.2) := by
  let I : List (String × α) → Cursor → Prop := fun earlier c' =>
    ((earlier.map Prod.fst).Nodup ∧ ∀ e ∈ earlier, P e.2) ∧
      c.Opens c' (earlier.reverse.map fun e => f e.2)
  have step : ∀ x earlier c₁, x ∉ earlier.map Prod.fst → I earlier c₁ →
      Gives item c₁ fun a c' => I ((x, a) :: earlier) c' := by
    intro x earlier c₁ hx he
    refine (h c₁).weaken fun a c' ha => ⟨⟨List.nodup_cons.mpr ⟨hx, he.1.1⟩, ?_⟩, ?_⟩
    · exact List.forall_mem_cons.mpr ⟨ha.1, he.1.2⟩
    · rw [List.reverse_cons, List.map_append]
      exact he.2.trans ha.2
  have hnil : ∀ {c'}, c.Leads c' → c'.tokens.length < c.tokens.length → I [] c' :=
    fun hleads hshort => ⟨⟨List.nodup_nil, by simp⟩, hleads.runs, hshort⟩
  refine (entries_gives (fun hc he => ⟨he.1, he.2.move hc⟩) hnil step).weaken fun es c' hes => ?_
  obtain ⟨⟨hnodup, heach⟩, hopens⟩ := hes
  rw [List.map_reverse] at hnodup
  rw [List.reverse_reverse] at hopens
  refine ⟨⟨(List.reverse_perm _).nodup_iff.mp hnodup, fun e he => ?_⟩, hopens⟩
  exact heach e (List.mem_reverse.mpr he)

theorem arguments_yields :
    Gives (arguments item) c fun as c' => (∀ a ∈ as, P a) ∧ c.Runs c' (as.map f) := by
  refine .kind ?_
  split
  · refine advance_moves.leads.bind fun _ c₁ hc₁ => ?_
    exact (commaList_yields h).weaken fun as c' has => ⟨has.1, hc₁.1.runs.trans has.2⟩
  · exact .pure ⟨by simp, .refl c⟩

theorem declaredType_yields :
    Gives (declaredType item) c fun declared c' =>
      (∀ t ∈ declared, P t) ∧ c.Runs c' (declared.toList.map f) := by
  refine .kind ?_
  split
  · refine advance_moves.leads.bind fun _ c₁ hc₁ => ?_
    refine (h c₁).bind fun a c' ha => .pure ⟨fun t ht => ?_, hc₁.1.runs.trans ha.2⟩
    cases ht
    exact ha.1
  · exact .pure ⟨by simp, .refl c⟩

end

end ParseM

open ParseM

/-! ## Types -/

namespace TypeExpr

/-- How the type `t` lies between the cursor `c` from which it was read and the cursor `c'` to which
this led. -/
structure ReadFrom (levels : Nat) (c : Cursor) (t : TypeExpr) (c' : Cursor) : Prop where
  readable : t.Readable levels
  covers : c.Covers c' t.spans
  stops : TypeFollow.of? c'.kind = none

theorem members?_readable {levels : Nat} {t : TypeExpr} {atoms : List (AtomNode TypeExpr)}
    (ht : t.Readable (levels + 1)) (h : t.members? = some atoms) :
    1 ≤ atoms.length ∧ ∀ a ∈ atoms, TypeExpr.ReadableAtom levels a := by
  cases t with
  | atom a =>
    cases h
    simpa [TypeExpr.Readable] using ht
  | union as span =>
    cases h
    obtain ⟨-, hlength, has⟩ := ht
    exact ⟨by omega, readableAtoms_iff.mp has⟩
  | _ => cases h

theorem members?_opens {c c' : Cursor} {t : TypeExpr} {atoms : List (AtomNode TypeExpr)}
    (ht : c.Covers c' t.spans) (h : t.members? = some atoms) :
    c.Opens c' (atoms.map spansAtom) := by
  cases t with
  | atom a =>
    cases h
    exact ht.opens
  | union as span =>
    cases h
    rw [← spansAtoms_eq]
    exact ht.children
  | _ => cases h

section
variable {type : ParseM TypeExpr} {levels : Nat} (h : ∀ c, Gives type c (ReadFrom levels c))
include h

theorem type_runs (c : Cursor) :
    Gives type c fun t c' => t.Readable levels ∧ c.Runs c' [t.spans] :=
  (h c).weaken fun _ _ ht => ⟨ht.readable, ht.covers.opens.runs⟩

theorem parseAtomNode_yields {c : Cursor} : Gives (parseAtomNode type) c fun a c' =>
    ReadableAtom levels a ∧ c.Covers c' (spansAtom a) := by
  refine (expectOr_opens _ (by decide)).bind fun token c₁ htoken => ?_
  refine (arguments_yields (type_runs h)).bind fun arguments c₂ harguments => ?_
  refine .spanFrom (.pure ⟨readableEach_iff.mpr harguments.1, ?_⟩)
  rw [spansAtom, spansEach_eq, htoken.1]
  exact (htoken.2.trans harguments.2).node

theorem parseFunctionParameter_yields (c : Cursor) : Gives (parseFunctionParameter type) c
    fun t c' => t.Readable levels ∧ c.Runs c' [t.spans] := by
  refine .get ?_
  dsimp only
  split
  · refine advance_moves.leads.bind fun _ c₁ hc₁ => ?_
    refine advance_moves.leads.bind fun _ c₂ hc₂ => ?_
    exact (type_runs h c₂).weaken fun t _ ht => ⟨ht.1, (hc₁.1.trans hc₂.1).runs.trans ht.2⟩
  · exact type_runs h c

/-- If a type that starts is open, nothing that follows continues it. -/
theorem parseStart_yields (rule : TypeStart) {c : Cursor} (hkind : c.kind ≠ .eof) :
    Gives (parseStart type rule) c fun t c' =>
      (t.Readable (levels + 1) ∧ c.Covers c' t.spans) ∧
        (t.Open → TypeFollow.of? c'.kind = none) := by
  cases rule with
  | symbol =>
    refine (expect_gives _).bind fun token c₁ htoken => .pure ?_
    have hnode := (htoken.2 (by decide)).covers
    rw [← htoken.1] at hnode
    split
    case isTrue => exact ⟨⟨Nat.succ_pos _, hnode⟩, False.elim⟩
    case isFalse hnumber =>
      split
      case isTrue => exact ⟨⟨Nat.succ_pos _, hnode⟩, False.elim⟩
      case isFalse hstring => exact ⟨⟨⟨Nat.succ_pos _, hnumber, hstring⟩, hnode⟩, False.elim⟩
  | tuple =>
    refine (advance_opens hkind).bind fun token c₁ htoken => ?_
    refine (commaList_yields (type_runs h)).bind fun items c₂ hitems => ?_
    refine .spanFrom (.pure ⟨⟨⟨Nat.succ_pos _, readableEach_iff.mpr hitems.1⟩, ?_⟩, False.elim⟩)
    rw [spans, spansEach_eq, htoken.1]
    exact (htoken.2.trans hitems.2).node
  | record =>
    refine .get ?_
    refine (entries_yields (type_runs h)).bind fun entries c₁ hentries => ?_
    have hreadable := readableEntries_iff.mpr hentries.1.2
    refine .spanFrom (.pure ⟨⟨⟨Nat.succ_pos _, hentries.1.1, hreadable⟩, ?_⟩, False.elim⟩)
    rw [spans, spansEntries_eq]
    exact hentries.2.node
  | function =>
    refine (advance_opens hkind).bind fun token c₁ htoken => ?_
    refine (commaList_yields (parseFunctionParameter_yields h)).bind fun ps c₂ hps => ?_
    refine (h c₂).bind fun result c₃ hresult => ?_
    have hreadable := readableEach_iff.mpr hps.1
    refine .spanFrom (.pure ⟨⟨⟨Nat.succ_pos _, hreadable, hresult.readable⟩, ?_⟩, ?_⟩)
    · rw [spans, spansEach_eq, htoken.1]
      exact (htoken.2.trans (hps.2.trans hresult.covers.opens.runs)).node
    · exact fun _ => hresult.stops
  | atom =>
    refine (parseAtomNode_yields h).bind fun a c₁ ha => ?_
    exact .pure ⟨⟨⟨Nat.succ_pos _, ha.1⟩, ha.2⟩, False.elim⟩

/-- What continues a type starts where the type started. -/
theorem parseFollow_yields {left : TypeExpr} {c₀ c : Cursor} (hleft : left.Readable (levels + 1))
    (hcovers : c₀.Covers c left.spans) (hclosed : ¬ left.Open) (rule : TypeFollow)
    (hkind : c.kind ≠ .eof) :
    Gives (parseFollow type left rule) c fun t c' =>
      ((t.Readable (levels + 1) ∧ c₀.Covers c' t.spans) ∧ ¬ t.Open) ∧
        c'.tokens.length < c.tokens.length := by
  have hstart : left.span.start = c₀.position := left.span_spans ▸ hcovers.start_eq
  cases rule with
  | union =>
    show Gives (parseUnion type left) c _
    unfold parseUnion
    cases hatoms : left.members? with
    | none => exact detailed_gives _
    | some atoms =>
      obtain ⟨hlength, hreadable⟩ := members?_readable hleft hatoms
      refine (advance_opens hkind).bind fun _ c₁ hc₁ => ?_
      refine (parseAtomNode_yields h).bind fun a c₂ ha => ?_
      have hmore := hc₁.2.trans ha.2.opens.runs
      refine .spanFrom (.pure ⟨⟨⟨⟨Nat.succ_pos _, ?_, ?_⟩, ?_⟩, id⟩, hmore.short⟩)
      · rw [List.length_append, List.length_singleton]
        omega
      · refine readableAtoms_iff.mpr fun b hb => ?_
        rcases List.mem_append.mp hb with hb | hb
        · exact hreadable b hb
        · rw [List.mem_singleton.mp hb]
          exact ha.1
      · rw [spans, spansAtoms_eq, List.map_append, hstart]
        exact ((members?_opens hcovers hatoms).trans hmore.runs).node
  | access =>
    show Gives (parseAccess left) c _
    refine (entryName_opens hkind).bind fun _ c₁ hc₁ => ?_
    refine .spanFrom (.pure ⟨⟨⟨⟨hleft, hclosed⟩, ?_⟩, id⟩, hc₁.short⟩)
    rw [spans, hstart]
    exact (hcovers.opens.trans hc₁.runs).node

theorem parseBody_yields {c : Cursor} :
    Gives (parseBody type .default) c (ReadFrom (levels + 1) c) := by
  rw [← body_phrase]
  have hbody := (phrase type).body_gives (c := c)
    (I := fun t c' => t.Readable (levels + 1) ∧ c.Covers c' t.spans) (O := Open)
    (fun rule hkind => parseStart_yields h rule hkind)
    (fun _ rule _ ht hclosed hkind => parseFollow_yields h ht.1 ht.2 hclosed rule hkind)
  exact hbody.weaken fun _ _ ht => ⟨ht.1.1, ht.1.2, ht.2⟩

end

theorem parseAt_yields : ∀ (levels : Nat) (c : Cursor),
    Gives (parseAt levels .default) c (ReadFrom levels c)
  | 0, _ => tooDeep_gives
  | levels + 1, _ => by
    refine nested_gives (fun _ _ ht => ⟨ht.readable, ht.covers.leave, ht.stops⟩) ?_
    exact (parseBody_yields (parseAt_yields levels)).weaken fun _ _ ht =>
      ⟨ht.readable, ht.covers.enter, ht.stops⟩

end TypeExpr

/-! ## Expressions -/

structure Expr.ReadFrom (levels : Nat) (c : Cursor) (e : Expr) (c' : Cursor) : Prop where
  readable : e.Readable levels
  covers : c.Covers c' e.spans
  stops : ExprFollow.of? c'.kind = none

/-- The parsers of the parts of a phrase read trees with at most `levels` levels of nesting. -/
structure Grammar.Yields (g : Grammar) (levels : Nat) : Prop where
  expr : ∀ c, ParseM.Gives g.expr c (Expr.ReadFrom levels c)
  type : ∀ c, ParseM.Gives g.type c (TypeExpr.ReadFrom levels c)
  block : ∀ c, ParseM.Gives g.block c fun s c' =>
    (s.Readable levels ∧ ∃ body span, s = .block body span) ∧ c.Covers c' s.spans

section
variable {g : Grammar} {levels : Nat} (h : g.Yields levels)
include h

namespace Expr

theorem expr_runs (c : Cursor) :
    Gives g.expr c fun e c' => e.Readable levels ∧ c.Runs c' [e.spans] :=
  (h.expr c).weaken fun _ _ he => ⟨he.readable, he.covers.opens.runs⟩

omit h in
theorem parsePrimary_yields {c : Cursor} : Gives parsePrimary c fun e c' =>
    (e.Readable (levels + 1) ∧ c.Covers c' e.spans) ∧ ¬ e.Open := by
  have leaf (hkind : c.kind ≠ .eof) (e : Expr) (hreadable : e.Readable (levels + 1))
      (hspans : e.spans = .node c.current.span []) (hclosed : ¬ e.Open) :
      Gives (do let _ ← advance; return e) c fun e c' =>
        (e.Readable (levels + 1) ∧ c.Covers c' e.spans) ∧ ¬ e.Open := by
    refine advance_gives.bind fun _ c₁ hc₁ => .pure ⟨⟨hreadable, ?_⟩, hclosed⟩
    rw [hspans]
    exact (hc₁.2 hkind).covers
  refine .get ?_
  dsimp only
  split
  case h_1 hkind =>
    split
    case h_1 => exact throw_gives _
    case h_2 value hvalue =>
      exact leaf (by rw [Cursor.kind, hkind]; decide) _ ⟨Nat.succ_pos _, _, hvalue⟩ rfl id
  case h_2 hkind => exact leaf (by rw [Cursor.kind, hkind]; decide) _ (Nat.succ_pos _) rfl id
  case h_3 hkind => exact leaf (by rw [Cursor.kind, hkind]; decide) _ (Nat.succ_pos _) rfl id
  case h_4 => exact unexpected_gives

theorem parseParameter_yields (c : Cursor) : Gives (parseParameter g) c fun p c' =>
    TypeExpr.ReadableDeclared levels p.declared ∧ c.Runs c' [p.spans] := by
  refine (expectOr_opens _ (by decide)).bind fun name c₁ hname => ?_
  refine (declaredType_yields (TypeExpr.type_runs h.type)).bind fun declared c₂ hdeclared => ?_
  refine .spanFrom (.pure ⟨hdeclared.1, ?_⟩)
  rw [hname.1]
  exact (hname.2.trans hdeclared.2).node.opens.runs

/-- A body without braces is open. -/
theorem parseFunctionBody_yields (c : Cursor) : Gives (parseFunctionBody g) c fun s c' =>
    (s.IsBody ∧ s.Readable levels) ∧ c.Covers c' s.spans ∧
      ∀ e, s = .expr e → ExprFollow.of? c'.kind = none := by
  refine .kind ?_
  split
  · refine (h.block c).weaken fun s _ hs => ?_
    obtain ⟨⟨hreadable, body, span, rfl⟩, hcovers⟩ := hs
    exact ⟨⟨trivial, hreadable⟩, hcovers, nofun⟩
  · refine (h.expr c).bind fun e c₁ he => .pure ?_
    exact ⟨⟨trivial, he.readable⟩, he.covers, fun _ _ => he.stops⟩

/-- If an expression that starts is open, nothing that follows continues it. -/
theorem parseStart_yields (rule : ExprStart) {c : Cursor} (hkind : c.kind ≠ .eof) :
    Gives (parseStart g rule) c fun e c' =>
      (e.Readable (levels + 1) ∧ c.Covers c' e.spans) ∧
        (e.Open → ExprFollow.of? c'.kind = none) := by
  cases rule with
  | primary => exact parsePrimary_yields.weaken fun e _ he => ⟨he.1, fun ho => absurd ho he.2⟩
  | tuple =>
    refine (advance_opens hkind).bind fun token c₁ htoken => ?_
    refine (commaList_yields (expr_runs h)).bind fun items c₂ hitems => ?_
    refine .spanFrom (.pure ⟨⟨⟨Nat.succ_pos _, readableEach_iff.mpr hitems.1⟩, ?_⟩, False.elim⟩)
    rw [spans, spansEach_eq, htoken.1]
    exact (htoken.2.trans hitems.2).node
  | record =>
    refine .get ?_
    refine (entries_yields (expr_runs h)).bind fun entries c₁ hentries => ?_
    have hreadable := readableEntries_iff.mpr hentries.1.2
    refine .spanFrom (.pure ⟨⟨⟨Nat.succ_pos _, hentries.1.1, hreadable⟩, ?_⟩, False.elim⟩)
    rw [spans, spansEntries_eq]
    exact hentries.2.node
  | atom =>
    refine (advance_opens hkind).bind fun token c₁ htoken => ?_
    refine (arguments_yields (expr_runs h)).bind fun arguments c₂ harguments => ?_
    have hreadable := readableEach_iff.mpr harguments.1
    refine .spanFrom (.pure ⟨⟨⟨Nat.succ_pos _, hreadable⟩, ?_⟩, False.elim⟩)
    rw [spans, spansEach_eq, htoken.1]
    exact (htoken.2.trans harguments.2).node
  | function =>
    refine (advance_opens hkind).bind fun token c₁ htoken => ?_
    refine (commaList_yields (parseParameter_yields h)).bind fun ps c₂ hps => ?_
    refine (parseFunctionBody_yields h c₂).bind fun body c₃ hbody => ?_
    refine .spanFrom (.pure ⟨⟨⟨Nat.succ_pos _, hps.1, hbody.1⟩, ?_⟩, fun hopen => ?_⟩)
    · rw [spans, htoken.1]
      exact (htoken.2.trans (hps.2.trans hbody.2.1.opens.runs)).node
    · cases body with
      | expr e => exact hbody.2.2 e rfl
      | _ => exact hopen.elim
  | importFile =>
    refine (advance_opens hkind).bind fun token c₁ htoken => ?_
    refine (expect_moves _).leads.bind fun _ c₂ hc₂ => ?_
    refine (expectOr_moves _ _).leads.bind fun _ c₃ hc₃ => ?_
    refine (expect_moves _).leads.bind fun _ c₄ hc₄ => ?_
    refine .spanFrom (.pure ⟨⟨Nat.succ_pos _, ?_⟩, False.elim⟩)
    rw [spans, htoken.1]
    exact (htoken.2.move (hc₂.1.trans (hc₃.1.trans hc₄.1))).node

theorem parseFollow_yields {left : Expr} {c₀ c : Cursor} (hleft : left.Readable (levels + 1))
    (hcovers : c₀.Covers c left.spans) (hclosed : ¬ left.Open) (rule : ExprFollow)
    (hkind : c.kind ≠ .eof) :
    Gives (parseFollow g left rule) c fun e c' =>
      ((e.Readable (levels + 1) ∧ c₀.Covers c' e.spans) ∧ ¬ e.Open) ∧
        c'.tokens.length < c.tokens.length := by
  have hstart : left.span.start = c₀.position := left.span_spans ▸ hcovers.start_eq
  cases rule with
  | call =>
    refine (advance_opens hkind).bind fun _ c₁ hc₁ => ?_
    refine (commaList_yields (expr_runs h)).bind fun arguments c₂ harguments => ?_
    have hmore := hc₁.2.trans harguments.2
    have hreadable := readableEach_iff.mpr harguments.1
    refine .spanFrom (.pure ⟨⟨⟨⟨hleft, hclosed, hreadable⟩, ?_⟩, id⟩, hmore.short⟩)
    rw [spans, spansEach_eq, hstart]
    exact (hcovers.opens.trans hmore.runs).node
  | access =>
    refine (entryName_opens hkind).bind fun _ c₁ hc₁ => ?_
    refine .spanFrom (.pure ⟨⟨⟨⟨hleft, hclosed⟩, ?_⟩, id⟩, hc₁.short⟩)
    rw [spans, hstart]
    exact (hcovers.opens.trans hc₁.runs).node

theorem parseBody_yields {c : Cursor} :
    Gives (parseBody g .default) c (ReadFrom (levels + 1) c) := by
  rw [← body_phrase]
  have hbody := (phrase g).body_gives (c := c)
    (I := fun e c' => e.Readable (levels + 1) ∧ c.Covers c' e.spans) (O := Open)
    (fun rule hkind => parseStart_yields h rule hkind)
    (fun _ rule _ he hclosed hkind => parseFollow_yields h he.1 he.2 hclosed rule hkind)
  exact hbody.weaken fun _ _ he => ⟨he.1.1, he.1.2, he.2⟩

end Expr

/-! ## Statements -/

namespace Stmt

/-- A value may be missing only where a type is declared. -/
theorem parseValue_yields (declared : Bool) {c : Cursor} :
    Gives (parseValue g declared) c fun value c' =>
      ((declared ∨ value.isSome) ∧ Expr.ReadableValue levels value) ∧
        c.Runs c' (Expr.spansValue value) := by
  refine .kind ?_
  split
  · refine advance_moves.leads.bind fun _ c₁ hc₁ => ?_
    refine (Expr.expr_runs h c₁).bind fun e c' he => .pure ⟨⟨Or.inr rfl, he.1⟩, ?_⟩
    exact hc₁.1.runs.trans he.2
  · split
    case isTrue hdeclared => exact .pure ⟨⟨Or.inl hdeclared, trivial⟩, .refl c⟩
    case isFalse => exact detailed_gives _

theorem parseAssignment_yields {c : Cursor} : Gives (parseAssignment g) c fun a c' =>
    ReadableAssignment levels a ∧ c.Covers c' (spansAssignment a) := by
  refine (expectOr_opens _ (by decide)).bind fun name c₁ hname => ?_
  refine (declaredType_yields (TypeExpr.type_runs h.type)).bind fun declared c₂ hdeclared => ?_
  refine (parseValue_yields h declared.isSome).bind fun value c₃ hvalue => ?_
  refine .spanFrom (.pure ⟨⟨hvalue.1.1, hdeclared.1, hvalue.1.2⟩, ?_⟩)
  rw [spansAssignment, hname.1]
  exact (hname.2.trans (hdeclared.2.trans hvalue.2)).node

theorem parseStart_yields (rule : StmtStart) {c : Cursor} (hkind : c.kind ≠ .eof) :
    Gives (Stmt.parseStart g rule) c fun s c' => s.Readable levels ∧ c.Covers c' s.spans := by
  cases rule with
  | identifier =>
    refine .get ?_
    split
    · exact (parseAssignment_yields h).bind fun a _ ha => .pure ha
    · exact (parseAssignment_yields h).bind fun a _ ha => .pure ha
    · exact (h.expr c).bind fun e _ he => .pure ⟨he.readable, he.covers⟩
  | exported =>
    refine (advance_opens hkind).bind fun token c₁ htoken => ?_
    refine .kind ?_
    split
    · exact (detailed_gives (Q := fun _ _ => False) _).bind fun _ _ hfalse => hfalse.elim
    · refine (parseAssignment_yields h).bind fun a c₂ ha => .spanFrom (.pure ⟨ha.1, ?_⟩)
      rw [spans, htoken.1]
      exact (htoken.2.trans ha.2.opens.runs).node
  | block => exact (h.block c).weaken fun _ _ hs => ⟨hs.1.1, hs.2⟩

theorem parseOne_yields {c : Cursor} :
    Gives (parseOne g) c fun s c' => s.Readable levels ∧ c.Opens c' [s.spans] := by
  refine .kind ?_
  have skipped (s : Stmt) (c₁ : Cursor) (hs : s.Readable levels ∧ c.Covers c₁ s.spans) :
      Gives (do skip .semicolon; return s) c₁ fun s c' =>
        s.Readable levels ∧ c.Opens c' [s.spans] :=
    (skip_moves _).leads.bind fun _ c₂ hc₂ => .pure ⟨hs.1, hs.2.opens.move hc₂.1⟩
  cases hrule : StmtStart.of? c.kind with
  | none =>
    have hexpr : Gives (Stmt.expr <$> g.expr) c fun s c' =>
        s.Readable levels ∧ c.Covers c' s.spans :=
      (h.expr c).bind fun e _ he => .pure ⟨he.readable, he.covers⟩
    exact hexpr.bind skipped
  | some rule =>
    have hkind : c.kind ≠ .eof := by
      intro heof
      rw [heof] at hrule
      cases hrule
    exact (parseStart_yields h rule hkind).bind skipped

/-- Every statement leaves a token behind, so as many steps as there are tokens lead to the closing
one. -/
theorem parseUntil_yields (closing : TokenKind) {c₀ : Cursor} :
    ∀ (n : Nat) (earlier : List Stmt) (c : Cursor), c.tokens.length ≤ n →
      (∀ s ∈ earlier, s.Readable levels) → c₀.Runs c (earlier.reverse.map spans) →
        Gives (parseUntil g closing n earlier) c fun ss c' =>
          (∀ s ∈ ss, s.Readable levels) ∧ c₀.Runs c' (ss.map spans) ∧ c'.kind = closing
  | 0, _, _, hn, _, _ => absurd hn (by simp [Cursor.tokens])
  | n + 1, earlier, c, hn, heach, hruns => by
    refine .kind ?_
    split
    case isTrue hclosing =>
      exact .pure ⟨fun s hs => heach s (List.mem_reverse.mp hs), hruns, hclosing⟩
    case isFalse =>
      refine .kind ?_
      split
      · exact (detailed_gives (Q := fun _ _ => False) _).bind fun _ _ hfalse => hfalse.elim
      · refine (parseOne_yields h).bind fun s c₁ hs => ?_
        have hshort := hs.2.short
        refine parseUntil_yields closing n (s :: earlier) c₁ (by omega)
          (List.forall_mem_cons.mpr ⟨hs.1, heach⟩) ?_
        rw [List.reverse_cons, List.map_append]
        exact hruns.trans hs.2.runs

theorem parseBlockBody_yields {c : Cursor} : Gives (parseBlockBody g) c fun s c' =>
    (s.Readable (levels + 1) ∧ ∃ body span, s = .block body span) ∧ c.Covers c' s.spans := by
  refine (expect_opens (by decide)).bind fun token c₁ htoken => .remaining ?_
  have hnil : c₁.Runs c₁ (([] : List Stmt).reverse.map spans) := .refl c₁
  refine (parseUntil_yields h .closeCurly _ [] c₁ (Nat.le_refl _) (by simp) hnil).bind
    fun body c₂ hbody => ?_
  refine (expect_moves _).leads.bind fun _ c₃ hc₃ => ?_
  have hreadable := readableEach_iff.mpr hbody.1
  refine .spanFrom (.pure ⟨⟨⟨Nat.succ_pos _, hreadable⟩, _, _, rfl⟩, ?_⟩)
  rw [spans, spansEach_eq, htoken.1]
  exact (htoken.2.trans (hbody.2.1.move hc₃.1)).node

end Stmt

end

/-! ## Programs -/

theorem Grammar.ofLevels_yields : ∀ levels : Nat, (Grammar.ofLevels levels).Yields levels
  | 0 => ⟨fun _ => tooDeep_gives, fun _ => tooDeep_gives, fun _ => tooDeep_gives⟩
  | levels + 1 => by
    have h := Grammar.ofLevels_yields levels
    refine ⟨fun c => ?_, TypeExpr.parseAt_yields (levels + 1), fun c => ?_⟩
    · refine nested_gives (fun _ _ he => ⟨he.readable, he.covers.leave, he.stops⟩) ?_
      exact (Expr.parseBody_yields h).weaken fun _ _ he => ⟨he.readable, he.covers.enter, he.stops⟩
    · refine nested_gives (fun _ _ hs => ⟨hs.1, hs.2.leave⟩) ?_
      exact (Stmt.parseBlockBody_yields h).weaken fun _ _ hs => ⟨hs.1, hs.2.enter⟩

/-- The statements of a program cover runs of its tokens, up to the first that ends it. -/
theorem Stmt.parseAll_yields {c : Cursor} : Gives Stmt.parseAll c fun ss c' =>
    (∀ s ∈ ss, s.Readable (c.limit - c.depth)) ∧ c.Runs c' (ss.map spans) ∧ c'.kind = .eof := by
  have hgrammar : Gives grammar c fun g c' => g.Yields (c.limit - c.depth) ∧ c' = c :=
    .get (.pure ⟨Grammar.ofLevels_yields _, rfl⟩)
  refine hgrammar.bind fun g c₁ hg => .remaining ?_
  obtain ⟨hg, rfl⟩ := hg
  exact Stmt.parseUntil_yields hg .eof _ [] c₁ (Nat.le_refl _) (by simp) (.refl c₁)

/-- Every statement of a program that was read is readable within the limit. -/
theorem parseTokens_readable {tokens : List Token} {file : String} {maxDepth : Nat} {tree : Stmt}
    (h : parseTokens tokens file maxDepth = .ok tree) :
    ∃ body span, tree = .block body span ∧ ∀ s ∈ body, s.Readable maxDepth := by
  have hstart : (Cursor.ofTokens tokens file maxDepth).limit -
      (Cursor.ofTokens tokens file maxDepth).depth = maxDepth := by
    cases tokens <;> rfl
  unfold parseTokens at h
  cases hparse : Stmt.parseAll (Cursor.ofTokens tokens file maxDepth) with
  | ok body c =>
    rw [hparse] at h
    cases h
    have hbody := (Stmt.parseAll_yields (Cursor.ofTokens_ends _ _ _) body c hparse).2.1
    rw [hstart] at hbody
    exact ⟨body, _, rfl, hbody⟩
  | error e c =>
    rw [hparse] at h
    cases h

end ShapeCheck
