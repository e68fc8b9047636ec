import ShapeCheck.Parse.Program

/-!
# The trees that tokens can be read as

No parentheses group an expression or a type. So the body of a function without braces, and the
result of a function type, take over every call, access or union that follows, and no such function
is ever called, accessed or joined on the spot. `Readable levels` describes the trees that are left.

What parsing stops at matters as much as what it yields: after an expression the cursor never stands
at a token that could continue it. That rests on the loops having enough steps, since each step
leaves a token behind and the last token, the end of the file, continues nothing.
-/

namespace ShapeCheck

/-! ## Readable trees -/

/-- The type ends in another one, which takes over what follows. -/
def TypeExpr.Open : TypeExpr → Prop
  | .function _ _ _ => True
  | _ => False

mutual
/-- Tokens can be read as the type within `levels` levels of nesting. -/
def TypeExpr.Readable : Nat → TypeExpr → Prop
  | levels, .name x _ => 0 < levels ∧ x ≠ "number" ∧ x ≠ "string"
  | levels, .number _ => 0 < levels
  | levels, .string _ => 0 < levels
  | levels, .tuple items _ => 0 < levels ∧ TypeExpr.ReadableEach (levels - 1) items
  | levels, .record entries _ =>
    0 < levels ∧ (entries.map Prod.fst).Nodup ∧ TypeExpr.ReadableEntries (levels - 1) entries
  | levels, .access t _ _ => TypeExpr.Readable levels t ∧ ¬ t.Open
  | levels, .function parameters result _ =>
    0 < levels ∧ TypeExpr.ReadableEach (levels - 1) parameters ∧
      TypeExpr.Readable (levels - 1) result
  | levels, .atom a => 0 < levels ∧ TypeExpr.ReadableAtom (levels - 1) a
  | levels, .union atoms _ =>
    0 < levels ∧ 2 ≤ atoms.length ∧ TypeExpr.ReadableAtoms (levels - 1) atoms
termination_by structural _ t => t
def TypeExpr.ReadableEach : Nat → List TypeExpr → Prop
  | _, [] => True
  | levels, t :: ts => TypeExpr.Readable levels t ∧ TypeExpr.ReadableEach levels ts
termination_by structural _ ts => ts
def TypeExpr.ReadableEntries : Nat → List (String × TypeExpr) → Prop
  | _, [] => True
  | levels, (_, t) :: es => TypeExpr.Readable levels t ∧ TypeExpr.ReadableEntries levels es
termination_by structural _ es => es
def TypeExpr.ReadableAtom : Nat → AtomNode TypeExpr → Prop
  | levels, ⟨_, arguments, _⟩ => TypeExpr.ReadableEach levels arguments
termination_by structural _ a => a
def TypeExpr.ReadableAtoms : Nat → List (AtomNode TypeExpr) → Prop
  | _, [] => True
  | levels, a :: as => TypeExpr.ReadableAtom levels a ∧ TypeExpr.ReadableAtoms levels as
termination_by structural _ as => as
end

def TypeExpr.ReadableDeclared (levels : Nat) (declared : Option TypeExpr) : Prop :=
  ∀ t ∈ declared, TypeExpr.Readable levels t

def Expr.Open : Expr → Prop
  | .function _ (.expr _) _ => True
  | _ => False

def Stmt.IsBody : Stmt → Prop
  | .block _ _ => True
  | .expr _ => True
  | _ => False

mutual
def Expr.Readable : Nat → Expr → Prop
  | levels, .name _ _ => 0 < levels
  | levels, .number value _ => 0 < levels ∧ ∃ text, Numeral.read? text = some value
  | levels, .string _ _ => 0 < levels
  | levels, .tuple items _ => 0 < levels ∧ Expr.ReadableEach (levels - 1) items
  | levels, .record entries _ =>
    0 < levels ∧ (entries.map Prod.fst).Nodup ∧ Expr.ReadableEntries (levels - 1) entries
  | levels, .access e _ _ => Expr.Readable levels e ∧ ¬ e.Open
  | levels, .function parameters body _ =>
    0 < levels ∧ (∀ p ∈ parameters, TypeExpr.ReadableDeclared (levels - 1) p.declared) ∧
      body.IsBody ∧ Stmt.Readable (levels - 1) body
  | levels, .call callee arguments _ =>
    Expr.Readable levels callee ∧ ¬ callee.Open ∧ Expr.ReadableEach (levels - 1) arguments
  | levels, .importFile _ _ => 0 < levels
  | levels, .atom _ arguments _ => 0 < levels ∧ Expr.ReadableEach (levels - 1) arguments
termination_by structural _ e => e
def Expr.ReadableEach : Nat → List Expr → Prop
  | _, [] => True
  | levels, e :: es => Expr.Readable levels e ∧ Expr.ReadableEach levels es
termination_by structural _ es => es
def Expr.ReadableEntries : Nat → List (String × Expr) → Prop
  | _, [] => True
  | levels, (_, e) :: es => Expr.Readable levels e ∧ Expr.ReadableEntries levels es
termination_by structural _ es => es
def Expr.ReadableValue : Nat → Option Expr → Prop
  | _, none => True
  | levels, some e => Expr.Readable levels e
termination_by structural _ e => e
def Stmt.ReadableAssignment : Nat → Assignment Expr → Prop
  | levels, ⟨_, declared, value, _⟩ =>
    (declared.isSome ∨ value.isSome) ∧ TypeExpr.ReadableDeclared levels declared ∧
      Expr.ReadableValue levels value
termination_by structural _ a => a
def Stmt.Readable : Nat → Stmt → Prop
  | levels, .block body _ => 0 < levels ∧ Stmt.ReadableEach (levels - 1) body
  | levels, .assign a => Stmt.ReadableAssignment levels a
  | levels, .exported a _ => Stmt.ReadableAssignment levels a
  | levels, .expr e => Expr.Readable levels e
  | _, .type _ => False
termination_by structural _ s => s
def Stmt.ReadableEach : Nat → List Stmt → Prop
  | _, [] => True
  | levels, s :: ss => Stmt.Readable levels s ∧ Stmt.ReadableEach levels ss
termination_by structural _ ss => ss
end

theorem TypeExpr.readableEach_iff {levels : Nat} {ts : List TypeExpr} :
    TypeExpr.ReadableEach levels ts ↔ ∀ t ∈ ts, TypeExpr.Readable levels t := by
  induction ts with
  | nil => simp [TypeExpr.ReadableEach]
  | cons t ts ih => simp [TypeExpr.ReadableEach, ih]

theorem TypeExpr.readableEntries_iff {levels : Nat} {es : List (String × TypeExpr)} :
    TypeExpr.ReadableEntries levels es ↔ ∀ e ∈ es, TypeExpr.Readable levels e.2 := by
  induction es with
  | nil => simp [TypeExpr.ReadableEntries]
  | cons e es ih => simp only [TypeExpr.ReadableEntries, ih, List.forall_mem_cons]

theorem TypeExpr.readableAtoms_iff {levels : Nat} {as : List (AtomNode TypeExpr)} :
    TypeExpr.ReadableAtoms levels as ↔ ∀ a ∈ as, TypeExpr.ReadableAtom levels a := by
  induction as with
  | nil => simp [TypeExpr.ReadableAtoms]
  | cons a as ih => simp [TypeExpr.ReadableAtoms, ih]

theorem Expr.readableEach_iff {levels : Nat} {es : List Expr} :
    Expr.ReadableEach levels es ↔ ∀ e ∈ es, Expr.Readable levels e := by
  induction es with
  | nil => simp [Expr.ReadableEach]
  | cons e es ih => simp [Expr.ReadableEach, ih]

theorem Expr.readableEntries_iff {levels : Nat} {es : List (String × Expr)} :
    Expr.ReadableEntries levels es ↔ ∀ e ∈ es, Expr.Readable levels e.2 := by
  induction es with
  | nil => simp [Expr.ReadableEntries]
  | cons e es ih => simp only [Expr.ReadableEntries, ih, List.forall_mem_cons]

theorem Stmt.readableEach_iff {levels : Nat} {ss : List Stmt} :
    Stmt.ReadableEach levels ss ↔ ∀ s ∈ ss, Stmt.Readable levels s := by
  induction ss with
  | nil => simp [Stmt.ReadableEach]
  | cons s ss ih => simp [Stmt.ReadableEach, ih]

theorem TypeExpr.Readable.pos {levels : Nat} : ∀ {t : TypeExpr}, t.Readable levels → 0 < levels
  | .name _ _, h | .tuple _ _, h | .record _ _, h | .function _ _ _, h => h.1
  | .atom _, h | .union _ _, h => h.1
  | .number _, h | .string _, h => h
  | .access _ _ _, h => h.1.pos

theorem Expr.Readable.pos {levels : Nat} : ∀ {e : Expr}, e.Readable levels → 0 < levels
  | .name _ _, h | .string _ _, h | .importFile _ _, h => h
  | .number _ _, h | .tuple _ _, h | .record _ _, h | .function _ _ _, h | .atom _ _ _, h => h.1
  | .access _ _ _, h | .call _ _ _, h => h.1.pos

/-! ## Cursors that come to an end -/

namespace Cursor

def tokens (c : Cursor) : List Token :=
  c.current :: c.ahead

def Ends (c : Cursor) : Prop :=
  ∃ t ∈ c.tokens.getLast?, t.kind = .eof

theorem ofTokens_ends (tokens : List Token) (file : String) (limit : Nat) :
    (ofTokens tokens file limit).Ends := by
  cases tokens with
  | nil => exact ⟨.eof (.at 0 file), rfl, rfl⟩
  | cons t ts =>
    unfold ofTokens Ends Cursor.tokens
    dsimp only
    split
    case isTrue hfinal =>
      refine ⟨_, ?_, hfinal⟩
      rw [List.append_nil]
      exact List.getLast?_eq_some_getLast _
    case isFalse =>
      refine ⟨.eof ((t :: ts).getLast (by simp)).span.stop, ?_, rfl⟩
      rw [← List.cons_append, List.getLast?_append]
      rfl

theorem Ends.ahead_ne_nil {c : Cursor} (h : c.Ends) (hkind : c.kind ≠ .eof) : c.ahead ≠ [] := by
  rintro hnil
  obtain ⟨t, ht, heof⟩ := h
  rw [Cursor.tokens, hnil] at ht
  cases ht
  exact hkind heof

/-- Where the tokens end, if the first of them stands behind `before`. -/
def endAfter (before : Position) (tokens : List Token) : Position :=
  (tokens.getLast?.map fun t => t.span.stop).getD before

theorem endAfter_append (before : Position) (first second : List Token) :
    endAfter before (first ++ second) = endAfter (endAfter before first) second := by
  unfold endAfter
  rw [List.getLast?_append]
  cases second.getLast? <;> rfl

/-- `passed` is what was left behind on the way from `c` to `c'`. -/
structure Passes (c c' : Cursor) (passed : List Token) : Prop where
  tokens : c.tokens = passed ++ c'.tokens
  last : c'.last = endAfter c.last passed

theorem Passes.refl (c : Cursor) : c.Passes c [] :=
  ⟨rfl, rfl⟩

theorem Passes.trans {c₁ c₂ c₃ : Cursor} {first second : List Token} (h₁ : c₁.Passes c₂ first)
    (h₂ : c₂.Passes c₃ second) : c₁.Passes c₃ (first ++ second) := by
  constructor
  · rw [h₁.tokens, h₂.tokens, List.append_assoc]
  · rw [h₂.last, h₁.last, endAfter_append]

theorem Passes.length {c c' : Cursor} {passed : List Token} (h : c.Passes c' passed) :
    c.tokens.length = passed.length + c'.tokens.length := by
  rw [h.tokens, List.length_append]

structure Leads (c c' : Cursor) : Prop where
  ends : c'.Ends
  passed : ∃ passed, c.Passes c' passed

theorem Leads.refl {c : Cursor} (h : c.Ends) : c.Leads c :=
  ⟨h, [], .refl c⟩

theorem Leads.trans {c₁ c₂ c₃ : Cursor} (h₁ : c₁.Leads c₂) (h₂ : c₂.Leads c₃) : c₁.Leads c₃ := by
  obtain ⟨first, hfirst⟩ := h₁.passed
  obtain ⟨second, hsecond⟩ := h₂.passed
  exact ⟨h₂.ends, first ++ second, hfirst.trans hsecond⟩

theorem Leads.length {c c' : Cursor} (h : c.Leads c') : c'.tokens.length ≤ c.tokens.length := by
  obtain ⟨passed, hpassed⟩ := h.passed
  have hlength := hpassed.length
  omega

theorem passes_advance {c : Cursor} (h : c.Ends) (hkind : c.kind ≠ .eof) :
    c.Passes c.advance.2 [c.current] := by
  unfold advance
  cases hahead : c.ahead with
  | nil => exact absurd hahead (h.ahead_ne_nil hkind)
  | cons t ts => exact ⟨by simp [Cursor.tokens, hahead], rfl⟩

theorem leads_advance {c : Cursor} (h : c.Ends) : c.Leads c.advance.2 := by
  unfold advance
  cases hahead : c.ahead with
  | nil => exact .refl h
  | cons t ts =>
    refine ⟨?_, [c.current], by simp [Cursor.tokens, hahead], rfl⟩
    obtain ⟨last, hlast, heof⟩ := h
    refine ⟨last, ?_, heof⟩
    rwa [Cursor.tokens, hahead, List.getLast?_cons_cons] at hlast

end Cursor

/-! ## What parsers yield, and where they stop -/

/-- If the parser succeeds at `c`, then what it yields and the cursor it stops at satisfy `Q`. -/
def ParseM.Gives {α : Type} (p : ParseM α) (c : Cursor) (Q : α → Cursor → Prop) : Prop :=
  c.Ends → ∀ a c', p c = .ok a c' → c.Leads c' ∧ Q a c'

namespace ParseM

variable {α β : Type} {c : Cursor} {Q : α → Cursor → Prop} {R : β → Cursor → Prop}

theorem Gives.weaken {Q' : α → Cursor → Prop} {p : ParseM α} (h : Gives p c Q)
    (hQ : ∀ a c', Q a c' → Q' a c') : Gives p c Q' := by
  intro hends a c' hrun
  obtain ⟨hleads, ha⟩ := h hends a c' hrun
  exact ⟨hleads, hQ a c' ha⟩

theorem Gives.pure {a : α} (h : Q a c) : Gives (Pure.pure a) c Q := by
  intro hends b c' hrun
  cases hrun
  exact ⟨.refl hends, h⟩

theorem Gives.leads {p : ParseM α} (h : Gives p c Q) :
    Gives p c fun a c' => c.Leads c' ∧ Q a c' := by
  intro hends a c' hrun
  exact ⟨(h hends a c' hrun).1, h hends a c' hrun⟩

theorem Gives.bind {p : ParseM α} {f : α → ParseM β} (hp : Gives p c Q)
    (hf : ∀ a c', Q a c' → Gives (f a) c' R) : Gives (p >>= f) c R := by
  intro hends b c₂ hrun
  change EStateM.bind p f c = .ok b c₂ at hrun
  unfold EStateM.bind at hrun
  cases hpc : p c with
  | error e c₁ =>
    rw [hpc] at hrun
    cases hrun
  | ok a c₁ =>
    rw [hpc] at hrun
    obtain ⟨hleads, ha⟩ := hp hends a c₁ hpc
    obtain ⟨hleads', hb⟩ := hf a c₁ ha hleads.ends b c₂ hrun
    exact ⟨hleads.trans hleads', hb⟩

abbrev Moves (p : ParseM α) (c : Cursor) : Prop :=
  Gives p c fun _ _ => True

theorem Gives.after {p : ParseM α} {f : α → ParseM β} (hp : Moves p c)
    (hf : ∀ a c', Gives (f a) c' R) : Gives (p >>= f) c R :=
  hp.bind fun a c' _ => hf a c'

/-! Parsers that only look at the cursor stay where they are. -/

theorem Gives.get {f : Cursor → ParseM β} (h : Gives (f c) c R) : Gives (get >>= f) c R := h

theorem Gives.kind {f : TokenKind → ParseM β} (h : Gives (f c.kind) c R) :
    Gives (ParseM.kind >>= f) c R := h

theorem Gives.remaining {f : Nat → ParseM β} (h : Gives (f c.tokens.length) c R) :
    Gives (ParseM.remaining >>= f) c R := h

theorem Gives.spanFrom {start : Position} {f : Span → ParseM β}
    (h : Gives (f (c.spanFrom start)) c R) : Gives (ParseM.spanFrom start >>= f) c R := h

theorem unexpected_gives : Gives unexpected c Q := by
  rintro - a c' ⟨⟩

theorem detailed_gives (message : String) : Gives (detailed message) c Q := by
  rintro - a c' ⟨⟩

theorem tooDeep_gives : Gives tooDeep c Q := by
  rintro - a c' ⟨⟩

theorem throw_gives (e : Error) : Gives (throw e : ParseM α) c Q := by
  rintro - a c' ⟨⟩

theorem advance_gives : Gives advance c fun t c' =>
    t = c.current ∧ (c.kind ≠ .eof → c.Passes c' [c.current]) := by
  intro hends t c' hrun
  have hrun' : EStateM.Result.ok c.advance.1 c.advance.2 = EStateM.Result.ok t c' := hrun
  cases hrun'
  refine ⟨Cursor.leads_advance hends, ?_, Cursor.passes_advance hends⟩
  unfold Cursor.advance
  cases c.ahead <;> rfl

theorem advance_moves : Moves advance c :=
  advance_gives.weaken fun _ _ _ => trivial

theorem expect_gives (k : TokenKind) : Gives (expect k) c fun t c' =>
    t = c.current ∧ (k ≠ .eof → c.Passes c' [c.current]) := by
  refine .kind ?_
  split
  case isTrue hkind =>
    subst hkind
    exact advance_gives
  case isFalse => exact unexpected_gives

theorem expect_moves (k : TokenKind) : Moves (expect k) c :=
  (expect_gives k).weaken fun _ _ _ => trivial

theorem expectOr_gives (k : TokenKind) (message : String) : Gives (expectOr k message) c fun t c' =>
    t = c.current ∧ (k ≠ .eof → c.Passes c' [c.current]) := by
  refine .kind ?_
  split
  case isTrue hkind =>
    subst hkind
    exact advance_gives
  case isFalse => exact detailed_gives message

theorem expectOr_moves (k : TokenKind) (message : String) : Moves (expectOr k message) c :=
  (expectOr_gives k message).weaken fun _ _ _ => trivial

theorem skip_moves (k : TokenKind) : Moves (skip k) c := by
  refine .kind ?_
  split
  · exact .after advance_moves fun _ _ => .pure trivial
  · exact .pure trivial

theorem nested_gives {p : ParseM α} (hQ : ∀ a c', Q a c' → Q a c'.leave)
    (h : Gives p { c with depth := c.depth + 1 } Q) : Gives (nested p) c Q := by
  intro hends a c' hrun
  unfold nested at hrun
  cases henter : c.enter? with
  | none =>
    rw [henter] at hrun
    cases hrun
  | some inner =>
    have hinner : inner = { c with depth := c.depth + 1 } := by
      unfold Cursor.enter? at henter
      split at henter
      · cases henter
      · exact (Option.some.inj henter).symm
    subst hinner
    rw [henter] at hrun
    dsimp only at hrun
    cases hp : p { c with depth := c.depth + 1 } with
    | error e c₁ =>
      rw [hp] at hrun
      cases hrun
    | ok b c₁ =>
      rw [hp] at hrun
      obtain ⟨⟨hends₁, passed, hpassed⟩, hb⟩ := h hends b c₁ hp
      cases hrun
      exact ⟨⟨hends₁, passed, hpassed.tokens, hpassed.last⟩, hQ _ c₁ hb⟩

/-! ### Lists -/

/-- What holds of no items, and goes on holding when an item is added and when the cursor moves on,
holds of the list. The items before it are latest first. -/
theorem items_gives {closing : TokenKind} {item : List α → ParseM α} {I : List α → Cursor → Prop}
    (hmove : ∀ {as c c'}, c.Leads c' → I as c → I as c')
    (h : ∀ earlier c, I earlier c → Gives (item earlier) c fun a c' => I (a :: earlier) c') :
    ∀ (n : Nat) (earlier : List α) (c : Cursor), I earlier c →
      Gives (items closing item n earlier) c fun as c' => I as.reverse c'
  | 0, earlier, c, he => .pure (by rwa [List.reverse_reverse])
  | n + 1, earlier, c, he => by
    refine .kind ?_
    split
    · exact .pure (by rwa [List.reverse_reverse])
    · refine (h earlier c he).bind fun a c₁ ha => ?_
      refine .kind ?_
      split
      · refine advance_moves.leads.bind fun _ c₂ hc₂ => ?_
        exact items_gives (I := I) hmove h n (a :: earlier) c₂ (hmove hc₂.1 ha)
      · exact .pure (by rwa [List.reverse_reverse])

theorem commaList_gives {closing : TokenKind} {item : List α → ParseM α}
    {I : List α → Cursor → Prop} (hmove : ∀ {as c c'}, c.Leads c' → I as c → I as c')
    (hnil : I [] c)
    (h : ∀ earlier c, I earlier c → Gives (item earlier) c fun a c' => I (a :: earlier) c') :
    Gives (commaList closing item) c fun as c' => I as.reverse c' := by
  refine .remaining ?_
  refine (items_gives (I := I) hmove h _ [] c hnil).bind fun as c₁ has => ?_
  exact (expect_moves closing).leads.bind fun _ _ hc₂ => .pure (hmove hc₂.1 has)

/-- The same for the entries of a record, each of which has a new name. -/
theorem entries_gives {value : ParseM α} {I : List (String × α) → Cursor → Prop}
    (hmove : ∀ {es c c'}, c.Leads c' → I es c → I es c')
    (hnil : ∀ {c'}, c.Leads c' → c'.tokens.length < c.tokens.length → I [] c')
    (h : ∀ x earlier c, x ∉ earlier.map Prod.fst → I earlier c →
      Gives value c fun a c' => I ((x, a) :: earlier) c') :
    Gives (entries value) c fun es c' => I es.reverse c' := by
  refine (skip_moves _).leads.bind fun _ c₁ hc₁ => ?_
  refine (expect_gives .openCurly).leads.bind fun _ c₂ hc₂ => ?_
  have hshort : c₂.tokens.length < c.tokens.length := by
    have hopening := (hc₂.2.2 (by decide)).length
    have hlength := hc₁.1.length
    simp only [List.length_singleton] at hopening
    omega
  refine commaList_gives hmove (hnil (hc₁.1.trans hc₂.1) hshort) fun earlier c he => .get ?_
  dsimp only
  split
  · exact (detailed_gives (Q := fun _ _ => False) _).bind fun _ _ hfalse => hfalse.elim
  case isFalse hnew =>
    refine (expectOr_gives _ _).leads.bind fun name c₁ hname => ?_
    refine (expect_moves _).leads.bind fun _ c₂ hc₂ => ?_
    have hearlier := hmove hc₂.1 (hmove hname.1 he)
    have hnot : name.value ∉ earlier.map Prod.fst := by
      rw [hname.2.1]
      intro hmem
      obtain ⟨e, hmem, heq⟩ := List.mem_map.mp hmem
      exact hnew (List.any_eq_true.mpr ⟨e, hmem, decide_eq_true heq⟩)
    exact (h name.value earlier c₂ hnot hearlier).bind fun a c₃ ha => .pure ha

def Shrinks (p : ParseM α) (c : Cursor) : Prop :=
  Gives p c fun _ c' => c'.tokens.length < c.tokens.length

theorem Shrinks.then {p : ParseM α} {f : α → ParseM β} (hp : Shrinks p c)
    (hf : ∀ a c', Gives (f a) c' R) :
    Gives (p >>= f) c fun b c' => R b c' ∧ c'.tokens.length < c.tokens.length := by
  refine hp.bind fun a c₁ hshort hends b c₂ hrun => ?_
  obtain ⟨hleads, hb⟩ := hf a c₁ hends b c₂ hrun
  exact ⟨hleads, hb, Nat.lt_of_le_of_lt hleads.length hshort⟩

theorem advance_shrinks (hkind : c.kind ≠ .eof) : Shrinks advance c := by
  refine advance_gives.weaken fun _ _ h => ?_
  rw [(h.2 hkind).length]
  simp

theorem entryName_shrinks (hkind : c.kind ≠ .eof) : Shrinks entryName c := by
  have rest : ∀ (t : Token) (c : Cursor), Moves (do
      return (← expectOr .identifier "expected entry name after `.`").value) c :=
    fun _ _ => .after (expectOr_moves _ _) fun _ _ => .pure trivial
  exact ((advance_shrinks hkind).then rest).weaken fun _ _ h => h.2

/-! ### Phrases that tokens continue -/

/-- How a phrase is read: its first token says how it starts, and then a loop extends it as long as
the next token continues it. -/
structure Phrase (α σ ρ : Type) where
  start? : TokenKind → Option σ
  start : σ → ParseM α
  follow? : TokenKind → Option ρ
  follow : α → ρ → ParseM α
  follows : Nat → α → ParseM α
  start?_eof : start? .eof = none
  follow?_eof : follow? .eof = none
  follows_stop : ∀ n a c, follow? c.kind = none → follows n a c = .ok a c
  follows_step : ∀ n a c rule, follow? c.kind = some rule →
    follows (n + 1) a c = (follow a rule >>= follows n) c

namespace Phrase

variable {σ ρ : Type} (phrase : Phrase α σ ρ)

def body : ParseM α := do
  match phrase.start? (← ParseM.kind) with
  | none => unexpected
  | some rule =>
    let a ← phrase.start rule
    phrase.follows (← ParseM.remaining) a

variable {I : α → Cursor → Prop} {O : α → Prop}

/-- Enough steps for the tokens that are left lead to a token that continues nothing. What is open
is not continued, which keeps it from being a part of something larger. -/
theorem follows_gives
    (hfollow : ∀ a rule c, I a c → ¬ O a → c.kind ≠ .eof →
      Gives (phrase.follow a rule) c fun b c' =>
        (I b c' ∧ ¬ O b) ∧ c'.tokens.length < c.tokens.length) :
    ∀ (n : Nat) (a : α) (c : Cursor), c.tokens.length ≤ n → I a c →
      (O a → phrase.follow? c.kind = none) →
        Gives (phrase.follows n a) c fun b c' => I b c' ∧ phrase.follow? c'.kind = none
  | 0, _, _, hn, _, _ => absurd hn (by simp [Cursor.tokens])
  | n + 1, a, c, hn, ha, hopen => by
    cases hrule : phrase.follow? c.kind with
    | none =>
      intro hends b c' hrun
      rw [phrase.follows_stop _ _ _ hrule] at hrun
      cases hrun
      exact ⟨.refl hends, ha, hrule⟩
    | some rule =>
      have hkind : c.kind ≠ .eof := by
        intro heof
        rw [heof, phrase.follow?_eof] at hrule
        cases hrule
      have hclosed : ¬ O a := fun ho => by rw [hopen ho] at hrule; cases hrule
      have hloop : Gives (phrase.follow a rule >>= phrase.follows n) c fun b c' =>
          I b c' ∧ phrase.follow? c'.kind = none := by
        refine (hfollow a rule c ha hclosed hkind).bind fun b c₁ hb => ?_
        exact follows_gives hfollow n b c₁ (by omega) hb.1.1 fun ho => absurd ho hb.1.2
      intro hends b c' hrun
      rw [phrase.follows_step n a c rule hrule] at hrun
      exact hloop hends b c' hrun

theorem body_gives {c : Cursor}
    (hstart : ∀ rule, c.kind ≠ .eof → Gives (phrase.start rule) c fun a c' =>
      I a c' ∧ (O a → phrase.follow? c'.kind = none))
    (hfollow : ∀ a rule c, I a c → ¬ O a → c.kind ≠ .eof →
      Gives (phrase.follow a rule) c fun b c' =>
        (I b c' ∧ ¬ O b) ∧ c'.tokens.length < c.tokens.length) :
    Gives phrase.body c fun a c' => I a c' ∧ phrase.follow? c'.kind = none := by
  refine .kind ?_
  cases hrule : phrase.start? c.kind with
  | none => exact unexpected_gives
  | some rule =>
    have hkind : c.kind ≠ .eof := by
      intro heof
      rw [heof, phrase.start?_eof] at hrule
      cases hrule
    refine (hstart rule hkind).bind fun a c₁ ha => ?_
    exact .remaining (phrase.follows_gives hfollow _ a c₁ (Nat.le_refl _) ha.1 ha.2)

end Phrase

end ParseM

open ParseM

/-! ### Types and expressions -/

theorem typePower?_le_iff {k : TokenKind} :
    ((typePower? k).getD .default).rank ≤ Power.default.rank ↔ TypeFollow.of? k = none := by
  cases k <;> decide

def TypeExpr.phrase (type : ParseM TypeExpr) : Phrase TypeExpr TypeStart TypeFollow where
  start? := TypeStart.of?
  start := TypeExpr.parseStart type
  follow? := TypeFollow.of?
  follow := TypeExpr.parseFollow type
  follows := TypeExpr.parseFollows type .default
  start?_eof := rfl
  follow?_eof := rfl
  follows_stop n left c h := by
    cases n with
    | zero => rfl
    | succ n =>
      show (if _ then _ else _ : ParseM TypeExpr) c = _
      rw [if_pos (typePower?_le_iff.mpr h)]
      rfl
  follows_step n left c rule h := by
    have hgo := mt typePower?_le_iff.mp (by rw [h]; exact nofun)
    show (if _ then _ else _ : ParseM TypeExpr) c = _
    rw [if_neg hgo, h]

theorem TypeExpr.body_phrase (type : ParseM TypeExpr) :
    (TypeExpr.phrase type).body = TypeExpr.parseBody type .default := by
  unfold Phrase.body TypeExpr.parseBody
  congr 1
  funext k
  dsimp only [TypeExpr.phrase]
  cases TypeStart.of? k <;> rfl

theorem exprPower?_le_iff {k : TokenKind} :
    ((exprPower? k).getD .default).rank ≤ Power.default.rank ↔ ExprFollow.of? k = none := by
  cases k <;> decide

def Expr.phrase (g : Grammar) : Phrase Expr ExprStart ExprFollow where
  start? := ExprStart.of?
  start := Expr.parseStart g
  follow? := ExprFollow.of?
  follow := Expr.parseFollow g
  follows := Expr.parseFollows g .default
  start?_eof := rfl
  follow?_eof := rfl
  follows_stop n left c h := by
    cases n with
    | zero => rfl
    | succ n =>
      show (if _ then _ else _ : ParseM Expr) c = _
      rw [if_pos (exprPower?_le_iff.mpr h)]
      rfl
  follows_step n left c rule h := by
    have hgo := mt exprPower?_le_iff.mp (by rw [h]; exact nofun)
    show (if _ then _ else _ : ParseM Expr) c = _
    rw [if_neg hgo, h]

theorem Expr.body_phrase (g : Grammar) : (Expr.phrase g).body = Expr.parseBody g .default := by
  unfold Phrase.body Expr.parseBody
  congr 1
  funext k
  dsimp only [Expr.phrase]
  cases ExprStart.of? k <;> rfl

end ShapeCheck
