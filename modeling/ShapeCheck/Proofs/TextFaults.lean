import ShapeCheck.Proofs.ParseCongruence
import ShapeCheck.Proofs.Pieces

/-!
# What cannot be wrong with a text

Parsers are made for any list of tokens, and look out for faults that a text cannot have. A token of
a text is a numeral only if it is made of digits, with a point among them at most, and every such
numeral can be read. A token that binds to the phrase before it always has a rule to go on with, so
it does not matter what is done where there is none.
-/

namespace ShapeCheck

open Text (isDigit isWordChar takeWhile_append_of_stops dropWhile_append_of_stops)

/-! ## Numerals -/

namespace Numeral

/-- Digits, which a point and more digits may follow. -/
def Plain (cs : List Char) : Prop :=
  ∃ whole, whole ≠ [] ∧ (∀ c ∈ whole, isDigit c = true) ∧
    (cs = whole ∨ ∃ fraction, fraction ≠ [] ∧ (∀ c ∈ fraction, isDigit c = true) ∧
      cs = whole ++ '.' :: fraction)

theorem sign_of_isDigit {c : Char} (h : isDigit c = true) (cs : List Char) :
    sign (c :: cs) = (false, c :: cs) := by
  unfold sign
  split
  · simp_all [isDigit]
  · simp_all [isDigit]
  · rfl

theorem decimal?_of_plain {cs : List Char} (h : Plain cs) : (decimal? cs).isSome := by
  obtain ⟨whole, hne, hwhole, rfl | ⟨fraction, -, hfraction, rfl⟩⟩ := h
  · have htake : cs.takeWhile isDigit = cs := List.takeWhile_eq_self_iff.mpr hwhole
    have hdrop : cs.dropWhile isDigit = [] := List.dropWhile_eq_nil_iff.mpr hwhole
    simp [decimal?, htake, hdrop, hne, exponent?]
  · have hpoint : Text.Stops isDigit ('.' :: fraction) := by simp [Text.Stops, isDigit]
    have htake : fraction.takeWhile isDigit = fraction := List.takeWhile_eq_self_iff.mpr hfraction
    have hdrop : fraction.dropWhile isDigit = [] := List.dropWhile_eq_nil_iff.mpr hfraction
    simp [decimal?, takeWhile_append_of_stops hwhole hpoint,
      dropWhile_append_of_stops hwhole hpoint, htake, hdrop, hne, exponent?]

theorem read?_of_plain {text : String} (h : Plain text.toList) : (read? text).isSome := by
  have hsign : sign text.toList = (false, text.toList) := by
    obtain ⟨whole, hne, hwhole, htext⟩ := h
    obtain ⟨c, whole, rfl⟩ := List.exists_cons_of_ne_nil hne
    have hc : isDigit c = true := hwhole c (by simp)
    rcases htext with htext | ⟨fraction, -, -, htext⟩
    · rw [htext, sign_of_isDigit hc]
    · rw [htext, List.cons_append, sign_of_isDigit hc]
  obtain ⟨d, hd⟩ := Option.isSome_iff_exists.mp (decimal?_of_plain h)
  simp [read?, hsign, hd]

end Numeral

theorem wordKind_ne_number (word : List Char) : wordKind word ≠ .number := by
  unfold wordKind
  split
  · simp
  · split <;> simp

theorem punctuation?_ne_number (c : Char) : punctuation? c ≠ some .number := by
  unfold punctuation?
  split <;> simp

theorem Piece.plain {c : Char} {more rest value : List Char} {kind : TokenKind}
    (h : Piece c more rest (some (kind, value))) (hkind : kind = .number) : Numeral.Plain value := by
  cases h with
  | word => exact absurd hkind (wordKind_ne_number _)
  | whole hc hmore => exact ⟨c :: more, by simp, List.forall_mem_cons.mpr ⟨hc, hmore⟩, Or.inl rfl⟩
  | @fraction _ whole digits _ hc hwhole hne hdigits =>
    exact ⟨c :: whole, by simp, List.forall_mem_cons.mpr ⟨hc, hwhole⟩,
      Or.inr ⟨digits, hne, hdigits, rfl⟩⟩
  | atom => cases hkind
  | literal => cases hkind
  | mark hc => exact absurd (hkind ▸ hc) (punctuation?_ne_number c)

theorem Lexes.plain {file : String} {offset : Nat} {cs : List Char} {r : Except Error (List Token)}
    (h : Lexes file offset cs r) : ∀ {ts : List Token}, r = .ok ts →
      ∀ t ∈ ts, t.kind = .number → Numeral.Plain t.value.toList := by
  induction h with
  | eof =>
    rintro _ ⟨⟩ t ht hkind
    rw [List.mem_singleton.mp ht] at hkind
    cases hkind
  | unrecognised => rintro _ ⟨⟩
  | failing => rintro _ ⟨⟩
  | blank _ _ ih => exact ih
  | token hl _ ih =>
    rintro _ ⟨⟩ t ht hkind
    rcases List.mem_cons.mp ht with rfl | ht
    · obtain ⟨rest, -, hpiece⟩ := lexeme?_piece hl
      rw [String.toList_ofList]
      exact hpiece.plain hkind
    · exact ih rfl t ht hkind

/-! ## Faults of a text -/

/-- The faults that a text can have where `limit` levels of nesting are allowed. -/
def Cause.OfText (limit : Nat) : Cause → Prop
  | .unrecognisedToken _ | .unexpectedToken _ | .unexpectedTokenDetailed _ _ => True
  | .nestingTooDeep n => n = limit
  | _ => False

structure Cursor.Legible (limit : Nat) (c : Cursor) : Prop where
  limit_eq : c.limit = limit
  reads : ∀ t ∈ c.current :: c.ahead, t.kind = .number → (Numeral.read? t.value).isSome

theorem Cursor.Legible.advance {limit : Nat} {c : Cursor} (h : c.Legible limit) :
    c.advance.2.Legible limit := by
  obtain ⟨last, current, ahead, depth, _⟩ := c
  cases ahead with
  | nil => exact h
  | cons t ts => exact ⟨h.limit_eq, fun t' ht' => h.reads t' (List.mem_cons_of_mem _ ht')⟩

/-- Where every numeral can be read, the parser stops at such a place again, or fails because of a
fault that a text can have. -/
def ParseM.Textual (limit : Nat) {α : Type} (p : ParseM α) : Prop :=
  ∀ c : Cursor, c.Legible limit → match p c with
    | .ok _ c' => c'.Legible limit
    | .error e _ => e.cause.OfText limit

namespace ParseM.Textual

variable {limit : Nat} {α β : Type}

theorem bind {p : ParseM α} {f : α → ParseM β} (hp : Textual limit p)
    (hf : ∀ a, Textual limit (f a)) : Textual limit (p >>= f) := by
  intro c hc
  have hrun := hp c hc
  show match EStateM.bind p f c with
    | .ok _ c' => c'.Legible limit
    | .error e _ => e.cause.OfText limit
  unfold EStateM.bind
  cases hpc : p c with
  | ok a c' =>
    rw [hpc] at hrun
    exact hf a c' hrun
  | error e c' =>
    rw [hpc] at hrun
    exact hrun

theorem pure (a : α) : Textual limit (Pure.pure a : ParseM α) :=
  fun _ hc => hc

theorem advance : Textual limit advance :=
  fun _ hc => hc.advance

theorem get {f : Cursor → ParseM α} (h : ∀ c : Cursor, c.Legible limit → Textual limit (f c)) :
    Textual limit (MonadState.get >>= f) :=
  fun c hc => h c hc c hc

theorem parsePrimary : Textual limit Expr.parsePrimary := by
  have hnext (e : Expr) : Textual limit (ParseM.advance >>= fun _ => Pure.pure e) :=
    advance.bind fun _ => pure e
  refine get fun c hc => ?_
  dsimp only
  split
  case h_1 hkind =>
    obtain ⟨value, hvalue⟩ := Option.isSome_iff_exists.mp (hc.reads c.current (by simp) hkind)
    rw [hvalue]
    exact hnext _
  case h_2 => exact hnext _
  case h_3 => exact hnext _
  case h_4 => exact fun _ _ => trivial

theorem congruence : Congruence fun _ p _ => Textual limit p where
  pure := pure
  bind := bind
  get h := get fun c _ => h c c.depth c.limit
  unexpected _ _ := trivial
  detailed _ _ _ := trivial
  advance := advance
  primary := parsePrimary

theorem tooDeep : Textual limit (ParseM.tooDeep : ParseM α) :=
  fun _ hc => hc.limit_eq

theorem nested {p : ParseM α} (hp : Textual limit p) : Textual limit (nested p) := by
  intro c hc
  unfold ParseM.nested
  by_cases hdepth : c.limit ≤ c.depth
  · have henter : c.enter? = none := if_pos hdepth
    rw [henter]
    exact hc.limit_eq
  · have henter : c.enter? = some { c with depth := c.depth + 1 } := if_neg hdepth
    have hrun := hp { c with depth := c.depth + 1 } ⟨hc.limit_eq, hc.reads⟩
    rw [henter]
    dsimp only
    cases hpc : p { c with depth := c.depth + 1 } with
    | ok a c' =>
      rw [hpc] at hrun
      exact ⟨hrun.limit_eq, hrun.reads⟩
    | error e c' =>
      rw [hpc] at hrun
      exact hrun

end ParseM.Textual

section
variable {limit : Nat}

open ParseM (Textual)

theorem Stmt.parseAll_textual : Textual limit parseAll := by
  refine Textual.get fun c _ => ?_
  have hg : Grammar.Related (fun _ p _ => Textual limit p) (.ofLevels (c.limit - c.depth))
      (.ofLevels (c.limit - c.depth)) :=
    Grammar.ofLevels_congr Textual.congruence (fun _ => .tooDeep) .nested (Nat.le_refl _)
  have hremaining : Textual limit ParseM.remaining := .get fun _ _ => .pure _
  exact hremaining.bind fun n => parseUntil_congr Textual.congruence hg .eof n []

end

theorem Cursor.legible_ofTokens {tokens : List Token}
    (h : ∀ t ∈ tokens, t.kind = .number → (Numeral.read? t.value).isSome) (file : String)
    (limit : Nat) : (ofTokens tokens file limit).Legible limit := by
  cases tokens with
  | nil => exact ⟨rfl, by simp [ofTokens, Token.eof]⟩
  | cons t ts =>
    refine ⟨rfl, fun t' ht' hkind => ?_⟩
    simp only [ofTokens, ← List.cons_append, List.mem_append] at ht'
    rcases ht' with ht' | ht'
    · exact h t' ht' hkind
    · split at ht'
      · cases ht'
      · rw [List.mem_singleton.mp ht'] at hkind
        cases hkind

theorem parseTokens_ofText {tokens : List Token}
    (h : ∀ t ∈ tokens, t.kind = .number → (Numeral.read? t.value).isSome) {file : String}
    {maxDepth : Nat} {e : Error} (he : parseTokens tokens file maxDepth = .error e) :
    e.cause.OfText maxDepth := by
  have hall := Stmt.parseAll_textual _ (Cursor.legible_ofTokens h file maxDepth)
  unfold parseTokens at he
  cases hrun : Stmt.parseAll (.ofTokens tokens file maxDepth) with
  | ok body c =>
    rw [hrun] at he
    cases he
  | error e' c =>
    rw [hrun] at he hall
    cases he
    exact hall

theorem parseSource_ofText {source file : String} {maxDepth : Nat} {e : Error}
    (he : parseSource source file maxDepth = .error e) : e.cause.OfText maxDepth := by
  have hlexes := tokensAt_lexes file 0 source.toList
  unfold parseSource at he
  cases htokens : tokenize source (some file) with
  | error e' =>
    rw [htokens] at he
    cases he
    obtain ⟨_, _, _, -, -, hcause⟩ := hlexes.unrecognised_of_error htokens
    rw [hcause]
    trivial
  | ok tokens =>
    rw [htokens] at he
    exact parseTokens_ofText
      (fun t ht hkind => Numeral.read?_of_plain (hlexes.plain htokens t ht hkind)) he

/-! ## Tokens that bind -/

theorem exprFollow_of_binds {kind : TokenKind} {power : Power}
    (h : ¬ ((exprPower? kind).getD .default).rank ≤ power.rank) :
    ∃ rule, ExprFollow.of? kind = some rule := by
  cases kind with
  | openParen => exact ⟨_, rfl⟩
  | dot => exact ⟨_, rfl⟩
  -- a token without a power has the least one, and so does not bind
  | _ => exact absurd (Nat.zero_le _) h

theorem typeFollow_of_binds {kind : TokenKind} {power : Power}
    (h : ¬ ((typePower? kind).getD .default).rank ≤ power.rank) :
    ∃ rule, TypeFollow.of? kind = some rule := by
  cases kind with
  | pipe => exact ⟨_, rfl⟩
  | dot => exact ⟨_, rfl⟩
  | _ => exact absurd (Nat.zero_le _) h

/-- What to do at a token that binds to the phrase before it without a rule to go on with, where
parsers otherwise report the token. -/
structure Detours where
  expr : ParseM Expr
  type : ParseM TypeExpr

/-! ### Parsers with detours -/

section
variable (d : Detours)

open ParseM

namespace TypeExpr

def parseFollowsOr (type : ParseM TypeExpr) (power : Power) : Nat → TypeExpr → ParseM TypeExpr
  | 0, left => return left
  | n + 1, left => do
    let kind ← ParseM.kind
    if ((typePower? kind).getD .default).rank ≤ power.rank then return left
    match TypeFollow.of? kind with
    | none => d.type
    | some rule => parseFollowsOr type power n (← parseFollow type left rule)

def parseBodyOr (type : ParseM TypeExpr) (power : Power) : ParseM TypeExpr := do
  match TypeStart.of? (← kind) with
  | none => unexpected
  | some rule =>
    let left ← parseStart type rule
    parseFollowsOr d type power (← remaining) left

theorem parseFollowsOr_eq (type : ParseM TypeExpr) (power : Power) : ∀ (n : Nat) (left : TypeExpr),
    parseFollowsOr d type power n left = parseFollows type power n left
  | 0, _ => rfl
  | n + 1, left => by
    unfold parseFollowsOr parseFollows
    refine bind_congr fun kind => ?_
    split
    case isTrue => rfl
    case isFalse hbinds =>
      obtain ⟨rule, hrule⟩ := typeFollow_of_binds hbinds
      rw [hrule]
      exact bind_congr fun left => parseFollowsOr_eq type power n left

theorem parseBodyOr_eq (type : ParseM TypeExpr) (power : Power) :
    parseBodyOr d type power = parseBody type power := by
  unfold parseBodyOr
  simp only [parseFollowsOr_eq]
  rfl

end TypeExpr

namespace Expr

def parseFollowsOr (g : Grammar) (power : Power) : Nat → Expr → ParseM Expr
  | 0, left => return left
  | n + 1, left => do
    let kind ← ParseM.kind
    if ((exprPower? kind).getD .default).rank ≤ power.rank then return left
    match ExprFollow.of? kind with
    | none => d.expr
    | some rule => parseFollowsOr g power n (← parseFollow g left rule)

def parseBodyOr (g : Grammar) (power : Power) : ParseM Expr := do
  match ExprStart.of? (← kind) with
  | none => unexpected
  | some rule =>
    let left ← parseStart g rule
    parseFollowsOr d g power (← remaining) left

theorem parseFollowsOr_eq (g : Grammar) (power : Power) : ∀ (n : Nat) (left : Expr),
    parseFollowsOr d g power n left = parseFollows g power n left
  | 0, _ => rfl
  | n + 1, left => by
    unfold parseFollowsOr parseFollows
    refine bind_congr fun kind => ?_
    split
    case isTrue => rfl
    case isFalse hbinds =>
      obtain ⟨rule, hrule⟩ := exprFollow_of_binds hbinds
      rw [hrule]
      exact bind_congr fun left => parseFollowsOr_eq g power n left

theorem parseBodyOr_eq (g : Grammar) (power : Power) :
    parseBodyOr d g power = parseBody g power := by
  unfold parseBodyOr
  simp only [parseFollowsOr_eq]
  rfl

end Expr

def Grammar.ofLevelsOr : Nat → Grammar
  | 0 => ⟨tooDeep, tooDeep, tooDeep⟩
  | levels + 1 =>
    let g := Grammar.ofLevelsOr levels
    ⟨nested (Expr.parseBodyOr d g .default), nested (TypeExpr.parseBodyOr d g.type .default),
      nested (Stmt.parseBlockBody g)⟩

theorem Grammar.ofLevelsOr_eq : ∀ levels : Nat, Grammar.ofLevelsOr d levels = .ofLevels levels
  | 0 => rfl
  | levels + 1 => by
    simp only [Grammar.ofLevelsOr, Grammar.ofLevelsOr_eq levels, Expr.parseBodyOr_eq,
      TypeExpr.parseBodyOr_eq]
    rfl

def Stmt.parseAllOr : ParseM (List Stmt) := do
  let c ← get
  Stmt.parseUntil (.ofLevelsOr d (c.limit - c.depth)) .eof (← remaining) []

def parseTokensOr (tokens : List Token) (file : String) (maxDepth : Nat) : Except Error Stmt :=
  match Stmt.parseAllOr d (Cursor.ofTokens tokens file maxDepth) with
  | .ok body c => .ok (.block body ⟨.at 0 file, c.position⟩)
  | .error e _ => .error e

def parseSourceOr (source file : String) (maxDepth : Nat) : Except Error Stmt := do
  let tokens ← tokenize source (some file)
  parseTokensOr d tokens file maxDepth

theorem parseTokensOr_eq (tokens : List Token) (file : String) (maxDepth : Nat) :
    parseTokensOr d tokens file maxDepth = parseTokens tokens file maxDepth := by
  have hall : Stmt.parseAllOr d = Stmt.parseAll := by
    unfold Stmt.parseAllOr
    simp only [Grammar.ofLevelsOr_eq]
    rfl
  unfold parseTokensOr
  rw [hall]
  rfl

end

/-- **What cannot be wrong with a text.** A text that is not a program has a character that starts no
token, a token out of place or too many levels of nesting. No phrase of it comes to a token that
binds to the phrase without a rule to go on with: any detour there leads to the same outcome. -/
theorem parseSource_faults (source file : String) (maxDepth : Nat) :
    (∀ e, parseSource source file maxDepth = .error e → e.cause.OfText maxDepth) ∧
      ∀ d : Detours, parseSourceOr d source file maxDepth = parseSource source file maxDepth := by
  refine ⟨fun e => parseSource_ofText, fun d => ?_⟩
  unfold parseSourceOr parseSource
  simp only [parseTokensOr_eq]

/-- Three levels are open where the list in the list starts. -/
theorem nestedLists_faults :
    let source := "f(1.5, [[2]]).x"
    (∃ e, parseSource source "main" 2 = .error e ∧ e.cause.OfText 2) ∧
      ∀ d : Detours, parseSourceOr d source "main" 2 = parseSource source "main" 2 := by
  intro source
  obtain ⟨hfaults, hdetours⟩ := parseSource_faults source "main" 2
  have hfails : (parseSource source "main" 2).isOk = false := by decide +kernel
  refine ⟨?_, hdetours⟩
  cases hrun : parseSource source "main" 2 with
  | ok tree =>
    rw [hrun] at hfails
    cases hfails
  | error e => exact ⟨e, rfl, hfaults e hrun⟩

end ShapeCheck
