import Mathlib.Data.List.Forall2
import ShapeCheck.Proofs.Annotation
import ShapeCheck.Proofs.Pieces
import ShapeCheck.Proofs.Unplaced
import ShapeCheck.Ty.Printer

/-!
# The text of a type

The text of a writable type is cut into the tokens of the annotation that says it. So the text is
read and checked as the type again, with every mark taken off, and types of one text differ in their
marks only.
-/

namespace ShapeCheck

open Token (word mark separated entry listed)

open Text (join isLetter isDigit isSpace isWordChar IsWord)

/-! ## Cutting a text -/

/-- Wherever the text stands, it is cut into the tokens `ts`. -/
def Cut (text : List Char) (ts : List Token) : Prop :=
  ∀ file offset, ∃ tokens, tokensAt file offset text = .ok tokens ∧ tokens.map Token.unplaced = ts

theorem Cut.nil : Cut [] [mark .eof] :=
  fun file offset => ⟨[.eof (.at offset file)], by rw [tokensAt], rfl⟩

theorem Cut.token {c : Char} {cs more value : List Char} {kind : TokenKind} {us : List Token}
    (hlexeme : lexeme? c cs = some ⟨more, some (kind, value)⟩)
    (h : Cut (cs.drop more.length) us) : Cut (c :: cs) (word kind (String.ofList value) :: us) := by
  intro file offset
  obtain ⟨later, hlater, hus⟩ := h file (offset + Text.byteLength (c :: more))
  refine ⟨⟨kind, String.ofList value, .between offset (offset + Text.byteLength (c :: more)) file⟩ ::
    later, ?_, ?_⟩
  · rw [tokensAt, hlexeme]
    dsimp only
    rw [hlater]
    rfl
  · rw [List.map_cons, hus]
    rfl

theorem Cut.skip {c : Char} {cs more : List Char} {us : List Token}
    (hlexeme : lexeme? c cs = some ⟨more, none⟩) (h : Cut (cs.drop more.length) us) :
    Cut (c :: cs) us := by
  intro file offset
  obtain ⟨later, hlater, hus⟩ := h file (offset + Text.byteLength (c :: more))
  refine ⟨later, ?_, hus⟩
  rw [tokensAt, hlexeme]
  dsimp only
  rw [hlater]
  rfl

/-- A word before the text ends where the text begins. -/
def Apart (text : List Char) : Prop :=
  ∀ c ∈ text.head?, isWordChar c = false

theorem Apart.append {a b : List Char} (ha : Apart a) (hb : Apart b) : Apart (a ++ b) := by
  cases a with
  | nil => exact hb
  | cons c cs => exact ha

/-- The text yields the tokens `ts`, whatever stands after it and does not go on a word. -/
def Scans (text : List Char) (ts : List Token) : Prop :=
  ∀ rest us, Apart rest → Cut rest us → Cut (text ++ rest) (ts ++ us)

/-- Such a text that does not begin with a space. -/
structure Spelled (text : List Char) (ts : List Token) : Prop where
  begins : ∃ c cs, text = c :: cs ∧ isSpace c = false
  scans : Scans text ts

theorem Scans.nil : Scans [] [] :=
  fun _ _ _ hcut => hcut

theorem Spelled.append {a b : List Char} {ts us : List Token} (ha : Spelled a ts)
    (hb : Scans b us) (hapart : Apart b) : Spelled (a ++ b) (ts ++ us) := by
  obtain ⟨c, cs, rfl, hc⟩ := ha.begins
  refine ⟨⟨c, cs ++ b, rfl, hc⟩, fun rest vs hrest hcut => ?_⟩
  have hlater := ha.scans (b ++ rest) (us ++ vs) (hapart.append hrest) (hb rest vs hrest hcut)
  rwa [List.append_assoc, List.append_assoc]

/-! ### Marks and spaces -/

section
variable {c : Char} {kind : TokenKind} (hc : punctuation? c = some kind)
include hc

theorem mark_of_punctuation : mark kind = word kind (String.ofList [c]) := by
  unfold punctuation? at hc
  split at hc <;> cases hc <;> rfl

theorem isWordChar_of_punctuation : isWordChar c = false := by
  unfold punctuation? at hc
  split at hc <;> cases hc <;> rfl

theorem apart_of_punctuation (cs : List Char) : Apart (c :: cs) := by
  rintro d hd
  cases hd
  exact isWordChar_of_punctuation hc

theorem Scans.mark {tail : List Char} {us : List Token} (h : Scans tail us) :
    Spelled (c :: tail) (mark kind :: us) := by
  refine ⟨⟨c, tail, rfl, isSpace_of_punctuation hc⟩, fun rest vs hrest hcut => ?_⟩
  rw [mark_of_punctuation hc]
  exact Cut.token (lexeme?_of_punctuation hc (tail ++ rest)) (h rest vs hrest hcut)

end

theorem Spelled.space {tail : List Char} {us : List Token} (h : Spelled tail us) :
    Scans (' ' :: tail) us := by
  intro rest vs hrest hcut
  obtain ⟨c, cs, rfl, hc⟩ := h.begins
  have hlexeme : lexeme? ' ' (c :: cs ++ rest) = some ⟨[], none⟩ := by
    show some (Lexeme.mk ((c :: cs ++ rest).takeWhile isSpace) none) = _
    rw [List.cons_append, List.takeWhile_cons_of_neg (by simp [hc])]
  exact Cut.skip hlexeme (h.scans rest vs hrest hcut)

/-! ### Words -/

theorem word_spelled {x : String} (hx : IsWord x) :
    Spelled x.toList [word (wordKind x.toList) x] := by
  obtain ⟨c, cs, hchars, hletter, hcs⟩ := hx
  have hx : x = String.ofList (c :: cs) := by rw [← hchars, String.ofList_toList]
  rw [hchars]
  refine ⟨⟨c, cs, rfl, Text.isSpace_of_isLetter hletter⟩, fun rest us hrest hcut => ?_⟩
  have hlexeme := (Piece.word hletter hcs hrest).lexeme?
  have hlater : Cut ((cs ++ rest).drop cs.length) us := by rwa [List.drop_left]
  rw [hx]
  exact Cut.token hlexeme hlater

theorem name_spelled {x : String} (hx : IsWord x) (himport : x ≠ "import")
    (hexport : x ≠ "export") : Spelled x.toList [word .identifier x] := by
  have hkind : wordKind x.toList = .identifier := by
    have himport' : x.toList ≠ ['i', 'm', 'p', 'o', 'r', 't'] :=
      fun heq => himport (String.toList_inj.mp heq)
    have hexport' : x.toList ≠ ['e', 'x', 'p', 'o', 'r', 't'] :=
      fun heq => hexport (String.toList_inj.mp heq)
    rw [wordKind, if_neg himport', if_neg hexport']
  rw [← hkind]
  exact word_spelled hx

theorem atom_spelled {x : String} (hx : IsWord x) : Spelled ('@' :: x.toList) [word .atom x] := by
  obtain ⟨c, cs, hchars, hletter, hcs⟩ := hx
  have hx : x = String.ofList (c :: cs) := by rw [← hchars, String.ofList_toList]
  rw [hchars]
  refine ⟨⟨'@', c :: cs, rfl, rfl⟩, fun rest us hrest hcut => ?_⟩
  have hlexeme := (Piece.atom hletter hcs hrest).lexeme?
  have hlater : Cut ((c :: cs ++ rest).drop (c :: cs).length) us := by rwa [List.drop_left]
  rw [hx]
  exact Cut.token hlexeme hlater

/-! ### Lists -/

/-- Texts with commas between them, and a mark at the end. -/
theorem listed_spelled {c : Char} {kind : TokenKind} (hc : punctuation? c = some kind)
    {tail : List Char} {us : List Token} (htail : Scans tail us) {texts : List String}
    {pieces : List (List Token)} (h : List.Forall₂ (fun s ts => Spelled s.toList ts) texts pieces) :
    Spelled ((join ", " texts).toList ++ c :: tail) (listed kind pieces ++ us) := by
  induction h with
  | nil => exact htail.mark hc
  | cons hs hmore ih =>
    cases hmore with
    | nil =>
      have hend : Spelled (c :: tail) (mark kind :: us) := htail.mark hc
      simpa [join, listed, separated] using hs.append hend.scans (apart_of_punctuation hc tail)
    | cons =>
      have hcomma := ih.space.mark (show punctuation? ',' = some .comma from rfl)
      simpa [join, listed, separated] using hs.append hcomma.scans (apart_of_punctuation rfl _)

/-- Texts with bars between them. -/
theorem alternatives_spelled {texts : List String} {pieces : List (List Token)} (hne : texts ≠ [])
    (h : List.Forall₂ (fun s ts => Spelled s.toList ts) texts pieces) :
    Spelled (join " | " texts).toList (separated .pipe pieces) := by
  induction h with
  | nil => exact absurd rfl hne
  | cons hs hmore ih =>
    cases hmore with
    | nil => simpa [join, separated] using hs
    | @cons s' _ texts _ _ _ =>
      have hbar := ((ih (by simp)).space.mark (show punctuation? '|' = some .pipe from rfl)).space
      have hapart : Apart (' ' :: '|' :: ' ' :: (join " | " (s' :: texts)).toList) := by
        rintro d hd
        cases hd
        rfl
      simpa [join, separated] using hs.append hbar hapart

/-! ## Types -/

namespace Ty

mutual
theorem render_spelled : ∀ t : Ty, t.Writable → Spelled t.render.toList t.tokens
  | .number _, _ => word_spelled (x := "number") (.of_all 'n' ['u', 'm', 'b', 'e', 'r'] rfl rfl rfl)
  | .string _, _ => word_spelled (x := "string") (.of_all 's' ['t', 'r', 'i', 'n', 'g'] rfl rfl rfl)
  | .tuple _ items, ht => by
    have hitems := listed_spelled (show punctuation? ']' = some .closeBracket from rfl) .nil
      (renderEach_spelled items ht)
    have hopen := hitems.scans.mark (show punctuation? '[' = some .openBracket from rfl)
    simpa [render, tokens] using hopen
  | .record _ entries, ht => by
    have hentries := listed_spelled (show punctuation? '\x7d' = some .closeCurly from rfl) .nil
      (renderEntries_spelled entries ht.2)
    have hopen := hentries.scans.mark (show punctuation? '\x7b' = some .openCurly from rfl)
    have hpercent := hopen.scans.mark (show punctuation? '%' = some .percent from rfl)
    simpa [render, tokens] using hpercent
  | .function _ parameters result, ht => by
    have hparameters := listed_spelled (show punctuation? ')' = some .closeParen from rfl)
      (render_spelled result ht.2).space (renderEach_spelled parameters ht.1)
    have hopen := hparameters.scans.mark (show punctuation? '(' = some .openParen from rfl)
    simpa [render, tokens] using hopen
  | .atom a, ht => renderAtom_spelled a ht
  | .union _ atoms, ht => by
    refine alternatives_spelled ?_ (renderAtoms_spelled atoms ht.2)
    rcases atoms with - | ⟨a, atoms⟩
    · exact absurd ht.1 (by simp)
    · simp [renderAtoms]
  | .placeholder _ _, ht => ht.elim
  | .empty, ht => ht.elim
  | .ignore, ht => ht.elim
theorem renderEach_spelled : ∀ ts : List Ty, WritableEach ts →
    List.Forall₂ (fun s ts => Spelled s.toList ts) (renderEach ts) (tokensEach ts)
  | [], _ => .nil
  | t :: ts, hts => .cons (render_spelled t hts.1) (renderEach_spelled ts hts.2)
theorem renderEntries_spelled : ∀ es : List (String × Ty), WritableEntries es →
    List.Forall₂ (fun s ts => Spelled s.toList ts) (renderEntries es) (tokensEntries es)
  | [], _ => .nil
  | (x, t) :: es, ⟨⟨hx, himport, hexport⟩, ht, hes⟩ => by
    refine .cons ?_ (renderEntries_spelled es hes)
    have hcolon := (render_spelled t ht).space.mark (show punctuation? ':' = some .colon from rfl)
    simpa [entry] using (name_spelled hx himport hexport).append hcolon.scans
      (apart_of_punctuation rfl _)
theorem renderAtom_spelled : ∀ a : Atom Ty, WritableAtom a →
    Spelled (renderAtom a).toList (tokensAtom a)
  | ⟨x, [], _⟩, ha => by simpa [renderAtom, tokensAtom] using atom_spelled ha.1
  | ⟨x, t :: ts, _⟩, ⟨hx, ht, hts⟩ => by
    have harguments := listed_spelled (show punctuation? ')' = some .closeParen from rfl) .nil
      (.cons (render_spelled t ht) (renderEach_spelled ts hts))
    have hopen := harguments.scans.mark (show punctuation? '(' = some .openParen from rfl)
    simpa [renderAtom, tokensAtom] using (atom_spelled hx).append hopen.scans
      (apart_of_punctuation rfl _)
theorem renderAtoms_spelled : ∀ as : List (Atom Ty), WritableAtoms as →
    List.Forall₂ (fun s ts => Spelled s.toList ts) (renderAtoms as) (tokensAtoms as)
  | [], _ => .nil
  | a :: as, has => .cons (renderAtom_spelled a has.1) (renderAtoms_spelled as has.2)
end

/-- The text of a type is cut into the tokens of its annotation. -/
theorem tokenize_render {t : Ty} (ht : t.Writable) (file : Option String) :
    ∃ tokens, tokenize t.render file = .ok tokens ∧
      tokens.map Token.unplaced = t.tokens ++ [mark .eof] := by
  have hcut := (render_spelled t ht).scans [] _ (fun _ h => absurd h (Option.not_mem_none _)) .nil
  rw [List.append_nil] at hcut
  exact hcut (file.getD Scanner.unnamed) 0

end Ty

/-- A list that ends in `eof` is taken as it is. -/
theorem Cursor.ofTokens_at_eof (ts : List Token) {t : Token} (file : String) (limit : Nat)
    (ht : t.kind = .eof) : (ofTokens (ts ++ [t]) file limit).At limit limit (ts ++ [t]) := by
  cases ts with
  | nil => exact ⟨rfl, Nat.zero_add _, by simp [ofTokens, tokens, ht]⟩
  | cons first ts =>
    have hlast : (first :: (ts ++ [t])).getLast (by simp) = t := by simp
    exact ⟨rfl, Nat.zero_add _, by simp [ofTokens, tokens, hlast, ht]⟩

/-- The text of a type is read to its end, as the annotation that says the type. -/
theorem Ty.parse_render {t : Ty} (ht : t.Writable) {limit : Nat} (hlimit : t.height ≤ limit)
    (source : Option String) (file : String) :
    ∃ tokens node c, tokenize t.render source = .ok tokens ∧
      TypeExpr.parse .default (Cursor.ofTokens tokens file limit) = .ok node c ∧
      c.tokens.map Token.unplaced = [mark .eof] ∧ node.unplaced = t.annotation := by
  obtain ⟨tokens, htokenize, htokens⟩ := t.tokenize_render ht source
  obtain ⟨before, last, rfl, hbefore, hlast⟩ := List.map_eq_append_iff.mp htokens
  obtain ⟨eof, rfl, heof⟩ := List.map_eq_singleton_iff.mp hlast
  have hat := Cursor.ofTokens_at_eof before file limit
    (show eof.kind = .eof by rw [← eof.kind_unplaced, heof]; rfl)
  have hat' := Cursor.ofTokens_at_eof t.tokens file limit (Token.kind_mark .eof)
  -- on tokens without places the text is read as it should be, and so it is on its own tokens
  obtain ⟨node', c', hparse', hc', hnode'⟩ :=
    Ty.parse_reads t (mark .eof) [] ht hlimit rfl (by decide) _ hat'
  have hlike : (Cursor.ofTokens (before ++ [eof]) file limit).Like
      (Cursor.ofTokens (t.tokens ++ [mark .eof]) file limit) := by
    refine ⟨hat.limit_eq.trans hat'.limit_eq.symm, ?_, ?_⟩
    · have := hat.depth_add
      have := hat'.depth_add
      omega
    · rw [hat.tokens_eq, hat'.tokens_eq, ← htokens, List.map_map]
      rfl
  obtain ⟨node, c, hparse, hlike', hnode⟩ := TypeExpr.parse_mimics .default _ _ hlike _ _ hparse'
  refine ⟨before ++ [eof], node, c, htokenize, hparse, ?_, hnode.trans hnode'⟩
  rw [hlike'.tokens_eq, hc'.tokens_eq]
  rfl

/-- An annotation says only one type, up to marks. -/
theorem Ty.valueless_eq_of_annotation {t u : Ty} (ht : t.Writable) (hu : u.Writable)
    {node : TypeExpr} (htnode : node.unplaced = t.annotation)
    (hunode : node.unplaced = u.annotation) : u.valueless = t.valueless := by
  let config := Config.standard.withMaxDepth (max t.height u.height)
  let s : Checking := ⟨.start ⟨[], config⟩ "" [], .ofSources (.ofFiles [])⟩
  have hlimit : s.context.environment.config.maxDepth = max t.height u.height := rfl
  have hdepth : s.context.depth = 0 := rfl
  obtain ⟨ht', -⟩ := t.check_denotes node ht htnode s (by omega)
  obtain ⟨hu', -⟩ := u.check_denotes node hu hunode s (by omega)
  rw [← ht', ← hu']

/-- **The text of a type is an annotation of it.** The text of a writable type is cut into tokens, they
are read as a type up to the last of them, and where nothing is open around it that type is checked
as the first one with every mark taken off, without an error. So types of one text are the same up
to their marks. -/
theorem render_read_back (t : Ty) (ht : t.Writable) (limit : Nat) (hlimit : t.height ≤ limit)
    (source : Option String) (file : String) :
    (∃ tokens node c, tokenize t.render source = .ok tokens ∧
      TypeExpr.parse .default (Cursor.ofTokens tokens file limit) = .ok node c ∧
      c.kind = .eof ∧ c.ahead = [] ∧
      ∀ s : Checking, s.context.depth = 0 → s.context.environment.config.maxDepth = limit →
        (node.check s).1 = t.valueless ∧ (node.check s).2.context = s.context) ∧
    ∀ u : Ty, u.Writable → u.render = t.render → u.valueless = t.valueless := by
  constructor
  · obtain ⟨tokens, node, c, htokenize, hparse, hrest, hnode⟩ := Ty.parse_render ht hlimit source file
    obtain ⟨hcurrent, hahead⟩ := List.cons.inj hrest
    refine ⟨tokens, node, c, htokenize, hparse, ?_, List.map_eq_nil_iff.mp hahead, ?_⟩
    · rw [Cursor.kind, ← c.current.kind_unplaced, hcurrent]
      rfl
    · intro s hdepth hmax
      exact t.check_denotes node ht hnode s (by omega)
  · intro u hu hrender
    obtain ⟨tokens, node, c, htokenize, hparse, -, hnode⟩ :=
      Ty.parse_render ht (Nat.le_max_left t.height u.height) source file
    obtain ⟨tokens', node', c', htokenize', hparse', -, hnode'⟩ :=
      Ty.parse_render hu (Nat.le_max_right t.height u.height) source file
    -- the same text, so the same tokens and the same tree
    rw [hrender, htokenize] at htokenize'
    cases htokenize'
    rw [hparse] at hparse'
    cases hparse'
    exact Ty.valueless_eq_of_annotation ht hu hnode hnode'

def nestedType : Ty :=
  let pair := Ty.tuple true [.number true, .string false]
  let either := Ty.union false [⟨"none", [], true⟩, ⟨"import", [.function true [] pair], false⟩]
  .function true [.record true [("a", either), ("b_2", .tuple false [])], .number false]
    (.atom ⟨"Done", [either], true⟩)

theorem nestedType_read_back :
    nestedType.render =
      "(%\x7ba: @none | @import(() [number, string]), b_2: []\x7d, number) " ++
        "@Done(@none | @import(() [number, string]))" ∧
    nestedType.Writable ∧ nestedType.height = 6 ∧
    ∃ tokens node c, tokenize nestedType.render none = .ok tokens ∧
      TypeExpr.parse .default (Cursor.ofTokens tokens "main" 6) = .ok node c ∧
      c.kind = .eof ∧ c.ahead = [] ∧
      ∀ s : Checking, s.context.depth = 0 → s.context.environment.config.maxDepth = 6 →
        (node.check s).1 = nestedType.valueless ∧ (node.check s).2.context = s.context := by
  have hwritable : nestedType.Writable := by
    have hnone : IsWord "none" := .of_all 'n' ['o', 'n', 'e'] rfl rfl rfl
    have himport : IsWord "import" := .of_all 'i' ['m', 'p', 'o', 'r', 't'] rfl rfl rfl
    have ha : IsWord "a" := .of_all 'a' [] rfl rfl rfl
    have hb : IsWord "b_2" := .of_all 'b' ['_', '2'] rfl rfl rfl
    have hdone : IsWord "Done" := .of_all 'D' ['o', 'n', 'e'] rfl rfl rfl
    have hnames : ["a", "b_2"].Pairwise (· < ·) := by decide +kernel
    have hsorted : ∀ t u : Ty, Entries.Sorted [("a", t), ("b_2", u)] := fun _ _ => hnames
    simp [nestedType, Ty.Writable, Ty.WritableEach, Ty.WritableEntries, Ty.WritableAtom,
      Ty.WritableAtoms, hsorted, hnone, himport, ha, hb, hdone]
  refine ⟨by decide +kernel, hwritable, rfl, ?_⟩
  exact (render_read_back nestedType hwritable 6 (by decide) none "main").1

end ShapeCheck
