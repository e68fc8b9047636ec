import Mathlib.Data.List.Forall2
import ShapeCheck.Proofs.Tiling

/-!
# Literals stand for what was written

Between quotes, each character of a string can be written in several ways. A literal is gone over
twice: once to find its closing quote, once to decode it. Both take what is written for a character
as one step, whatever follows, so they agree on where it ends.
-/

namespace ShapeCheck

open Text (byteLength)

namespace Literal

/-! ## Ways to write a character -/

def shortEscapes : List (Char × Char) :=
  [('n', '\n'), ('t', '\t'), ('r', '\r'), ('0', '\x00'), ('\\', '\\'), ('"', '"')]

def lowerDigits : List Char :=
  ['0', '1', '2', '3', '4', '5', '6', '7', '8', '9', 'a', 'b', 'c', 'd', 'e', 'f']

def upperDigits : List Char :=
  ['0', '1', '2', '3', '4', '5', '6', '7', '8', '9', 'A', 'B', 'C', 'D', 'E', 'F']

def HexDigit (d : Char) (k : Nat) : Prop :=
  lowerDigits[k]? = some d ∨ upperDigits[k]? = some d

inductive Writes : Char → List Char → Prop
  | itself {c : Char} (hquote : c ≠ '"') (hescape : c ≠ '\\') : Writes c [c]
  | short {c e : Char} (h : (e, c) ∈ shortEscapes) : Writes c ['\\', e]
  | hex {c a b : Char} {m n : Nat} (ha : HexDigit a m) (hb : HexDigit b n)
      (hc : c.toNat = 16 * m + n) : Writes c ['\\', 'x', a, b]

def quoted (written : List (List Char)) : String :=
  String.ofList ('"' :: (written.flatten ++ ['"']))

theorem HexDigit.hexDigit? {d : Char} {k : Nat} (h : HexDigit d k) : hexDigit? d = some k := by
  have hlower : ∀ i : Fin 16, Literal.hexDigit? (lowerDigits.get i) = some i.val := by decide
  have hupper : ∀ i : Fin 16, Literal.hexDigit? (upperDigits.get i) = some i.val := by decide
  rcases h with h | h <;> obtain ⟨hk, rfl⟩ := List.getElem?_eq_some_iff.mp h
  · exact hlower ⟨k, hk⟩
  · exact hupper ⟨k, hk⟩

/-- A digit neither ends a literal nor starts an escape. -/
theorem HexDigit.plain {d : Char} {k : Nat} (h : HexDigit d k) : d ≠ '"' ∧ d ≠ '\\' := by
  have hd := h.hexDigit?
  constructor <;> rintro rfl <;> cases hd

/-! ## The two passes -/

section
variable {c : Char} {written : List Char}

theorem Writes.literalBody? (h : Writes c written) (rest : List Char) :
    literalBody? (written ++ rest) = (literalBody? rest).map (written ++ ·) := by
  cases h with
  | itself hquote hescape => exact literalBody?_cons hquote hescape rest
  | @short e h =>
    have he : e ≠ '\n' := by
      rintro rfl
      simp [shortEscapes] at h
    simp [ShapeCheck.literalBody?, he]
  | hex ha hb hc =>
    simp [ShapeCheck.literalBody?, literalBody?_cons ha.plain.1 ha.plain.2,
      literalBody?_cons hb.plain.1 hb.plain.2, Function.comp_def]

theorem decode_cons (h : c ≠ '\\') (rest : List Char) : decode (c :: rest) = c :: decode rest := by
  rw [decode] <;> simp_all

theorem Writes.decode (h : Writes c written) (rest : List Char) :
    decode (written ++ rest) = c :: decode rest := by
  cases h with
  | itself _ hescape => exact decode_cons hescape rest
  | short h =>
    simp only [shortEscapes, List.mem_cons, Prod.mk.injEq, List.not_mem_nil, or_false] at h
    rcases h with ⟨rfl, rfl⟩ | ⟨rfl, rfl⟩ | ⟨rfl, rfl⟩ | ⟨rfl, rfl⟩ | ⟨rfl, rfl⟩ | ⟨rfl, rfl⟩ <;>
      simp [Literal.decode, escape?]
  | hex ha hb hc =>
    simp [Literal.decode, ha.hexDigit?, hb.hexDigit?, ← hc]

end

section
variable {cs : List Char} {written : List (List Char)}

theorem literalBody?_written (h : List.Forall₂ Writes cs written) (rest : List Char) :
    literalBody? (written.flatten ++ '"' :: rest) = some written.flatten := by
  induction h with
  | nil => rfl
  | cons hc _ ih =>
    rw [List.flatten_cons, List.append_assoc, hc.literalBody?, ih]
    rfl

theorem decode_written (h : List.Forall₂ Writes cs written) : decode written.flatten = cs := by
  induction h with
  | nil => rfl
  | cons hc _ ih => rw [List.flatten_cons, hc.decode, ih]

end

end Literal

open Literal

/-- **Literals decode what was encoded.** However the characters of a string are written, the
literal is cut as one token that has the string as its value and spans the whole text, and nothing
follows but the end. -/
theorem tokenize_quoted {s : String} {written : List (List Char)}
    (h : List.Forall₂ Writes s.toList written) (hsize : (quoted written).utf8ByteSize < UInt32.size)
    (file : Option String) :
    ∃ literal final, tokenize (quoted written) file = .ok [literal, final] ∧
      literal.kind = .string ∧ literal.value = s ∧
      literal.Spans (file.getD Scanner.unnamed) 0 (quoted written).utf8ByteSize ∧
      final.kind = .eof ∧
      final.Spans (file.getD Scanner.unnamed) (quoted written).utf8ByteSize
        (quoted written).utf8ByteSize := by
  have hlength : byteLength ('"' :: (written.flatten ++ ['"'])) = (quoted written).utf8ByteSize :=
    Text.byteLength_eq _
  have hpiece : Piece '"' (written.flatten ++ ['"']) [] (some (.string, s.toList)) := by
    have := @Piece.literal written.flatten [] (literalBody?_written h [])
    rwa [decode_written h] at this
  have hcut := tokensAt_piece hpiece (file.getD Scanner.unnamed) 0
  rw [List.append_nil, Nat.zero_add, hlength, tokensAt] at hcut
  have htokens : tokenize (quoted written) file = .ok
      [⟨.string, s, .between 0 (quoted written).utf8ByteSize (file.getD Scanner.unnamed)⟩,
        .eof (.at (quoted written).utf8ByteSize (file.getD Scanner.unnamed))] := by
    unfold tokenize Scanner.start Scanner.tokens
    rw [quoted, String.toList_ofList, ← quoted, hcut]
    simp [Lexeme.tokenAt, hlength, Except.map]
  have hend : (Position.at (quoted written).utf8ByteSize (file.getD Scanner.unnamed)).offset.toNat =
      (quoted written).utf8ByteSize := Position.toNat_at hsize
  exact ⟨_, _, htokens, rfl, rfl, ⟨rfl, hend, rfl, rfl⟩, rfl, ⟨hend, hend, rfl, rfl⟩⟩

/-- A hexadecimal digit after two others, a backslash before an `x`, a raw new line and wide
characters. -/
theorem mixedEscapes_decoded :
    let s : String := String.ofList ['J', 'b', '\\', 'x', '\n', 'é', '€']
    let written : List (List Char) := [['\\', 'x', '4', 'a'], ['b'], ['\\', '\\'], ['x'], ['\n'],
      ['\\', 'x', 'E', '9'], ['€']]
    (List.Forall₂ Writes s.toList written ∧ (quoted written).utf8ByteSize = 18) ∧
      ∃ literal final, tokenize (quoted written) none = .ok [literal, final] ∧
        literal.kind = .string ∧ literal.value = s ∧ literal.Spans "shell" 0 18 := by
  intro s written
  have hwritten : List.Forall₂ Writes s.toList written := by
    rw [String.toList_ofList]
    refine .cons (.hex (m := 4) (n := 10) (.inl rfl) (.inl rfl) rfl) ?_
    refine .cons (.itself (by decide) (by decide)) (.cons (.short (by decide)) ?_)
    refine .cons (.itself (by decide) (by decide)) (.cons (.itself (by decide) (by decide)) ?_)
    refine .cons (.hex (m := 14) (n := 9) (.inr rfl) (.inl rfl) rfl) ?_
    exact .cons (.itself (by decide) (by decide)) .nil
  have hsize : (quoted written).utf8ByteSize = 18 := by decide +kernel
  obtain ⟨literal, final, htokens, hkind, hvalue, hspans, -⟩ :=
    tokenize_quoted hwritten (by rw [hsize]; decide) none
  rw [hsize] at hspans
  exact ⟨⟨hwritten, hsize⟩, literal, final, htokens, hkind, hvalue, hspans⟩

end ShapeCheck
