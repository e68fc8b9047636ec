import ShapeCheck.Proofs.Parsed

/-!
# The spans of a program nest

What a parser yields spans the tokens that it left behind, from the first to the last. This holds
for any tokens; that the tokens of a text are in order turns it into a statement about offsets.
-/

namespace ShapeCheck

open SpanTree (CoverEach)

theorem Cursor.tokens_ofTokens (before : List Token) (stop : Position) (file : String)
    (limit : Nat) :
    (ofTokens (before ++ [.eof stop]) file limit).tokens = before ++ [.eof stop] := by
  cases before with
  | nil => rfl
  | cons t ts => simp [ofTokens, Cursor.tokens, Token.eof, List.getLast_cons]

/-- Where only the last token ends a program, the cursor that stands at such a token has left all
others behind. -/
theorem Cursor.Passes.eq_of_eof {c c' : Cursor} {passed before : List Token} {final : Token}
    (h : c.Passes c' passed) (htokens : c.tokens = before ++ [final])
    (hbefore : ∀ t ∈ before, t.kind ≠ .eof) (heof : c'.kind = .eof) :
    passed = before ∧ c'.current = final := by
  have happend : passed ++ c'.current :: c'.ahead = before ++ [final] := h.tokens.symm.trans htokens
  rcases List.append_eq_append_iff.mp happend with ⟨more, rfl, hmore⟩ | ⟨more, rfl, hmore⟩
  · cases more with
    | nil => exact ⟨(List.append_nil _).symm, (List.cons.inj hmore).1⟩
    | cons t more =>
      have hcurrent : c'.current = t := (List.cons.inj hmore).1
      exact absurd heof (hbefore c'.current (by simp [hcurrent]))
  · cases more with
    | nil => exact ⟨List.append_nil _, (List.cons.inj hmore).1.symm⟩
    | cons t more => simp at hmore

theorem parseTokens_covers {before : List Token} {stop : Position} {file : String} {maxDepth : Nat}
    {tree : Stmt} (hbefore : ∀ t ∈ before, t.kind ≠ .eof)
    (h : parseTokens (before ++ [.eof stop]) file maxDepth = .ok tree) :
    ∃ body, tree = .block body ⟨.at 0 file, stop⟩ ∧ CoverEach (body.map Stmt.spans) before := by
  unfold parseTokens at h
  cases hparse : Stmt.parseAll (Cursor.ofTokens (before ++ [.eof stop]) file maxDepth) with
  | error e c =>
    rw [hparse] at h
    cases h
  | ok body c =>
    rw [hparse] at h
    cases h
    obtain ⟨⟨passed, hpassed, hbody⟩, heof⟩ :=
      (Stmt.parseAll_yields (Cursor.ofTokens_ends _ _ _) body c hparse).2.2
    have htokens := Cursor.tokens_ofTokens before stop file maxDepth
    obtain ⟨rfl, hcurrent⟩ := hpassed.eq_of_eof htokens hbefore heof
    refine ⟨body, ?_, hbody⟩
    rw [Cursor.position, hcurrent]
    rfl

/-- **Spans nest.** In a text short enough for offsets, the root spans the whole text. Every node
below spans from the start of a token to the end of one, is not empty, lies in the node above it,
and starts where its siblings before it have ended. -/
theorem spans_nested {source file : String} {maxDepth : Nat} {tree : Stmt}
    (hsize : source.utf8ByteSize < UInt32.size)
    (h : parseSource source file maxDepth = .ok tree) :
    ∃ tokens body span, tokenize source (some file) = .ok tokens ∧ tree = .block body span ∧
      span = .between 0 source.utf8ByteSize file ∧
      span.stop.offset.toNat = source.utf8ByteSize ∧
      span.Holds (body.map Stmt.spans) ∧ ∀ s ∈ body, s.spans.Nested tokens := by
  have hlength : Text.byteLength source.toList = source.utf8ByteSize := by
    rw [Text.byteLength_eq, String.ofList_toList]
  have hlexes := tokensAt_lexes file 0 source.toList
  unfold parseSource at h
  cases htokens : tokenize source (some file) with
  | error e =>
    rw [htokens] at h
    cases h
  | ok tokens =>
    rw [htokens] at h
    obtain ⟨before, rfl, hfill⟩ := hlexes.fill htokens (by omega)
    rw [Nat.zero_add, hlength] at hfill h
    obtain ⟨body, rfl, hbody⟩ := parseTokens_covers hfill.kind h
    have hstop : (Position.at source.utf8ByteSize file).offset.toNat = source.utf8ByteSize :=
      Position.toNat_at hsize
    refine ⟨_, body, _, rfl, rfl, rfl, hstop, ⟨fun n hn => ?_, ?_⟩, fun s hs => ?_⟩
    · obtain ⟨first, -, final, hfinal, hspan⟩ := hbody.ends_of_mem n hn
      rw [hspan]
      refine ⟨UInt32.le_iff_toNat_le.mpr (Nat.zero_le _), UInt32.le_iff_toNat_le.mpr ?_⟩
      exact Nat.le_trans (hfill.stop final hfinal) (Nat.le_of_eq hstop.symm)
    · exact hbody.pairwise hfill.inOrder
    · refine hbody.nested hfill.inOrder ?_ s.spans (List.mem_map_of_mem hs)
      exact fun t ht => List.mem_append_left _ ht

def layeredSource : String :=
  "export p: @some(number) | @none = @some(1);\n" ++
    "f = (x: [number], y) \x7b r = %\x7b a: x \x7d; r.a \x7d\nf([2], p).b"

theorem layeredSource_spans_nested :
    let tree := treeOf (parseSource layeredSource "main" 256)
    ∃ tokens body span, tokenize layeredSource (some "main") = .ok tokens ∧
      tree = .block body span ∧ span = .between 0 99 "main" ∧ body.length = 3 ∧
      span.Holds (body.map Stmt.spans) ∧ ∀ s ∈ body, s.spans.Nested tokens := by
  intro tree
  have hsize : layeredSource.utf8ByteSize = 99 := by decide +kernel
  have hok : (parseSource layeredSource "main" 256).isOk := by decide +kernel
  have htree : parseSource layeredSource "main" 256 = .ok tree := eq_ok_treeOf hok
  have hthree : tree.spans.children.length = 3 := by decide +kernel
  obtain ⟨tokens, body, span, htokens, hbody, hspan, -, hholds, hnested⟩ :=
    spans_nested (by rw [hsize]; decide) htree
  refine ⟨tokens, body, span, htokens, hbody, by rw [hspan, hsize], ?_, hholds, hnested⟩
  rw [hbody, Stmt.spans, Stmt.spansEach_eq] at hthree
  rwa [← List.length_map (f := Stmt.spans)]

end ShapeCheck
