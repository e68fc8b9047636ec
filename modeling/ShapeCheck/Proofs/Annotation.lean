import ShapeCheck.Check.Types
import ShapeCheck.Proofs.RoundTrip
import ShapeCheck.Proofs.Steps
import ShapeCheck.Text.Classes

/-!
# Types as annotations

A writable type is one that an annotation can say without naming a variable. Its tokens are read as
that annotation, and the annotation is checked as the type with every mark taken off. Both need as
many levels of nesting as the type is high.
-/

namespace ShapeCheck

open Token (word mark separated entry listed)

open Text (isLetter isWordChar)

def Text.IsWord (s : String) : Prop :=
  ∃ c cs, s.toList = c :: cs ∧ isLetter c = true ∧ ∀ d ∈ cs, isWordChar d = true

theorem Text.IsWord.of_all {s : String} (c : Char) (cs : List Char) (hs : s.toList = c :: cs)
    (hc : isLetter c = true) (hcs : cs.all isWordChar = true) : IsWord s :=
  ⟨c, cs, hs, hc, List.all_eq_true.mp hcs⟩

mutual
/-- An annotation can say the type. The entries of a record have names that are no reserved words;
the name of an atom may be one. -/
def Ty.Writable : Ty → Prop
  | .number _ | .string _ => True
  | .tuple _ items => Ty.WritableEach items
  | .record _ entries => Entries.Sorted entries ∧ Ty.WritableEntries entries
  | .function _ parameters result => Ty.WritableEach parameters ∧ Ty.Writable result
  | .atom a => Ty.WritableAtom a
  | .union _ atoms => 2 ≤ atoms.length ∧ Ty.WritableAtoms atoms
  | .placeholder _ _ | .empty | .ignore => False
termination_by structural t => t
def Ty.WritableEach : List Ty → Prop
  | [] => True
  | t :: ts => Ty.Writable t ∧ Ty.WritableEach ts
termination_by structural ts => ts
def Ty.WritableEntries : List (String × Ty) → Prop
  | [] => True
  | (x, t) :: es =>
    (Text.IsWord x ∧ x ≠ "import" ∧ x ≠ "export") ∧ Ty.Writable t ∧ Ty.WritableEntries es
termination_by structural es => es
def Ty.WritableAtom : Atom Ty → Prop
  | ⟨x, arguments, _⟩ => Text.IsWord x ∧ Ty.WritableEach arguments
termination_by structural a => a
def Ty.WritableAtoms : List (Atom Ty) → Prop
  | [] => True
  | a :: as => Ty.WritableAtom a ∧ Ty.WritableAtoms as
termination_by structural as => as
end

mutual
/-- How many levels of nesting the type takes. The atoms of a union stand at its own level. -/
def Ty.height : Ty → Nat
  | .number _ | .string _ | .placeholder _ _ | .empty | .ignore => 1
  | .tuple _ items => Ty.heightEach items + 1
  | .record _ entries => Ty.heightEntries entries + 1
  | .function _ parameters result => max (Ty.heightEach parameters) (Ty.height result) + 1
  | .atom a => Ty.heightAtom a + 1
  | .union _ atoms => Ty.heightAtoms atoms + 1
termination_by structural t => t
def Ty.heightEach : List Ty → Nat
  | [] => 0
  | t :: ts => max (Ty.height t) (Ty.heightEach ts)
termination_by structural ts => ts
def Ty.heightEntries : List (String × Ty) → Nat
  | [] => 0
  | (_, t) :: es => max (Ty.height t) (Ty.heightEntries es)
termination_by structural es => es
def Ty.heightAtom : Atom Ty → Nat
  | ⟨_, arguments, _⟩ => Ty.heightEach arguments
termination_by structural a => a
def Ty.heightAtoms : List (Atom Ty) → Nat
  | [] => 0
  | a :: as => max (Ty.heightAtom a) (Ty.heightAtoms as)
termination_by structural as => as
end

mutual
def Ty.valueless : Ty → Ty
  | .number _ => .number false
  | .string _ => .string false
  | .tuple _ items => .tuple false (Ty.valuelessEach items)
  | .record _ entries => .record false (Ty.valuelessEntries entries)
  | .function _ parameters result =>
    .function false (Ty.valuelessEach parameters) (Ty.valueless result)
  | .atom a => .atom (Ty.valuelessAtom a)
  | .union _ atoms => .union false (Ty.valuelessAtoms atoms)
  | .placeholder _ id => .placeholder false id
  | .empty => .empty
  | .ignore => .ignore
termination_by structural t => t
def Ty.valuelessEach : List Ty → List Ty
  | [] => []
  | t :: ts => Ty.valueless t :: Ty.valuelessEach ts
termination_by structural ts => ts
def Ty.valuelessEntries : List (String × Ty) → List (String × Ty)
  | [] => []
  | (x, t) :: es => (x, Ty.valueless t) :: Ty.valuelessEntries es
termination_by structural es => es
def Ty.valuelessAtom : Atom Ty → Atom Ty
  | ⟨x, arguments, _⟩ => ⟨x, Ty.valuelessEach arguments, false⟩
termination_by structural a => a
def Ty.valuelessAtoms : List (Atom Ty) → List (Atom Ty)
  | [] => []
  | a :: as => Ty.valuelessAtom a :: Ty.valuelessAtoms as
termination_by structural as => as
end

mutual
/-- The annotation that says the type, without places. What cannot be said has none of its own. -/
def Ty.annotation : Ty → TypeExpr
  | .number _ => .number default
  | .string _ => .string default
  | .tuple _ items => .tuple (Ty.annotationEach items) default
  | .record _ entries => .record (Ty.annotationEntries entries) default
  | .function _ parameters result =>
    .function (Ty.annotationEach parameters) (Ty.annotation result) default
  | .atom a => .atom (Ty.annotationAtom a)
  | .union _ atoms => .union (Ty.annotationAtoms atoms) default
  | .placeholder _ _ | .empty | .ignore => default
termination_by structural t => t
def Ty.annotationEach : List Ty → List TypeExpr
  | [] => []
  | t :: ts => Ty.annotation t :: Ty.annotationEach ts
termination_by structural ts => ts
def Ty.annotationEntries : List (String × Ty) → List (String × TypeExpr)
  | [] => []
  | (x, t) :: es => (x, Ty.annotation t) :: Ty.annotationEntries es
termination_by structural es => es
def Ty.annotationAtom : Atom Ty → AtomNode TypeExpr
  | ⟨x, arguments, _⟩ => ⟨x, Ty.annotationEach arguments, default⟩
termination_by structural a => a
def Ty.annotationAtoms : List (Atom Ty) → List (AtomNode TypeExpr)
  | [] => []
  | a :: as => Ty.annotationAtom a :: Ty.annotationAtoms as
termination_by structural as => as
end

mutual
/-- The tokens of the type's text. Unlike those of a tree, an atom that holds nothing has no
parentheses. -/
def Ty.tokens : Ty → List Token
  | .number _ => [word .identifier "number"]
  | .string _ => [word .identifier "string"]
  | .tuple _ items => mark .openBracket :: listed .closeBracket (Ty.tokensEach items)
  | .record _ entries =>
    mark .percent :: mark .openCurly :: listed .closeCurly (Ty.tokensEntries entries)
  | .function _ parameters result =>
    mark .openParen :: listed .closeParen (Ty.tokensEach parameters) ++ Ty.tokens result
  | .atom a => Ty.tokensAtom a
  | .union _ atoms => separated .pipe (Ty.tokensAtoms atoms)
  | .placeholder _ _ | .empty | .ignore => []
termination_by structural t => t
def Ty.tokensEach : List Ty → List (List Token)
  | [] => []
  | t :: ts => Ty.tokens t :: Ty.tokensEach ts
termination_by structural ts => ts
def Ty.tokensEntries : List (String × Ty) → List (List Token)
  | [] => []
  | (x, t) :: es => entry x (Ty.tokens t) :: Ty.tokensEntries es
termination_by structural es => es
def Ty.tokensAtom : Atom Ty → List Token
  | ⟨x, [], _⟩ => [word .atom x]
  | ⟨x, t :: ts, _⟩ =>
    word .atom x :: mark .openParen :: listed .closeParen (Ty.tokens t :: Ty.tokensEach ts)
termination_by structural a => a
def Ty.tokensAtoms : List (Atom Ty) → List (List Token)
  | [] => []
  | a :: as => Ty.tokensAtom a :: Ty.tokensAtoms as
termination_by structural as => as
end

namespace Ty

/-! ## Lists of parts -/

theorem writableEach_iff {ts : List Ty} : WritableEach ts ↔ ∀ t ∈ ts, t.Writable := by
  induction ts with
  | nil => simp [WritableEach]
  | cons t ts ih => simp [WritableEach, ih]

theorem writableEntries_iff {es : List (String × Ty)} : WritableEntries es ↔
    ∀ e ∈ es, (Text.IsWord e.1 ∧ e.1 ≠ "import" ∧ e.1 ≠ "export") ∧ e.2.Writable := by
  induction es with
  | nil => simp [WritableEntries]
  | cons e es ih => simp [WritableEntries, ih, and_assoc]

theorem writableAtoms_iff {as : List (Atom Ty)} : WritableAtoms as ↔ ∀ a ∈ as, WritableAtom a := by
  induction as with
  | nil => simp [WritableAtoms]
  | cons a as ih => simp [WritableAtoms, ih]

theorem heightEach_le_iff {ts : List Ty} {n : Nat} :
    heightEach ts ≤ n ↔ ∀ t ∈ ts, t.height ≤ n := by
  induction ts with
  | nil => simp [heightEach]
  | cons t ts ih => rw [heightEach, Nat.max_le, ih, List.forall_mem_cons]

theorem heightEntries_le_iff {es : List (String × Ty)} {n : Nat} :
    heightEntries es ≤ n ↔ ∀ e ∈ es, e.2.height ≤ n := by
  induction es with
  | nil => simp [heightEntries]
  | cons e es ih => rw [heightEntries, Nat.max_le, ih, List.forall_mem_cons]

theorem heightAtoms_le_iff {as : List (Atom Ty)} {n : Nat} :
    heightAtoms as ≤ n ↔ ∀ a ∈ as, heightAtom a ≤ n := by
  induction as with
  | nil => simp [heightAtoms]
  | cons a as ih => rw [heightAtoms, Nat.max_le, ih, List.forall_mem_cons]

theorem height_pos (t : Ty) : 0 < t.height := by
  cases t <;> simp [height]

theorem hasValue_valueless {t : Ty} (ht : t.Writable) : t.valueless.hasValue = false := by
  cases t with
  | placeholder | empty | ignore => exact ht.elim
  | atom a =>
    obtain ⟨x, arguments, v⟩ := a
    rfl
  | _ => rfl

theorem names_valuelessEntries (es : List (String × Ty)) :
    Entries.names (valuelessEntries es) = Entries.names es := by
  induction es with
  | nil => rfl
  | cons e es ih =>
    simp only [valuelessEntries, Entries.names, List.map_cons] at ih ⊢
    rw [ih]

@[simp] theorem annotationEach_eq_map (ts : List Ty) :
    annotationEach ts = ts.map annotation := by
  induction ts with
  | nil => rfl
  | cons t ts ih => simp [annotationEach, ih]

@[simp] theorem annotationEntries_eq_map (es : List (String × Ty)) :
    annotationEntries es = es.map (Prod.map id annotation) := by
  induction es with
  | nil => rfl
  | cons e es ih => simp [annotationEntries, Prod.map, ih]

@[simp] theorem annotationAtoms_eq_map (as : List (Atom Ty)) :
    annotationAtoms as = as.map annotationAtom := by
  induction as with
  | nil => rfl
  | cons a as ih => simp [annotationAtoms, ih]

@[simp] theorem tokensEach_eq_map (ts : List Ty) : tokensEach ts = ts.map tokens := by
  induction ts with
  | nil => rfl
  | cons t ts ih => simp [tokensEach, ih]

@[simp] theorem tokensEntries_eq_map (es : List (String × Ty)) :
    tokensEntries es = es.map fun e => entry e.1 e.2.tokens := by
  induction es with
  | nil => rfl
  | cons e es ih => simp [tokensEntries, ih]

@[simp] theorem tokensAtoms_eq_map (as : List (Atom Ty)) :
    tokensAtoms as = as.map tokensAtom := by
  induction as with
  | nil => rfl
  | cons a as ih => simp [tokensAtoms, ih]

/-! ## Reading -/

open ParseM

open TypeExpr (phrase parseAtomNode parseFunctionParameter parseAt unplaced unplacedAtom ofAtoms)

/-- Every writable type of at most `levels` levels is read from its tokens. A parenthesis after it
would be taken for the arguments of an atom. -/
def ReadBy (limit levels : Nat) (type : ParseM TypeExpr) : Prop :=
  ∀ t next rest, Writable t → t.height ≤ levels → TypeFollow.of? next.kind = none →
    next.kind ≠ .openParen →
      Reads limit levels type (t.tokens ++ next :: rest) (next :: rest) (·.unplaced = t.annotation)

theorem tokensAtom_begin (a : Atom Ty) :
    ∃ first more, tokensAtom a = first :: more ∧ first.kind = .atom := by
  obtain ⟨x, - | ⟨t, ts⟩, v⟩ := a
  · exact ⟨_, _, rfl, rfl⟩
  · exact ⟨_, _, rfl, rfl⟩

/-- A type begins with a token that starts types. If that is a name, it is the whole type. -/
theorem tokens_begin {t : Ty} (ht : t.Writable) : ∃ first more, t.tokens = first :: more ∧
    (TypeStart.of? first.kind).isSome ∧ (first.kind = .identifier → more = []) := by
  have hatom : ∀ a rest, ∃ first more, tokensAtom a ++ rest = first :: more ∧
      (TypeStart.of? first.kind).isSome ∧ (first.kind = .identifier → more = []) := by
    intro a rest
    obtain ⟨first, more, htokens, hkind⟩ := tokensAtom_begin a
    refine ⟨first, more ++ rest, ?_, by rw [hkind]; rfl, by rw [hkind]; nofun⟩
    rw [htokens, List.cons_append]
  cases t with
  | number | string => exact ⟨_, _, rfl, rfl, fun _ => rfl⟩
  | tuple | record | function => exact ⟨_, _, rfl, rfl, nofun⟩
  | atom a => simpa [tokens] using hatom a []
  | union v atoms =>
    rcases atoms with - | ⟨a, atoms⟩
    · exact absurd ht.1 (by simp)
    · exact hatom a _
  | placeholder | empty | ignore => exact ht.elim

theorem tokens_start {t : Ty} {closing : TokenKind} (ht : t.Writable)
    (hclosing : TypeStart.of? closing = none) :
    ∃ first more, t.tokens = first :: more ∧ first.kind ≠ closing := by
  obtain ⟨first, more, htokens, hstart, -⟩ := tokens_begin ht
  refine ⟨first, more, htokens, ?_⟩
  rintro rfl
  rw [hclosing] at hstart
  cases hstart

section
variable {limit levels : Nat} {type : ParseM TypeExpr} (h : ReadBy limit levels type)
include h

/-- A part of a list, up to a comma or the end of the list. -/
theorem ReadBy.part {t : Ty} {next : Token} {rest : List Token} {closing : TokenKind}
    (ht : t.Writable) (hheight : t.height ≤ levels) (hfollow : TypeFollow.of? closing = none)
    (hopen : closing ≠ .openParen) (hnext : next.kind = .comma ∨ next.kind = closing) :
    Reads limit levels type (t.tokens ++ next :: rest) (next :: rest)
      (·.unplaced = t.annotation) := by
  refine h t next rest ht hheight ?_ ?_
  · rcases hnext with hnext | hnext <;> rw [hnext]
    · rfl
    · exact hfollow
  · rcases hnext with hnext | hnext <;> rw [hnext]
    · decide
    · exact hopen

theorem parseAtomNode_reads {a : Atom Ty} {next : Token} (rest : List Token)
    (ha : WritableAtom a) (hheight : heightAtom a ≤ levels) (hnext : next.kind ≠ .openParen) :
    Reads limit levels (parseAtomNode type) (tokensAtom a ++ next :: rest) (next :: rest)
      (unplacedAtom · = annotationAtom a) := by
  obtain ⟨x, - | ⟨t, ts⟩, v⟩ := a
  · refine (expectOr_reads rfl (by simp)).bind fun token htoken => ?_
    subst htoken
    have hnone : Reads limit levels (arguments type) (next :: rest) (next :: rest) (· = []) := by
      refine .kind ?_
      rw [if_neg hnext]
      exact .pure rfl
    refine hnone.bind fun arguments harguments => .spanFrom fun span => .pure ?_
    subst harguments
    rfl
  · have hmem := writableEach_iff.mp ha.2
    have hlow := heightEach_le_iff.mp hheight
    rw [show tokensAtom ⟨x, t :: ts, v⟩ =
      word .atom x :: mark .openParen :: listed .closeParen ((t :: ts).map tokens) by
        rw [tokensAtom, tokensEach_eq_map, List.map_cons]]
    refine (expectOr_reads rfl (by simp)).bind fun token htoken => ?_
    subst htoken
    refine (arguments_reads_as unplaced annotation (fun u hu => tokens_start (hmem u hu) rfl)
      (fun u hu _ _ hnext => h.part (hmem u hu) (hlow u hu) rfl (by decide) hnext)
      (by simp)).bind fun arguments harguments => ?_
    refine .spanFrom fun span => .pure ?_
    simp only [unplacedAtom, TypeExpr.unplacedEach_eq_map, annotationAtom, annotationEach_eq_map,
      harguments]
    rfl

theorem parseFunctionParameter_reads {t : Ty} {next : Token} {rest : List Token}
    (ht : t.Writable) (hheight : t.height ≤ levels)
    (hnext : next.kind = .comma ∨ next.kind = .closeParen) :
    Reads limit levels (parseFunctionParameter type) (t.tokens ++ next :: rest) (next :: rest)
      (·.unplaced = t.annotation) := by
  refine .get fun c hc => ?_
  have hplain : ¬ (c.kind = .identifier ∧ c.peekKind 1 = .colon) := by
    obtain ⟨first, more, htokens, -, hmore⟩ := tokens_begin ht
    rw [htokens] at hc
    refine TypeExpr.not_named hc (fun hfirst second hmem => ?_) ?_
    · rw [hmore hfirst] at hmem
      cases hmem
    · rcases hnext with hnext | hnext <;> rw [hnext] <;> decide
  dsimp only
  rw [if_neg hplain]
  exact h.part ht hheight rfl (by decide) hnext

theorem atom_spells {a : Atom Ty} (next : Token) (rest : List Token) (ha : WritableAtom a)
    (hheight : heightAtom a ≤ levels) (hnext : next.kind ≠ .openParen) :
    (phrase type).Spells limit levels (tokensAtom a ++ next :: rest) (next :: rest)
      (·.unplaced = .atom (annotationAtom a)) := by
  have hreads := parseAtomNode_reads h rest ha hheight hnext
  obtain ⟨first, more, htokens, hkind⟩ := tokensAtom_begin a
  rw [htokens] at hreads ⊢
  refine .start TypeStart.atom (by rw [hkind]; rfl) (hreads.bind fun b hb => .pure ?_)
  rw [unplaced, hb]

/-- Atoms that go on a union, after those that were read before them. -/
theorem atoms_spell {ts rest : List Token} {next : Token} (hnext : next.kind ≠ .openParen) :
    ∀ more before : List (Atom Ty), before ≠ [] →
      (∀ a ∈ more, WritableAtom a ∧ heightAtom a ≤ levels) →
      (phrase type).Spells limit levels ts
        ((more.map tokensAtom).flatMap (mark .pipe :: ·) ++ next :: rest)
        (·.unplaced = ofAtoms (before.map annotationAtom)) →
      (phrase type).Spells limit levels ts (next :: rest)
        (·.unplaced = ofAtoms ((before ++ more).map annotationAtom))
  | [], before, _, _, hspells => by
    rw [List.append_nil]
    exact hspells
  | a :: more, before, hbefore, hmore, hspells => by
    rw [show before ++ a :: more = (before ++ [a]) ++ more by simp]
    refine atoms_spell hnext more (before ++ [a]) (by simp) (fun b hb => hmore b (by simp [hb])) ?_
    rw [List.map_cons, List.flatMap_cons, List.cons_append, List.cons_append, List.append_assoc]
      at hspells
    rw [List.map_append, List.map_singleton]
    have hmarks : ∃ t us, (more.map tokensAtom).flatMap (mark .pipe :: ·) ++ next :: rest =
        t :: us ∧ t.kind ≠ .openParen := by
      cases more with
      | nil => exact ⟨next, rest, rfl, hnext⟩
      | cons b more => exact ⟨mark .pipe, _, rfl, nofun⟩
    obtain ⟨t, us, hmarks, ht⟩ := hmarks
    rw [hmarks] at hspells ⊢
    have ha := hmore a (by simp)
    exact TypeExpr.union_spells (by simpa using hbefore) hspells
      (parseAtomNode_reads h _ ha.1 ha.2 ht)

/-- From its first token on, a type is read up to where it can be continued. -/
theorem spells (t : Ty) (next : Token) (rest : List Token) (ht : t.Writable)
    (hheight : t.height ≤ levels + 1) (hfollow : TypeFollow.of? next.kind = none)
    (hnext : next.kind ≠ .openParen) :
    (phrase type).Spells limit levels (t.tokens ++ next :: rest) (next :: rest)
      (·.unplaced = t.annotation) := by
  cases t with
  | number v => exact TypeExpr.symbol_spells (t := .number default) (by simp) fun _ => rfl
  | string v => exact TypeExpr.symbol_spells (t := .string default) (by simp) fun _ => rfl
  | tuple v items =>
    have hitems := writableEach_iff.mp ht
    have hlow := heightEach_le_iff.mp (Nat.le_of_succ_le_succ hheight)
    rw [tokens, tokensEach_eq_map]
    refine .start TypeStart.tuple rfl ?_
    refine (advance_reads (by simp)).bind fun _ _ => ?_
    refine (commaList_reads_as unplaced annotation (by decide)
      (fun u hu => tokens_start (hitems u hu) rfl)
      (fun u hu _ _ hnext => h.part (hitems u hu) (hlow u hu) rfl (by decide) hnext)
      (by simp)).bind fun items' hitems' => ?_
    refine .spanFrom fun span => .pure ?_
    simp only [unplaced, TypeExpr.unplacedEach_eq_map, annotation, annotationEach_eq_map, hitems']
  | record v entries =>
    have hentries := writableEntries_iff.mp ht.2
    have hlow := heightEntries_le_iff.mp (Nat.le_of_succ_le_succ hheight)
    have hne : ∀ {x y : String}, x < y → x ≠ y := fun hlt heq => String.lt_irrefl _ (heq ▸ hlt)
    have hnames : (entries.map Prod.fst).Nodup := List.Pairwise.imp hne ht.1
    rw [tokens, tokensEntries_eq_map]
    refine .start TypeStart.record rfl ?_
    refine .get fun c hc => ?_
    refine (entries_reads_as unplaced annotation hnames
      (fun e he _ _ hnext => h.part (hentries e he).2 (hlow e he) rfl (by decide) hnext)
      (by simp)).bind fun entries' hentries' => ?_
    refine .spanFrom fun span => .pure ?_
    simp only [unplaced, TypeExpr.unplacedEntries_eq_map, annotation, annotationEntries_eq_map,
      hentries']
  | function v parameters result =>
    have hparameters := writableEach_iff.mp ht.1
    obtain ⟨hparts, hresult⟩ := Nat.max_le.mp (Nat.le_of_succ_le_succ hheight)
    have hlow := heightEach_le_iff.mp hparts
    rw [tokens, tokensEach_eq_map, List.append_assoc]
    refine .start TypeStart.function rfl ?_
    refine (advance_reads (by simp)).bind fun _ _ => ?_
    refine (commaList_reads_as unplaced annotation (by decide)
      (fun u hu => tokens_start (hparameters u hu) rfl)
      (fun u hu _ _ hnext => parseFunctionParameter_reads h (hparameters u hu) (hlow u hu) hnext)
      (by simp)).bind fun parameters' hparameters' => ?_
    refine (h result next rest ht.2 hresult hfollow hnext).bind fun result' hresult' => ?_
    refine .spanFrom fun span => .pure ?_
    simp only [unplaced, TypeExpr.unplacedEach_eq_map, annotation, annotationEach_eq_map,
      hparameters', hresult']
  | atom a => exact atom_spells h next rest ht (Nat.le_of_succ_le_succ hheight) hnext
  | union v atoms =>
    have hatoms := writableAtoms_iff.mp ht.2
    have hlow := heightAtoms_le_iff.mp (Nat.le_of_succ_le_succ hheight)
    rcases atoms with - | ⟨a, - | ⟨b, more⟩⟩
    · exact absurd ht.1 (by simp)
    · exact absurd ht.1 (by simp)
    have hfirst := atom_spells h (mark .pipe)
      (tokensAtom b ++ ((more.map tokensAtom).flatMap (mark .pipe :: ·) ++ next :: rest))
      (hatoms a (by simp)) (hlow a (by simp)) (by decide)
    have hall := atoms_spell h hnext (b :: more) [a] (by simp)
      (fun c hc => ⟨hatoms c (by simp [hc]), hlow c (by simp [hc])⟩)
      (by simpa [ofAtoms] using hfirst)
    rw [tokens, tokensAtoms_eq_map, annotation, annotationAtoms_eq_map]
    simpa [separated, ofAtoms] using hall
  | placeholder | empty | ignore => exact ht.elim

end

theorem parseAt_reads {limit : Nat} : ∀ levels : Nat, ReadBy limit levels (parseAt levels .default)
  | 0, t, _, _, _, hheight, _, _ => absurd hheight (by have := t.height_pos; omega)
  | levels + 1, t, next, rest, ht, hheight, hfollow, hnext => by
    refine nested_reads ?_
    rw [← TypeExpr.body_phrase]
    exact (spells (parseAt_reads levels) t next rest ht hheight hfollow hnext).body hfollow

theorem parse_reads {limit levels : Nat} :
    ReadBy limit levels (TypeExpr.parse .default) := by
  intro t next rest ht hheight hfollow hnext
  refine .get fun c hc => ?_
  have hlevels : c.limit - c.depth = levels := by
    have := hc.limit_eq
    have := hc.depth_add
    omega
  rw [hlevels]
  exact parseAt_reads levels t next rest ht hheight hfollow hnext

end Ty

/-! ## Checking -/

theorem Entries.insert_of_lt {α : Type} {name : String} {value : α} {es : Entries α}
    (h : ∀ x ∈ es.names, x < name) : es.insert name value = es ++ [(name, value)] := by
  induction es with
  | nil => rfl
  | cons e es ih =>
    have hlt : e.1 < name := h e.1 (by simp [names])
    have hge : ¬ name < e.1 := fun hgt => String.lt_irrefl _ (String.lt_trans hlt hgt)
    have hne : ¬ name = e.1 := fun heq => String.lt_irrefl _ (heq ▸ hlt)
    rw [insert, if_neg hge, if_neg hne, ih fun x hx => h x (by simp [names] at hx ⊢; exact Or.inr hx)]
    rfl

/-- Entries that ascend already are put in order as they are. -/
theorem Entries.ofList_of_sorted {α : Type} {es : Entries α} (h : es.Sorted) :
    Entries.ofList es = es := by
  suffices key : ∀ (after before : Entries α), Entries.Sorted (before ++ after) →
      after.foldl (fun m e => m.insert e.1 e.2) before = before ++ after from key es [] h
  intro after
  induction after with
  | nil => intro before _; simp
  | cons e after ih =>
    intro before hsorted
    have hlast : ∀ x ∈ before.names, x < e.1 := by
      intro x hx
      have hnames : Entries.names (before ++ e :: after) = before.names ++ e.1 :: Entries.names after := by
        simp [names]
      rw [Sorted, hnames] at hsorted
      exact (List.pairwise_append.mp hsorted).2.2 x hx e.1 (by simp)
    rw [List.foldl_cons, Entries.insert_of_lt hlast, ih _ (by simpa using hsorted)]
    simp

/-- Wherever `need` levels of nesting are left, the check yields `a` and leaves the context as it
was. -/
def CheckM.Denotes {α : Type} (need : Nat) (m : CheckM α) (a : α) : Prop :=
  ∀ s : Checking, s.context.depth + need ≤ s.context.environment.config.maxDepth →
    (m s).1 = a ∧ (m s).2.context = s.context

namespace CheckM

variable {α β : Type}

theorem Denotes.pure (need : Nat) (a : α) : Denotes need (Pure.pure a) a :=
  fun _ _ => ⟨rfl, rfl⟩

theorem Denotes.bind {need : Nat} {m : CheckM α} {f : α → CheckM β} {a : α} {b : β}
    (hm : Denotes need m a) (hf : Denotes need (f a) b) : Denotes need (m >>= f) b := by
  intro s hs
  obtain ⟨hvalue, hcontext⟩ := hm s hs
  have hnext := hf (m s).2 (by rw [hcontext]; exact hs)
  rw [bind_run, hvalue]
  exact ⟨hnext.1, hnext.2.trans hcontext⟩

theorem Denotes.mono {need more : Nat} {m : CheckM α} {a : α} (h : Denotes need m a)
    (hle : need ≤ more) : Denotes more m a :=
  fun s hs => h s (by omega)

theorem Denotes.nested {need : Nat} {m : CheckM Ty} {t : Ty} (h : Denotes need m t) (span : Span) :
    Denotes (need + 1) (nested span m) t := by
  intro s hs
  have hroom : s.context.enter? = some { s.context with depth := s.context.depth + 1 } := by
    rw [Context.enter?, if_neg (by omega)]
  obtain ⟨hvalue, hcontext⟩ := h (s.move .changed { s.context with depth := s.context.depth + 1 })
    (by show s.context.depth + 1 + need ≤ s.context.environment.config.maxDepth; omega)
  rw [nested_some hroom]
  refine ⟨hvalue, ?_⟩
  show Context.leave _ = s.context
  rw [hcontext]
  rfl

end CheckM

open CheckM

mutual
/-- An annotation is checked as the type that it says. -/
theorem Ty.check_denotes : ∀ (t : Ty) (node : TypeExpr), t.Writable →
    node.unplaced = t.annotation → Denotes t.height node.check t.valueless
  | .number _, node, _, hnode => by
    cases node with
    | number span => exact (Denotes.pure 0 _).nested span
    | _ => cases hnode
  | .string _, node, _, hnode => by
    cases node with
    | string span => exact (Denotes.pure 0 _).nested span
    | _ => cases hnode
  | .tuple _ items, node, ht, hnode => by
    cases node with
    | tuple nodes span =>
      have hnodes := (TypeExpr.tuple.inj hnode).1
      refine Denotes.nested ?_ span
      exact (Ty.checkEach_denotes items nodes ht hnodes).bind (.pure _ _)
    | _ => cases hnode
  | .record _ entries, node, ht, hnode => by
    cases node with
    | record nodes span =>
      have hnodes := (TypeExpr.record.inj hnode).1
      have hsorted : Entries.Sorted (Ty.valuelessEntries entries) := by
        rw [Entries.Sorted, Ty.names_valuelessEntries]
        exact ht.1
      rw [Ty.valueless, ← Entries.ofList_of_sorted hsorted]
      refine Denotes.nested ?_ span
      exact (Ty.checkEntries_denotes entries nodes ht.2 hnodes).bind (.pure _ _)
    | _ => cases hnode
  | .function _ parameters result, node, ht, hnode => by
    cases node with
    | function nodes node span =>
      obtain ⟨hnodes, hnode', -⟩ := TypeExpr.function.inj hnode
      have hparameters := Ty.checkEach_denotes parameters nodes ht.1 hnodes
      have hresult := Ty.check_denotes result node ht.2 hnode'
      refine Denotes.nested ?_ span
      refine (hparameters.mono (Nat.le_max_left _ _)).bind ?_
      refine (hresult.mono (Nat.le_max_right _ _)).bind ?_
      rw [Ty.hasValue_valueless ht.2, Ty.valueless]
      exact .pure _ _
    | _ => cases hnode
  | .atom a, node, ht, hnode => by
    cases node with
    | atom b =>
      have hatom := TypeExpr.atom.inj hnode
      refine Denotes.nested ?_ b.span
      exact (Ty.checkAtom_denotes a b ht hatom).bind (.pure _ _)
    | _ => cases hnode
  | .union _ atoms, node, ht, hnode => by
    cases node with
    | union nodes span =>
      have hnodes := (TypeExpr.union.inj hnode).1
      refine Denotes.nested ?_ span
      exact (Ty.checkAtoms_denotes atoms nodes ht.2 hnodes).bind (.pure _ _)
    | _ => cases hnode
  | .placeholder _ _, _, ht, _ => ht.elim
  | .empty, _, ht, _ => ht.elim
  | .ignore, _, ht, _ => ht.elim
theorem Ty.checkEach_denotes : ∀ (ts : List Ty) (nodes : List TypeExpr), Ty.WritableEach ts →
    TypeExpr.unplacedEach nodes = Ty.annotationEach ts →
      Denotes (Ty.heightEach ts) (TypeExpr.checkEach nodes) (Ty.valuelessEach ts)
  | [], [], _, _ => .pure _ _
  | t :: ts, node :: nodes, hts, hnodes => by
    obtain ⟨hnode, hnodes⟩ := List.cons.inj hnodes
    have ht := Ty.check_denotes t node hts.1 hnode
    have hmore := Ty.checkEach_denotes ts nodes hts.2 hnodes
    refine (ht.mono (Nat.le_max_left _ _)).bind ?_
    exact (hmore.mono (Nat.le_max_right _ _)).bind (.pure _ _)
theorem Ty.checkEntries_denotes : ∀ (es : List (String × Ty)) (nodes : List (String × TypeExpr)),
    Ty.WritableEntries es → TypeExpr.unplacedEntries nodes = Ty.annotationEntries es →
      Denotes (Ty.heightEntries es) (TypeExpr.checkEntries nodes) (Ty.valuelessEntries es)
  | [], [], _, _ => .pure _ _
  | (x, t) :: es, (y, node) :: nodes, hes, hnodes => by
    obtain ⟨hentry, hnodes⟩ := List.cons.inj hnodes
    obtain ⟨hname, hnode⟩ := Prod.mk.inj hentry
    have ht := Ty.check_denotes t node hes.2.1 hnode
    have hmore := Ty.checkEntries_denotes es nodes hes.2.2 hnodes
    rw [hname]
    refine (ht.mono (Nat.le_max_left _ _)).bind ?_
    exact (hmore.mono (Nat.le_max_right _ _)).bind (.pure _ _)
theorem Ty.checkAtom_denotes : ∀ (a : Atom Ty) (node : AtomNode TypeExpr), Ty.WritableAtom a →
    TypeExpr.unplacedAtom node = Ty.annotationAtom a →
      Denotes (Ty.heightAtom a) (TypeExpr.checkAtom node) (Ty.valuelessAtom a)
  | ⟨x, arguments, _⟩, ⟨y, nodes, _⟩, ha, hnode => by
    obtain ⟨hname, hnodes, -⟩ := AtomNode.mk.inj hnode
    rw [hname]
    exact (Ty.checkEach_denotes arguments nodes ha.2 hnodes).bind (.pure _ _)
theorem Ty.checkAtoms_denotes : ∀ (as : List (Atom Ty)) (nodes : List (AtomNode TypeExpr)),
    Ty.WritableAtoms as → TypeExpr.unplacedAtoms nodes = Ty.annotationAtoms as →
      Denotes (Ty.heightAtoms as) (TypeExpr.checkAtoms nodes) (Ty.valuelessAtoms as)
  | [], [], _, _ => .pure _ _
  | a :: as, node :: nodes, has, hnodes => by
    obtain ⟨hnode, hnodes⟩ := List.cons.inj hnodes
    have ha := Ty.checkAtom_denotes a node has.1 hnode
    have hmore := Ty.checkAtoms_denotes as nodes has.2 hnodes
    refine (ha.mono (Nat.le_max_left _ _)).bind ?_
    exact (hmore.mono (Nat.le_max_right _ _)).bind (.pure _ _)
end

end ShapeCheck
