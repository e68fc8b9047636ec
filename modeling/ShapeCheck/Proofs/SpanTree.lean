import ShapeCheck.Proofs.Lexing
import ShapeCheck.Tree

/-!
# Spans that nest

A tree without everything but its spans is a `SpanTree`. Its spans nest if every node lies in the
one above it and the children of a node stand side by side, in the order of the text.

A span is two offsets, from which nothing follows about what lies between them. `Covers` says more:
the node has a run of tokens of its own, from whose first to whose last it spans, and its children
have runs of theirs in it, one after the other. Since tokens do not overlap, neither do the runs.
-/

namespace ShapeCheck

inductive SpanTree where
  | node (span : Span) (children : List SpanTree)

namespace SpanTree

def span : SpanTree → Span
  | node s _ => s

def children : SpanTree → List SpanTree
  | node _ ns => ns

end SpanTree

/-! ## The spans of a tree -/

mutual
def TypeExpr.spans : TypeExpr → SpanTree
  | .name _ s | .number s | .string s => .node s []
  | .tuple items s => .node s (TypeExpr.spansEach items)
  | .record entries s => .node s (TypeExpr.spansEntries entries)
  | .access t _ s => .node s [t.spans]
  | .function parameters result s => .node s (TypeExpr.spansEach parameters ++ [result.spans])
  | .atom a => TypeExpr.spansAtom a
  | .union atoms s => .node s (TypeExpr.spansAtoms atoms)
termination_by structural t => t
def TypeExpr.spansEach : List TypeExpr → List SpanTree
  | [] => []
  | t :: ts => t.spans :: TypeExpr.spansEach ts
termination_by structural ts => ts
def TypeExpr.spansEntries : List (String × TypeExpr) → List SpanTree
  | [] => []
  | (_, t) :: es => t.spans :: TypeExpr.spansEntries es
termination_by structural es => es
def TypeExpr.spansAtom : AtomNode TypeExpr → SpanTree
  | ⟨_, arguments, s⟩ => .node s (TypeExpr.spansEach arguments)
termination_by structural a => a
def TypeExpr.spansAtoms : List (AtomNode TypeExpr) → List SpanTree
  | [] => []
  | a :: as => TypeExpr.spansAtom a :: TypeExpr.spansAtoms as
termination_by structural as => as
end

def TypeExpr.spansDeclared (declared : Option TypeExpr) : List SpanTree :=
  declared.toList.map TypeExpr.spans

def Parameter.spans (p : Parameter) : SpanTree :=
  .node p.span (TypeExpr.spansDeclared p.declared)

mutual
def Expr.spans : Expr → SpanTree
  | .name _ s | .number _ s | .string _ s | .importFile _ s => .node s []
  | .tuple items s => .node s (Expr.spansEach items)
  | .record entries s => .node s (Expr.spansEntries entries)
  | .access e _ s => .node s [e.spans]
  | .function parameters body s => .node s (parameters.map Parameter.spans ++ [body.spans])
  | .call callee arguments s => .node s (callee.spans :: Expr.spansEach arguments)
  | .atom _ arguments s => .node s (Expr.spansEach arguments)
termination_by structural e => e
def Expr.spansEach : List Expr → List SpanTree
  | [] => []
  | e :: es => e.spans :: Expr.spansEach es
termination_by structural es => es
def Expr.spansEntries : List (String × Expr) → List SpanTree
  | [] => []
  | (_, e) :: es => e.spans :: Expr.spansEntries es
termination_by structural es => es
def Expr.spansValue : Option Expr → List SpanTree
  | none => []
  | some e => [e.spans]
termination_by structural e => e
def Stmt.spansAssignment : Assignment Expr → SpanTree
  | ⟨_, declared, value, s⟩ => .node s (TypeExpr.spansDeclared declared ++ Expr.spansValue value)
termination_by structural a => a
/-- An expression, a type or an assignment is no other node as a statement. -/
def Stmt.spans : Stmt → SpanTree
  | .block body s => .node s (Stmt.spansEach body)
  | .assign a => Stmt.spansAssignment a
  | .exported a s => .node s [Stmt.spansAssignment a]
  | .expr e => e.spans
  | .type t => t.spans
termination_by structural s => s
def Stmt.spansEach : List Stmt → List SpanTree
  | [] => []
  | s :: ss => s.spans :: Stmt.spansEach ss
termination_by structural ss => ss
end

theorem TypeExpr.spansEach_eq (ts : List TypeExpr) : spansEach ts = ts.map spans := by
  induction ts with
  | nil => rfl
  | cons t ts ih => rw [spansEach, ih, List.map_cons]

theorem TypeExpr.spansEntries_eq (es : List (String × TypeExpr)) :
    spansEntries es = es.map fun e => e.2.spans := by
  induction es with
  | nil => rfl
  | cons e es ih => rw [spansEntries, ih, List.map_cons]

theorem TypeExpr.spansAtoms_eq (as : List (AtomNode TypeExpr)) :
    spansAtoms as = as.map spansAtom := by
  induction as with
  | nil => rfl
  | cons a as ih => rw [spansAtoms, ih, List.map_cons]

theorem TypeExpr.span_spans (t : TypeExpr) : t.spans.span = t.span := by
  cases t with
  | atom a => cases a; rfl
  | _ => rfl

theorem Expr.spansEach_eq (es : List Expr) : spansEach es = es.map spans := by
  induction es with
  | nil => rfl
  | cons e es ih => rw [spansEach, ih, List.map_cons]

theorem Expr.spansEntries_eq (es : List (String × Expr)) :
    spansEntries es = es.map fun e => e.2.spans := by
  induction es with
  | nil => rfl
  | cons e es ih => rw [spansEntries, ih, List.map_cons]

theorem Expr.span_spans (e : Expr) : e.spans.span = e.span := by
  cases e <;> rfl

theorem Stmt.spansEach_eq (ss : List Stmt) : spansEach ss = ss.map spans := by
  induction ss with
  | nil => rfl
  | cons s ss ih => rw [spansEach, ih, List.map_cons]

/-! ## Nesting -/

/-- The children lie in the span, each behind the ones before it. -/
structure Span.Holds (span : Span) (children : List SpanTree) : Prop where
  within : ∀ n ∈ children,
    span.start.offset ≤ n.span.start.offset ∧ n.span.stop.offset ≤ span.stop.offset
  ordered : children.Pairwise fun n m => n.span.stop.offset ≤ m.span.start.offset

namespace SpanTree

/-- The node and all below it span from the start of a token to the end of one, and hold their
children. -/
inductive Nested (tokens : List Token) : SpanTree → Prop
  | node {span : Span} {children : List SpanTree} : span.start.offset < span.stop.offset →
    (∃ t ∈ tokens, t.span.start = span.start) → (∃ t ∈ tokens, t.span.stop = span.stop) →
    span.Holds children → (∀ n ∈ children, Nested tokens n) → Nested tokens (.node span children)

/-! ## Runs of tokens -/

mutual
/-- The node spans from the first of the tokens to the last, and its children have runs in them. -/
def Covers : SpanTree → List Token → Prop
  | node span children, tokens =>
    (∃ first ∈ tokens.head?, ∃ final ∈ tokens.getLast?,
      span = ⟨first.span.start, final.span.stop⟩) ∧ CoverEach children tokens
termination_by structural n => n
/-- Each node covers a run of the tokens, behind the runs of the nodes before it. -/
def CoverEach : List SpanTree → List Token → Prop
  | [], _ => True
  | n :: ns, tokens =>
    ∃ gap own rest, tokens = gap ++ (own ++ rest) ∧ Covers n own ∧ CoverEach ns rest
termination_by structural ns => ns
end

section
variable {n : SpanTree} {ns ms : List SpanTree} {tokens first second : List Token}

theorem Covers.span_eq (h : n.Covers tokens) : ∃ first ∈ tokens.head?, ∃ final ∈ tokens.getLast?,
    n.span = ⟨first.span.start, final.span.stop⟩ := by
  cases n
  exact h.1

theorem Covers.children (h : n.Covers tokens) : CoverEach n.children tokens := by
  cases n
  exact h.2

theorem CoverEach.behind (gap : List Token) (h : CoverEach ns tokens) :
    CoverEach ns (gap ++ tokens) := by
  cases ns with
  | nil => trivial
  | cons n ns =>
    obtain ⟨gap', own, rest, rfl, hn, hns⟩ := h
    exact ⟨gap ++ gap', own, rest, by rw [List.append_assoc], hn, hns⟩

theorem CoverEach.append (h : CoverEach ns first) (h' : CoverEach ms second) :
    CoverEach (ns ++ ms) (first ++ second) := by
  induction ns generalizing first with
  | nil => exact h'.behind first
  | cons n ns ih =>
    obtain ⟨gap, own, rest, rfl, hn, hns⟩ := h
    exact ⟨gap, own, rest ++ second, by simp, hn, ih hns⟩

theorem Covers.each (h : n.Covers tokens) : CoverEach [n] tokens :=
  ⟨[], tokens, [], by simp, h, trivial⟩

theorem CoverEach.ends_of_mem (h : CoverEach ns tokens) : ∀ n ∈ ns,
    ∃ first ∈ tokens, ∃ final ∈ tokens, n.span = ⟨first.span.start, final.span.stop⟩ := by
  induction ns generalizing tokens with
  | nil => simp
  | cons n ns ih =>
    obtain ⟨gap, own, rest, rfl, hn, hns⟩ := h
    refine List.forall_mem_cons.mpr ⟨?_, fun m hm => ?_⟩
    · obtain ⟨first, hfirst, final, hfinal, hspan⟩ := hn.span_eq
      have hfirst := List.mem_of_mem_head? hfirst
      have hfinal := List.mem_of_mem_getLast? hfinal
      exact ⟨first, by simp [hfirst], final, by simp [hfinal], hspan⟩
    · obtain ⟨first, hfirst, final, hfinal, hspan⟩ := ih hns m hm
      exact ⟨first, by simp [hfirst], final, by simp [hfinal], hspan⟩

end

end SpanTree

/-! ## Runs of tokens that are in order -/

namespace Token.InOrder

variable {tokens : List Token} {t : Token}

theorem sublist {part : List Token} (h : InOrder tokens) (hsub : part.Sublist tokens) :
    InOrder part :=
  ⟨fun t ht => h.nonempty t (hsub.subset ht), h.ordered.sublist hsub⟩

theorem le_of_append {first second : List Token} (h : InOrder (first ++ second)) {u : Token}
    (ht : t ∈ first) (hu : u ∈ second) : t.span.stop.offset ≤ u.span.start.offset :=
  (List.pairwise_append.mp h.ordered).2.2 t ht u hu

theorem head_le (h : InOrder tokens) {first : Token} (hfirst : first ∈ tokens.head?)
    (ht : t ∈ tokens) : first.span.start.offset ≤ t.span.start.offset := by
  obtain ⟨later, rfl⟩ := List.head?_eq_some_iff.mp hfirst
  rcases List.mem_cons.mp ht with rfl | ht
  · exact UInt32.le_refl _
  · have hlt := h.nonempty first (by simp)
    exact UInt32.le_of_lt (UInt32.lt_of_lt_of_le hlt ((List.pairwise_cons.mp h.ordered).1 t ht))

theorem le_last (h : InOrder tokens) {final : Token} (hfinal : final ∈ tokens.getLast?)
    (ht : t ∈ tokens) : t.span.stop.offset ≤ final.span.stop.offset := by
  obtain ⟨earlier, rfl⟩ := List.getLast?_eq_some_iff.mp hfinal
  rcases List.mem_append.mp ht with ht | ht
  · have hlt := h.nonempty final (by simp)
    exact UInt32.le_of_lt (UInt32.lt_of_le_of_lt (h.le_of_append ht (by simp)) hlt)
  · rw [List.mem_singleton.mp ht]
    exact UInt32.le_refl _

end Token.InOrder

namespace SpanTree

theorem CoverEach.pairwise {ns : List SpanTree} : ∀ {tokens : List Token}, CoverEach ns tokens →
    Token.InOrder tokens → ns.Pairwise fun n m => n.span.stop.offset ≤ m.span.start.offset := by
  induction ns with
  | nil => exact fun _ _ => .nil
  | cons n ns ih =>
    rintro _ ⟨gap, own, rest, rfl, hn, hns⟩ h
    have hruns := h.sublist (List.sublist_append_right gap (own ++ rest))
    refine .cons (fun m hm => ?_) (ih hns (hruns.sublist (List.sublist_append_right _ _)))
    obtain ⟨_, _, final, hfinal, hspan⟩ := hn.span_eq
    obtain ⟨first, hfirst, _, _, hspan'⟩ := hns.ends_of_mem m hm
    rw [hspan, hspan']
    exact hruns.le_of_append (List.mem_of_mem_getLast? hfinal) hfirst

mutual
theorem Covers.nested {tokens : List Token} : ∀ {n : SpanTree} {run : List Token}, n.Covers run →
    Token.InOrder run → run ⊆ tokens → n.Nested tokens
  | .node span children, run, h, horder, hsub => by
    obtain ⟨⟨first, hfirst, final, hfinal, rfl⟩, hchildren⟩ := h
    have hfirst' := List.mem_of_mem_head? hfirst
    have hfinal' := List.mem_of_mem_getLast? hfinal
    refine .node ?_ ⟨first, hsub hfirst', rfl⟩ ⟨final, hsub hfinal', rfl⟩ ⟨?_, ?_⟩ ?_
    · exact UInt32.lt_of_lt_of_le (horder.nonempty first hfirst') (horder.le_last hfinal hfirst')
    · intro n hn
      obtain ⟨t, ht, u, hu, hspan⟩ := hchildren.ends_of_mem n hn
      rw [hspan]
      exact ⟨horder.head_le hfirst ht, horder.le_last hfinal hu⟩
    · exact hchildren.pairwise horder
    · exact hchildren.nested horder hsub
theorem CoverEach.nested {tokens : List Token} : ∀ {ns : List SpanTree} {run : List Token},
    CoverEach ns run → Token.InOrder run → run ⊆ tokens → ∀ n ∈ ns, n.Nested tokens
  | [], _, _, _, _ => by simp
  | n :: ns, _, ⟨gap, own, rest, hrun, hn, hns⟩, horder, hsub => by
    subst hrun
    have hruns := horder.sublist (List.sublist_append_right gap (own ++ rest))
    have hsubs := fun t (ht : t ∈ own ++ rest) => hsub (List.mem_append_right gap ht)
    refine List.forall_mem_cons.mpr ⟨?_, ?_⟩
    · exact hn.nested (hruns.sublist (List.sublist_append_left _ _))
        fun t ht => hsubs t (List.mem_append_left _ ht)
    · exact hns.nested (hruns.sublist (List.sublist_append_right _ _))
        fun t ht => hsubs t (List.mem_append_right _ ht)
end

end SpanTree

end ShapeCheck
