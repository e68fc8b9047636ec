import ShapeCheck.Proofs.Depth
import ShapeCheck.Proofs.Loops

/-!
# Calls return

A call of a parser asks for the outcomes of other calls and goes on with them. It returns if these
do, and `Call.Returns` says so by rules, without any bound on how deep calls are nested. Every call
returns: those that a phrase asks for are one level deeper, and none is asked for at the limit.
-/

namespace ShapeCheck

open ParseM

/-! ## Calls -/

inductive Item where
  | expr
  | type
  | entry
  | typeEntry
  | parameter
  | typeParameter

namespace Item

def Yield : Item → Type
  | expr => Expr
  | type => TypeExpr
  | entry => String × Expr
  | typeEntry => String × TypeExpr
  | parameter => Parameter
  | typeParameter => TypeExpr

def parser (g : Grammar) : (item : Item) → List item.Yield → ParseM item.Yield
  | expr, _ => g.expr
  | type, _ => g.type
  | entry, earlier => entryOf g.expr earlier
  | typeEntry, earlier => entryOf g.type earlier
  | parameter, _ => Expr.parseParameter g
  | typeParameter, _ => TypeExpr.parseFunctionParameter g.type

end Item

inductive Bracket where
  | round
  | square
  | curly

def Bracket.closing : Bracket → TokenKind
  | round => .closeParen
  | square => .closeBracket
  | curly => .closeCurly

inductive Call where
  | stmt
  | expr (power : Power)
  | type (power : Power)
  | block
  | list (item : Item) (bracket : Bracket)

namespace Call

def Yield : Call → Type
  | stmt => Stmt
  | expr _ => Expr
  | type _ => TypeExpr
  | block => Stmt
  | list item _ => List item.Yield

/-- What a call does, given how to parse the parts of its phrase. -/
def body (g : Grammar) : (call : Call) → ParseM call.Yield
  | stmt => Stmt.parseOne g
  | expr power => nested (Expr.parseBody g power)
  | type power => nested (TypeExpr.parseBody g.type power)
  | block => nested (Stmt.parseBlockBody g)
  | list item bracket => commaList bracket.closing (item.parser g)

def run : (call : Call) → ParseM call.Yield
  | stmt => Stmt.parse
  | expr power => Expr.parse power
  | type power => TypeExpr.parse power
  | block => Stmt.parseBlock
  | list item bracket => do commaList bracket.closing (item.parser (← grammar))

end Call

/-! ## Returning -/

def Grammar.AgreesOn (asked : Cursor → Prop) (g g' : Grammar) : Prop :=
  ∀ c, asked c → g.expr c = g'.expr c ∧ g.type c = g'.type c ∧ g.block c = g'.block c

/-- A call returns with an outcome if this follows from the outcomes of the calls it asks for, and
these return. -/
inductive Call.Returns : (call : Call) → Cursor → EStateM.Result Error Cursor call.Yield → Prop
  | intro {call : Call} {c : Cursor} (g : Grammar) (asked : Cursor → Prop)
      (expr : ∀ c', asked c' → Returns (.expr .default) c' (g.expr c'))
      (type : ∀ c', asked c' → Returns (.type .default) c' (g.type c'))
      (block : ∀ c', asked c' → Returns .block c' (g.block c'))
      (only : ∀ g', g.AgreesOn asked g' → call.body g c = call.body g' c) :
      Returns call c (call.body g c)

namespace Call

variable {call : Call} {c : Cursor}

open Classical in
theorem Returns.unique {r r' : EStateM.Result Error Cursor call.Yield} (h : call.Returns c r)
    (h' : call.Returns c r') : r = r' := by
  induction h with
  | intro g asked hexpr htype hblock only ihexpr ihtype ihblock =>
    cases h' with
    | intro g' asked' hexpr' htype' hblock' only' =>
      -- What both calls ask for has one outcome, so one grammar answers the questions of both.
      let both : Grammar :=
        ⟨fun c => if asked c then g.expr c else g'.expr c,
          fun c => if asked c then g.type c else g'.type c,
          fun c => if asked c then g.block c else g'.block c⟩
      have hg : g.AgreesOn asked both := fun c hc => by simp [both, hc]
      have hg' : g'.AgreesOn asked' both := by
        intro c hc
        by_cases ha : asked c
        · simp only [both, ha, if_true]
          exact ⟨(ihexpr c ha (hexpr' c hc)).symm, (ihtype c ha (htype' c hc)).symm,
            (ihblock c ha (hblock' c hc)).symm⟩
        · simp [both, ha]
      exact (only both hg).trans (only' both hg').symm

end Call

/-! ## Every call returns -/

section
variable {J : (α : Type) → ParseM α → ParseM α → Prop} (hJ : ParseM.Congruence J) {g g' : Grammar}
  (hg : Grammar.Related J g g')
include hJ hg

theorem Item.parser_congr (item : Item) (earlier : List item.Yield) :
    J _ (item.parser g earlier) (item.parser g' earlier) := by
  cases item with
  | expr => exact hg.expr
  | type => exact hg.type
  | entry => exact hJ.entryOf hg.expr earlier
  | typeEntry => exact hJ.entryOf hg.type earlier
  | parameter => exact Expr.parseParameter_congr hJ hg
  | typeParameter => exact TypeExpr.parseFunctionParameter_congr hJ hg.type

theorem Call.list_congr (item : Item) (bracket : Bracket) :
    J _ ((Call.list item bracket).body g) ((Call.list item bracket).body g') :=
  hJ.commaList bracket.closing (Item.parser_congr hJ hg item)

end

namespace Call

variable {limit depth : Nat} {c : Cursor}

/-- A call does what its rule says, and comes back to the depth it was made at. -/
theorem agree (call : Call) : Agree limit depth call.Yield call.run (call.body .parts) := by
  have hparts := Grammar.parts_agree limit depth
  cases call with
  | stmt =>
    refine (Stmt.parseOne_congr Agree.congruence hparts).of_eq fun c hc => ?_
    rw [← hc.limit_eq, ← hc.depth_eq]
    rfl
  | expr power =>
    refine Agree.of_eq ?_ fun c hc => hc.parse_expr power
    exact .levels (p := (Expr.parseAt · power)) rfl (fun _ => rfl) fun hg =>
      Expr.parseBody_congr Agree.congruence hg power
  | type power =>
    refine Agree.of_eq ?_ fun c hc => hc.parse_type power
    exact .levels (p := (TypeExpr.parseAt · power)) rfl (fun _ => rfl) fun hg =>
      TypeExpr.parseBody_congr Agree.congruence hg.type power
  | block =>
    refine Agree.of_eq ?_ fun c hc => hc.parseBlock
    exact .levels rfl (fun _ => rfl) fun hg => Stmt.parseBlockBody_congr Agree.congruence hg
  | list item bracket =>
    refine (list_congr Agree.congruence hparts item bracket).of_eq fun c hc => ?_
    rw [← hc.limit_eq, ← hc.depth_eq]
    rfl

/-- Other parsers of parts that have the same outcomes at that depth are as good. -/
theorem related_of_agreesOn {g : Grammar} (h : Grammar.parts.AgreesOn (Cursor.On limit depth) g) :
    Grammar.Related (Agree limit depth) .parts g := by
  have hparts := Grammar.parts_agree limit depth
  exact ⟨fun c hc => ⟨(h c hc).1, (hparts.expr.self_right c hc).2⟩,
    fun c hc => ⟨(h c hc).2.1, (hparts.type.self_right c hc).2⟩,
    fun c hc => ⟨(h c hc).2.2, (hparts.block.self_right c hc).2⟩⟩

structure Answered (c : Cursor) : Prop where
  expr : ∀ power, (Call.expr power).Returns c (Expr.parse power c)
  type : ∀ power, (Call.type power).Returns c (TypeExpr.parse power c)
  block : Call.block.Returns c (Stmt.parseBlock c)

/-- The parts of a phrase are asked for one level deeper, and only below the limit. -/
theorem returns_of_nested (call : Call) {form : Grammar → ParseM call.Yield}
    (hbody : ∀ g, call.body g = nested (form g))
    (hform : ∀ {depth g g'}, Grammar.Related (Agree limit depth) g g' →
      Agree limit depth call.Yield (form g) (form g'))
    (hparts : depth < limit → ∀ c : Cursor, c.On limit (depth + 1) → Answered c)
    (hc : c.On limit depth) : call.Returns c (call.run c) := by
  rw [(call.agree c hc).1]
  by_cases hdepth : depth < limit
  · refine .intro .parts (Cursor.On limit (depth + 1)) (fun c hc => ?_) (fun c hc => ?_)
      (fun c hc => ?_) fun g hg => ?_
    · exact (hparts hdepth c hc).expr .default
    · exact (hparts hdepth c hc).type .default
    · exact (hparts hdepth c hc).block
    · rw [hbody, hbody]
      exact (Agree.nested (fun _ => hform (related_of_agreesOn hg)) c hc).1
  · refine .intro .parts (fun _ => False) nofun nofun nofun fun g _ => ?_
    rw [hbody, hbody]
    exact (Agree.nested (fun hlt => absurd hlt hdepth) c hc).1

theorem answered_of_deeper
    (hparts : depth < limit → ∀ c : Cursor, c.On limit (depth + 1) → Answered c)
    (hc : c.On limit depth) : Answered c := by
  refine ⟨fun power => ?_, fun power => ?_, ?_⟩
  · exact returns_of_nested (.expr power) (fun _ => rfl)
      (fun hg => Expr.parseBody_congr Agree.congruence hg power) hparts hc
  · exact returns_of_nested (.type power) (fun _ => rfl)
      (fun hg => TypeExpr.parseBody_congr Agree.congruence hg.type power) hparts hc
  · exact returns_of_nested .block (fun _ => rfl)
      (fun hg => Stmt.parseBlockBody_congr Agree.congruence hg) hparts hc

theorem answered (n : Nat) : ∀ depth, limit - depth = n → ∀ c : Cursor, c.On limit depth →
    Answered c := by
  induction n with
  | zero =>
    intro depth hn c hc
    exact answered_of_deeper (fun hlt => by omega) hc
  | succ n ih =>
    intro depth hn c hc
    exact answered_of_deeper (fun _ => ih (depth + 1) (by omega)) hc

/-- A call that asks for parts at its own depth. -/
theorem returns_of_parts (call : Call)
    (hbody : ∀ {g}, Grammar.Related (Agree limit depth) .parts g →
      Agree limit depth call.Yield (call.body .parts) (call.body g))
    (hc : c.On limit depth) : call.Returns c (call.run c) := by
  have hparts := answered (limit - depth) depth rfl
  rw [(call.agree c hc).1]
  refine .intro .parts (Cursor.On limit depth) (fun c hc => ?_) (fun c hc => ?_) (fun c hc => ?_)
    fun g hg => (hbody (related_of_agreesOn hg) c hc).1
  · exact (hparts c hc).expr .default
  · exact (hparts c hc).type .default
  · exact (hparts c hc).block

theorem returns_run (call : Call) (hc : c.On limit depth) : call.Returns c (call.run c) := by
  have hparts := answered (limit - depth) depth rfl c hc
  cases call with
  | stmt => exact returns_of_parts .stmt (Stmt.parseOne_congr Agree.congruence) hc
  | expr power => exact hparts.expr power
  | type power => exact hparts.type power
  | block => exact hparts.block
  | list item bracket =>
    exact returns_of_parts (.list item bracket)
      (fun hg => list_congr Agree.congruence hg item bracket) hc

theorem returns_iff (call : Call) (hc : c.On limit depth)
    {r : EStateM.Result Error Cursor call.Yield} : call.Returns c r ↔ r = call.run c := by
  have hrun := call.returns_run hc
  exact ⟨fun hr => hr.unique hrun, fun hr => hr ▸ hrun⟩

end Call

end ShapeCheck
