import ShapeCheck.Proofs.ParseCongruence
import ShapeCheck.Proofs.Yields

/-!
# What parsing can yield

In a tree that was read from tokens every assignment has a type or a value, as in every readable
tree. Whatever keeps tokens from being read is a fault of syntax, since every step of a parser that
fails does so with such a fault.
-/

namespace ShapeCheck

/-- The faults that a text has by itself, before anything is checked. -/
def Cause.Syntactic : Cause → Prop
  | .unrecognisedToken _ | .unexpectedToken _ | .unexpectedTokenDetailed _ _ => True
  | .invalidNumber _ | .nestingTooDeep _ => True
  | _ => False

mutual
/-- Every assignment in the expression has a type or a value. -/
def Expr.Complete : Expr → Prop
  | .name _ _ | .number _ _ | .string _ _ | .importFile _ _ => True
  | .tuple items _ => Expr.CompleteEach items
  | .record entries _ => Expr.CompleteEntries entries
  | .access e _ _ => Expr.Complete e
  | .function _ body _ => Stmt.Complete body
  | .call callee arguments _ => Expr.Complete callee ∧ Expr.CompleteEach arguments
  | .atom _ arguments _ => Expr.CompleteEach arguments
termination_by structural e => e
def Expr.CompleteEach : List Expr → Prop
  | [] => True
  | e :: es => Expr.Complete e ∧ Expr.CompleteEach es
termination_by structural es => es
def Expr.CompleteEntries : List (String × Expr) → Prop
  | [] => True
  | (_, e) :: es => Expr.Complete e ∧ Expr.CompleteEntries es
termination_by structural es => es
def Expr.CompleteOptional : Option Expr → Prop
  | none => True
  | some e => Expr.Complete e
termination_by structural e => e
def Stmt.CompleteAssignment : Assignment Expr → Prop
  | ⟨_, declared, value, _⟩ =>
    (declared.isSome ∨ value.isSome) ∧ Expr.CompleteOptional value
termination_by structural a => a
def Stmt.Complete : Stmt → Prop
  | .block body _ => Stmt.CompleteEach body
  | .assign a => Stmt.CompleteAssignment a
  | .exported a _ => Stmt.CompleteAssignment a
  | .expr e => Expr.Complete e
  | .type _ => True
termination_by structural s => s
def Stmt.CompleteEach : List Stmt → Prop
  | [] => True
  | s :: ss => Stmt.Complete s ∧ Stmt.CompleteEach ss
termination_by structural ss => ss
end

/-! ## Trees that were read -/

mutual
theorem Expr.Readable.complete : ∀ {levels : Nat} {e : Expr}, e.Readable levels → e.Complete
  | _, .name _ _, _ | _, .number _ _, _ | _, .string _ _, _ | _, .importFile _ _, _ => trivial
  | _, .tuple _ _, h | _, .atom _ _ _, h => Expr.ReadableEach.complete h.2
  | _, .record _ _, h => Expr.ReadableEntries.complete h.2.2
  | _, .access e _ _, h => Expr.Readable.complete (e := e) h.1
  | _, .function _ _ _, h => Stmt.Readable.complete h.2.2.2
  | _, .call _ _ _, h => ⟨Expr.Readable.complete h.1, Expr.ReadableEach.complete h.2.2⟩
termination_by structural _ e => e
theorem Expr.ReadableEach.complete : ∀ {levels : Nat} {es : List Expr},
    Expr.ReadableEach levels es → Expr.CompleteEach es
  | _, [], _ => trivial
  | _, _ :: _, h => ⟨Expr.Readable.complete h.1, Expr.ReadableEach.complete h.2⟩
termination_by structural _ es => es
theorem Expr.ReadableEntries.complete : ∀ {levels : Nat} {es : List (String × Expr)},
    Expr.ReadableEntries levels es → Expr.CompleteEntries es
  | _, [], _ => trivial
  | _, (_, _) :: _, h => ⟨Expr.Readable.complete h.1, Expr.ReadableEntries.complete h.2⟩
termination_by structural _ es => es
theorem Expr.ReadableValue.complete : ∀ {levels : Nat} {value : Option Expr},
    Expr.ReadableValue levels value → Expr.CompleteOptional value
  | _, none, _ => trivial
  | _, some _, h => Expr.Readable.complete h
termination_by structural _ value => value
theorem Stmt.ReadableAssignment.complete : ∀ {levels : Nat} {a : Assignment Expr},
    Stmt.ReadableAssignment levels a → Stmt.CompleteAssignment a
  | _, ⟨_, _, _, _⟩, h => ⟨h.1, Expr.ReadableValue.complete h.2.2⟩
termination_by structural _ a => a
theorem Stmt.Readable.complete : ∀ {levels : Nat} {s : Stmt}, s.Readable levels → s.Complete
  | _, .block _ _, h => Stmt.ReadableEach.complete h.2
  | _, .assign _, h | _, .exported _ _, h => Stmt.ReadableAssignment.complete h
  | _, .expr _, h => Expr.Readable.complete h
termination_by structural _ s => s
theorem Stmt.ReadableEach.complete : ∀ {levels : Nat} {ss : List Stmt},
    Stmt.ReadableEach levels ss → Stmt.CompleteEach ss
  | _, [], _ => trivial
  | _, _ :: _, h => ⟨Stmt.Readable.complete h.1, Stmt.ReadableEach.complete h.2⟩
termination_by structural _ ss => ss
end

theorem parseTokens_complete {tokens : List Token} {file : String} {maxDepth : Nat} {tree : Stmt}
    (h : parseTokens tokens file maxDepth = .ok tree) : tree.Complete := by
  obtain ⟨body, span, rfl, hbody⟩ := parseTokens_readable h
  exact Stmt.ReadableEach.complete (Stmt.readableEach_iff.mpr hbody)

/-! ## What keeps tokens from being read -/

def ParseM.Syntactic {α : Type} (p : ParseM α) : Prop :=
  ∀ c e c', p c = .error e c' → e.cause.Syntactic

namespace ParseM.Syntactic

variable {α β : Type}

theorem pure (a : α) : Syntactic (Pure.pure a : ParseM α) := by
  rintro c e c' ⟨⟩

theorem advance : Syntactic ParseM.advance := by
  rintro c e c' ⟨⟩

theorem unexpected : Syntactic (ParseM.unexpected : ParseM α) := by
  rintro c e c' ⟨⟩
  trivial

theorem tooDeep : Syntactic (ParseM.tooDeep : ParseM α) := by
  rintro c e c' ⟨⟩
  trivial

theorem get {f : Cursor → ParseM α} (h : ∀ c, Syntactic (f c)) :
    Syntactic (MonadState.get >>= f) :=
  fun c => h c c

theorem bind {p : ParseM α} {f : α → ParseM β} (hp : Syntactic p) (hf : ∀ a, Syntactic (f a)) :
    Syntactic (p >>= f) := by
  intro c e c' hrun
  change EStateM.bind p f c = .error e c' at hrun
  unfold EStateM.bind at hrun
  cases hpc : p c with
  | ok a c₁ =>
    rw [hpc] at hrun
    exact hf a c₁ e c' hrun
  | error e₁ c₁ =>
    rw [hpc] at hrun
    cases hrun
    exact hp c _ _ hpc

theorem parsePrimary : Syntactic Expr.parsePrimary := by
  refine .get fun c => ?_
  dsimp only
  split
  · split
    · rintro c e c' ⟨⟩
      trivial
    · exact advance.bind fun _ => .pure _
  · exact advance.bind fun _ => .pure _
  · exact advance.bind fun _ => .pure _
  · exact unexpected

theorem congruence : Congruence fun _ p _ => Syntactic p where
  pure := pure
  bind := bind
  get h := get fun c => h c c.depth c.limit
  unexpected := unexpected
  detailed _ := by
    rintro c e c' ⟨⟩
    trivial
  advance := advance
  primary := parsePrimary

theorem nested {p : ParseM α} (h : Syntactic p) : Syntactic (nested p) := by
  intro c e c' hrun
  unfold ParseM.nested at hrun
  cases henter : c.enter? with
  | none =>
    rw [henter] at hrun
    cases hrun
    trivial
  | some inner =>
    rw [henter] at hrun
    dsimp only at hrun
    cases hp : p inner with
    | ok a c₁ =>
      rw [hp] at hrun
      cases hrun
    | error e₁ c₁ =>
      rw [hp] at hrun
      cases hrun
      exact h inner _ _ hp

end ParseM.Syntactic

open ParseM (Syntactic) in
theorem Stmt.parseAll_syntactic : Syntactic parseAll := by
  refine Syntactic.get fun c => ?_
  have hg : Grammar.Related (fun _ p _ => Syntactic p) (.ofLevels (c.limit - c.depth))
      (.ofLevels (c.limit - c.depth)) :=
    Grammar.ofLevels_congr Syntactic.congruence (fun _ => .tooDeep) .nested (Nat.le_refl _)
  have hremaining : Syntactic ParseM.remaining := .get fun _ => .pure _
  exact hremaining.bind fun n => parseUntil_congr Syntactic.congruence hg .eof n []

theorem parseTokens_syntactic {tokens : List Token} {file : String} {maxDepth : Nat} {e : Error}
    (h : parseTokens tokens file maxDepth = .error e) : e.cause.Syntactic := by
  unfold parseTokens at h
  cases hparse : Stmt.parseAll (Cursor.ofTokens tokens file maxDepth) with
  | ok body c =>
    rw [hparse] at h
    cases h
  | error e' c =>
    rw [hparse] at h
    cases h
    exact Stmt.parseAll_syntactic _ _ _ hparse

theorem tokensAt_syntactic {file : String} {offset : Nat} {cs : List Char} {e : Error}
    (h : tokensAt file offset cs = .error e) : e.cause.Syntactic := by
  induction offset, cs using tokensAt.induct with
  | case1 offset =>
    rw [tokensAt] at h
    cases h
  | case2 offset c cs hnone =>
    rw [tokensAt, hnone] at h
    cases h
    trivial
  | case3 offset c cs more token? hsome stop ih =>
    rw [tokensAt, hsome] at h
    cases hlater : tokensAt file stop (cs.drop more.length) with
    | ok later =>
      dsimp only at h
      rw [hlater] at h
      cases token? <;> cases h
    | error e' =>
      dsimp only at h
      rw [hlater] at h
      cases h
      exact ih hlater

theorem parseSource_complete {source file : String} {maxDepth : Nat} {tree : Stmt}
    (h : parseSource source file maxDepth = .ok tree) : tree.Complete := by
  unfold parseSource at h
  cases htokens : tokenize source (some file) with
  | ok tokens =>
    rw [htokens] at h
    exact parseTokens_complete h
  | error e =>
    rw [htokens] at h
    cases h

theorem parseSource_syntactic {source file : String} {maxDepth : Nat} {e : Error}
    (h : parseSource source file maxDepth = .error e) : e.cause.Syntactic := by
  unfold parseSource at h
  cases htokens : tokenize source (some file) with
  | ok tokens =>
    rw [htokens] at h
    exact parseTokens_syntactic h
  | error e' =>
    rw [htokens] at h
    cases h
    exact tokensAt_syntactic htokens

def treeOf (parsed : Except Error Stmt) : Stmt :=
  parsed.toOption.getD default

theorem eq_ok_treeOf {parsed : Except Error Stmt} (h : parsed.isOk = true) :
    parsed = .ok (treeOf parsed) := by
  cases parsed with
  | ok tree => rfl
  | error e => cases h

end ShapeCheck
