import ShapeCheck.Proofs.Hygiene

/-!
# What a check leaves in place

A check opens scopes and closes them again, and its calls rewrite every variable that is in scope.
What comes out is the context that went in, with one sequence of substitutions applied to all of
its variables: nothing is dropped, moved or renamed, and at most one variable is added, to the
innermost scope.

Inside the scopes that a check opens itself it may declare as much as it likes, since they are
closed again. So the induction is about the scopes around them: `Around` says that these are as they
were, but for substitutions.
-/

namespace ShapeCheck

/-! ## Frames -/

def Variable.apply (σ : Ty.Substitution) (v : Variable) : Variable :=
  { v with type := v.type.apply σ }

theorem Variable.apply_nil : Variable.apply [] = id := rfl

theorem Variable.apply_append (σ τ : Ty.Substitution) (v : Variable) :
    v.apply (σ ++ τ) = (v.apply σ).apply τ := by
  simp [apply, Ty.apply, List.foldl_append]

theorem Variable.map_apply_append (σ τ : Ty.Substitution) (vs : List Variable) :
    vs.map (Variable.apply (σ ++ τ)) = (vs.map (Variable.apply σ)).map (Variable.apply τ) := by
  rw [List.map_map]
  exact List.map_congr_left fun v _ => Variable.apply_append σ τ v

theorem Context.scopes_apply (σ : Ty.Substitution) (c : Context) :
    (c.apply σ).scopes = c.scopes.map (List.map (Variable.apply σ)) := by
  induction σ generalizing c with
  | nil => simp [Context.apply, Variable.apply_nil]
  | cons step σ ih =>
    refine (ih (c.substitute step.1 step.2)).trans ?_
    simp only [Context.substitute, List.map_map]
    refine List.map_congr_left fun scope _ => ?_
    simp only [Function.comp_apply, List.map_map]
    rfl

theorem Context.exports_apply (σ : Ty.Substitution) (c : Context) :
    (c.apply σ).exports = c.exports.map (Variable.apply σ) := by
  induction σ generalizing c with
  | nil => simp [Context.apply, Variable.apply_nil]
  | cons step σ ih =>
    refine (ih (c.substitute step.1 step.2)).trans ?_
    simp only [Context.substitute, List.map_map]
    rfl

/-- `c'` is `c` with its variables rewritten by `σ`, with `declared` added to the innermost scope
and `exported` to the exports, and perhaps with more errors and placeholders. Both scopes and
`declared` have the latest declaration first, so the variables of `c` keep their places. -/
structure Context.Framed (σ : Ty.Substitution) (declared exported : List Variable)
    (c c' : Context) : Prop where
  environment : c'.environment = c.environment
  path : c'.path = c.path
  importStack : c'.importStack = c.importStack
  depth : c'.depth = c.depth
  nextId : c.nextId ≤ c'.nextId
  errors : c.errors <+: c'.errors
  scopes : c'.scopes = (c.scopes.map (List.map (Variable.apply σ))).modifyHead (declared ++ ·)
  exports : c'.exports = c.exports.map (Variable.apply σ) ++ exported

namespace Context.Framed

variable {σ τ : Ty.Substitution} {declared exported : List Variable} {c c' c'' : Context}

theorem refl (c : Context) : c.Framed [] [] [] c := by
  refine ⟨rfl, rfl, rfl, rfl, Nat.le_refl _, List.prefix_rfl, ?_, ?_⟩
  · cases c.scopes <;> simp [Variable.apply_nil]
  · simp [Variable.apply_nil]

theorem trans {declared' exported' : List Variable} (h : c.Framed σ declared exported c')
    (h' : c'.Framed τ declared' exported' c'') :
    c.Framed (σ ++ τ) (declared' ++ declared.map (Variable.apply τ))
      (exported.map (Variable.apply τ) ++ exported') c'' where
  environment := h'.environment.trans h.environment
  path := h'.path.trans h.path
  importStack := h'.importStack.trans h.importStack
  depth := h'.depth.trans h.depth
  nextId := h.nextId.trans h'.nextId
  errors := h.errors.trans h'.errors
  scopes := by
    rw [h'.scopes, h.scopes]
    cases c.scopes with
    | nil => rfl
    | cons scope outer =>
      simp only [List.map_cons, List.modifyHead_cons, List.map_append, List.append_assoc,
        List.map_map, Variable.map_apply_append]
      congr 1
      exact List.map_congr_left fun scope _ => (Variable.map_apply_append σ τ scope).symm
  exports := by
    rw [h'.exports, h.exports, List.map_append, List.append_assoc, Variable.map_apply_append]

theorem length_scopes (h : c.Framed σ declared exported c') :
    c'.scopes.length = c.scopes.length := by
  rw [h.scopes, List.length_modifyHead, List.length_map]

theorem innermost (h : c.Framed σ declared exported c') (hc : c.scopes ≠ []) :
    c'.innermost = declared ++ c.innermost.map (Variable.apply σ) := by
  obtain ⟨scope, outer, hscopes⟩ := List.exists_cons_of_ne_nil hc
  unfold Context.innermost
  rw [h.scopes, hscopes]
  rfl

/-- A scope that was opened before is closed, with all that was declared in it. -/
theorem pop (h : c.push.Framed σ declared exported c') : c.Framed σ [] exported c'.pop where
  environment := h.environment
  path := h.path
  importStack := h.importStack
  depth := h.depth
  nextId := h.nextId
  errors := h.errors
  scopes := by
    show c'.scopes.tail = _
    rw [h.scopes]
    cases hscopes : c.scopes <;> simp [Context.push, hscopes]
  exports := h.exports

theorem leave (h : Context.Framed σ declared exported { c with depth := c.depth + 1 } c') :
    c.Framed σ declared exported c'.leave :=
  ⟨h.environment, h.path, h.importStack, by show c'.depth - 1 = _; rw [h.depth]; rfl, h.nextId,
    h.errors, h.scopes, h.exports⟩

end Context.Framed

/-! ## Steps -/

section
variable (c : Context)

theorem Context.framed_report (cause : Cause) (span : Span) :
    c.Framed [] [] [] (c.report cause span) :=
  { Framed.refl c with errors := List.prefix_append _ _ }

theorem Context.framed_allocate : c.Framed [] [] [] c.allocate.2 :=
  { Framed.refl c with nextId := Nat.le_succ _ }

theorem Context.framed_instantiate (vs : List Variable) :
    c.Framed [] [] [] (c.instantiate vs).2 :=
  { Framed.refl c with nextId := Context.nextId_le_instantiate c vs }

theorem Context.framed_apply (σ : Ty.Substitution) : c.Framed σ [] [] (c.apply σ) := by
  have hkept : (c.apply σ).environment = c.environment ∧ (c.apply σ).path = c.path ∧
      (c.apply σ).importStack = c.importStack ∧ (c.apply σ).depth = c.depth ∧
      (c.apply σ).errors = c.errors := by
    induction σ generalizing c with
    | nil => exact ⟨rfl, rfl, rfl, rfl, rfl⟩
    | cons step σ ih => exact ih (c.substitute step.1 step.2)
  obtain ⟨henvironment, hpath, hstack, hdepth, herrors⟩ := hkept
  refine ⟨henvironment, hpath, hstack, hdepth, (Context.nextId_apply σ c).ge, ?_, ?_, ?_⟩
  · exact herrors ▸ List.prefix_rfl
  · rw [Context.scopes_apply]
    cases c.scopes <;> simp
  · rw [Context.exports_apply, List.append_nil]

theorem Context.framed_declare (v : Variable) (h : c.scopes ≠ []) :
    c.Framed [] [v] [] (c.declare v) := by
  obtain ⟨scope, outer, hscopes⟩ := List.exists_cons_of_ne_nil h
  unfold Context.declare
  rw [hscopes]
  refine { Framed.refl c with scopes := ?_ }
  simp [hscopes, Variable.apply_nil]

theorem Context.depth_declare (v : Variable) : (c.declare v).depth = c.depth := by
  unfold Context.declare
  split <;> rfl

theorem Context.framed_exportVariable (v : Variable) :
    c.Framed [] [] [v] (c.exportVariable v) :=
  { Framed.refl c with exports := by simp [Context.exportVariable, Variable.apply_nil] }

end

/-! ## Contracts about states -/

open CheckM

/-- A contract that says nothing of types, so that one world is enough. -/
def Contract.ofStates (H : Nat → Checking → Prop) (least : Nat) (Exports : Nat → Prop) :
    Contract Nat where
  world _ := 0
  Holds := H
  Reported _ := True
  Value _ _ := True
  Found _ _ := True
  Described _ _ := True
  Result _ _ := True
  Filled _ _ _ := True
  Visible _ := True
  least := least
  Exports := Exports

structure StepsKeep (H : Nat → Checking → Prop) (least : Nat) (Exports : Nat → Prop)
    (imports : Importer) : Prop where
  frame : ∀ {level s σ c} (event : Event), H level s → s.context.Framed σ [] [] c →
    H level (s.move event c)
  depth : ∀ {level s}, H level s → ∀ depth, H level (s.move .changed { s.context with depth })
  declare : ∀ {level s} (v : Variable), H level s → least ≤ level →
    H level (s.move .changed (s.context.declare v))
  push : ∀ {level s}, H level s → H (level + 1) (s.move .changed s.context.push)
  pop : ∀ {level s}, H (level + 1) s → H level (s.move .changed s.context.pop)
  exportVariable : ∀ {level s} {a : Assignment Expr}, Exports level → H level s →
    s.context.atFileRoot = true → s.context.isDeclared a.name = false →
      let r := Stmt.checkAssignment imports a s
      H level r.2 → H level (r.2.move .changed (r.2.context.exportVariable r.1))
  importFile : ∀ {level s} (requested : String) (span : Span), H level s →
    H level (imports requested span s).2
  least_le : least ≤ 1
  exports_two : Exports 2
  exports_succ : ∀ {level}, Exports level → Exports (level + 1)

namespace StepsKeep

variable {H : Nat → Checking → Prop} {least : Nat} {Exports : Nat → Prop} {imports : Importer}

theorem ensures {α : Type} {level : Nat} {m : CheckM α} (h : ∀ s, H level s → H level (m s).2)
    (w : Nat) :
    (Contract.ofStates H least Exports).Ensures level w (fun _ _ => True) m :=
  fun s hs _ => ⟨h s hs, le_refl _, trivial⟩

theorem lawful (hH : StepsKeep H least Exports imports) :
    (Contract.ofStates H least Exports).Lawful imports where
  growing := by constructor <;> intros <;> trivial
  typing := by constructor <;> intros <;> trivial
  stepping := {
    resolve := fun _ _ _ => trivial
    report := ensures (fun s hs => hH.frame _ hs (s.context.framed_report _ _)) _
    depth := fun hs depth => ⟨hH.depth hs depth, le_refl _⟩
    typed := fun {_ s _} hs _ => ⟨hH.frame _ hs (.refl s.context), le_refl _⟩
    readEntry := fun {_ s _ _ _} hs _ _ => ⟨hH.frame _ hs (.refl s.context), le_refl _⟩
    fill := fun _ => ensures (fun s hs => hH.frame _ hs (.refl s.context)) _
    annotate := fun _ => ensures (fun s hs => hH.frame _ hs (.refl s.context)) _
    allocate := ensures (fun s hs => hH.frame _ hs s.context.framed_allocate) _
    declare := fun hs hlevel _ => ⟨hH.declare _ hs hlevel, le_refl _⟩
    settle := fun {_ _ ps ts _} _ _ =>
      ensures (fun s hs => hH.frame _ hs (s.context.framed_apply (callSubstitution ps ts))) _
    push := fun hs => ⟨hH.push hs, le_refl _⟩
    pop := fun hs => ⟨hH.pop hs, le_refl _⟩
    function := fun {level w ps body} _ hparameters hbody => by
      refine (hparameters w).bind fun _ _ _ _ => (hbody _).bind fun _ _ _ _ => ?_
      have hread : ∀ w, (Contract.ofStates H least Exports).Ensures (level + 1) w (fun _ _ => True)
          (CheckM.read Context.innermost) := ensures fun s hs => hs
      exact (hread _).bind fun _ _ _ _ => .pure fun _ _ => trivial
    exportVariable := fun {level w a span} _ hexports hassignment => by
      refine ensures (fun s hs => ?_) w
      have hassigned : H level (Stmt.checkAssignment imports a s).2 :=
        (hassignment 0 s hs (le_refl _)).1
      refine exporting_cases (P := H level) (fun _ => ?_) (fun hroot hnew => ?_) hassigned
      · exact hH.frame _ hassigned (Context.framed_report _ _ _)
      · exact hH.exportVariable hexports hs hroot hnew hassigned
    importFile := ensures (fun s hs => hH.importFile _ _ hs) _
    least_le := hH.least_le
    exports_two := hH.exports_two
    exports_succ := hH.exports_succ }

/-- Nothing is asked of the trees. -/
theorem admits {level : Nat} {names : List String} {complete bodied : Prop}
    (h : Exports (level + 1) ∨ bodied) :
    (Contract.ofStates H least Exports).Admits level names complete bodied :=
  ⟨fun _ _ => trivial, Or.inr fun _ => trivial, h⟩

variable (hH : StepsKeep H least Exports imports) {level : Nat} {s : Checking}
include hH

theorem expr (e : Expr) (h : Exports (level + 1) ∨ e.Bodied) (hs : H level s) :
    H level (e.check imports s).2 :=
  (Contract.expr_ensures hH.lawful e level (admits h) 0 s hs (le_refl _)).1

theorem stmt (stmt : Stmt) (hlevel : stmt.declarations = 0 ∨ least ≤ level)
    (hinner : Exports (level + 1)) (h : ∀ a span, stmt = .exported a span → Exports level)
    (hs : H level s) : H level (stmt.check imports s).2 :=
  (Contract.stmt_ensures hH.lawful stmt level hlevel (admits (Or.inl hinner)) h 0 s hs
    (le_refl _)).1

theorem stmts (first : Stmt) (rest : List Stmt) (hlevel : least ≤ level)
    (hexports : Exports level) (hs : H level s) :
    H level ((do let type ← first.check imports; Stmt.checkRest imports type rest) s).2 := by
  have hinner := hH.exports_succ hexports
  have hfirst := hH.stmt first (Or.inr hlevel) hinner (fun _ _ _ => hexports) hs
  exact (Contract.stmts_ensures hH.lawful rest level hlevel (admits (Or.inl hinner)) hexports _ 0
    trivial _ hfirst (le_refl _)).1

theorem assigning (a : Assignment Expr) (h : Exports (level + 1)) (hs : H level s) :
    H level (assigning imports a s).2 :=
  (Contract.assigning_ensures hH.lawful a level (admits (Or.inl h)) 0 s hs (le_refl _)).1

end StepsKeep

/-! ## Scopes around a check -/

/-- In `c`, `level` scopes are open inside those of `base`, which are as they were but for
substitutions. Nothing was exported since if that is to be `quiet`. -/
def Context.Around (base : Context) (quiet : Prop) (level : Nat) (c : Context) : Prop :=
  ∃ σ inner exported, inner.length = level ∧
    c.scopes = inner ++ base.scopes.map (List.map (Variable.apply σ)) ∧ (quiet → exported = []) ∧
    base.Framed σ [] exported
      { c with scopes := base.scopes.map (List.map (Variable.apply σ)), depth := base.depth }

namespace Context.Around

variable {base c c' : Context} {quiet : Prop} {level : Nat}

theorem refl (base : Context) (quiet : Prop) : base.Around quiet 0 base := by
  refine ⟨[], [], [], rfl, ?_, fun _ => rfl, ?_⟩
  · simp [Variable.apply_nil]
  · refine { Framed.refl base with scopes := ?_ }
    cases base.scopes <;> simp

theorem length_scopes (h : base.Around quiet level c) :
    c.scopes.length = level + base.scopes.length := by
  obtain ⟨σ, inner, exported, hlength, hscopes, -, -⟩ := h
  rw [hscopes, List.length_append, List.length_map, hlength]

theorem frame {τ : Ty.Substitution} (h : base.Around quiet level c) (hc : c.Framed τ [] [] c') :
    base.Around quiet level c' := by
  obtain ⟨σ, inner, exported, hlength, hscopes, hquiet, hbase⟩ := h
  have hmap : (base.scopes.map (List.map (Variable.apply σ))).map (List.map (Variable.apply τ)) =
      base.scopes.map (List.map (Variable.apply (σ ++ τ))) := by
    rw [List.map_map]
    exact List.map_congr_left fun scope _ => (Variable.map_apply_append σ τ scope).symm
  refine ⟨σ ++ τ, inner.map (List.map (Variable.apply τ)), exported.map (Variable.apply τ),
    ?_, ?_, fun q => ?_, ?_⟩
  · rw [List.length_map, hlength]
  · have hnone : c'.scopes = c.scopes.map (List.map (Variable.apply τ)) := by
      rw [hc.scopes]
      cases c.scopes <;> rfl
    rw [hnone, hscopes, List.map_append, hmap]
  · rw [hquiet q, List.map_nil]
  · refine ⟨hc.environment.trans hbase.environment, hc.path.trans hbase.path,
      hc.importStack.trans hbase.importStack, rfl, hbase.nextId.trans hc.nextId,
      hbase.errors.trans hc.errors, ?_, ?_⟩
    · cases base.scopes <;> rfl
    · show c'.exports = _
      rw [hc.exports, List.append_nil, show c.exports = _ from hbase.exports, List.map_append,
        Variable.map_apply_append]

theorem declare (h : base.Around quiet (level + 1) c) (v : Variable) :
    base.Around quiet (level + 1) (c.declare v) := by
  obtain ⟨σ, inner, exported, hlength, hscopes, hquiet, hbase⟩ := h
  obtain ⟨scope, inner, rfl⟩ := List.exists_cons_of_length_eq_add_one hlength
  have hdeclare : c.declare v = { c with
      scopes := (v :: scope) :: (inner ++ base.scopes.map (List.map (Variable.apply σ))) } := by
    unfold Context.declare
    rw [hscopes]
    rfl
  rw [hdeclare]
  exact ⟨σ, (v :: scope) :: inner, exported, hlength, rfl, hquiet, hbase⟩

theorem push (h : base.Around quiet level c) : base.Around quiet (level + 1) c.push := by
  obtain ⟨σ, inner, exported, hlength, hscopes, hquiet, hbase⟩ := h
  refine ⟨σ, [] :: inner, exported, congrArg Nat.succ hlength, ?_, hquiet, hbase⟩
  exact congrArg (List.cons []) hscopes

theorem pop (h : base.Around quiet (level + 1) c) : base.Around quiet level c.pop := by
  obtain ⟨σ, inner, exported, hlength, hscopes, hquiet, hbase⟩ := h
  obtain ⟨scope, inner, rfl⟩ := List.exists_cons_of_length_eq_add_one hlength
  refine ⟨σ, inner, exported, Nat.succ.inj hlength, ?_, hquiet, hbase⟩
  exact congrArg List.tail hscopes

theorem exportVariable (h : base.Around quiet level c) (hquiet : ¬ quiet) (v : Variable) :
    base.Around quiet level (c.exportVariable v) := by
  obtain ⟨σ, inner, exported, hlength, hscopes, -, hbase⟩ := h
  refine ⟨σ, inner, exported ++ [v], hlength, hscopes, fun q => absurd q hquiet, ?_⟩
  refine { hbase with exports := ?_ }
  show c.exports ++ [v] = _
  rw [show c.exports = _ from hbase.exports, List.append_assoc]

/-- All scopes that were opened are closed again. -/
theorem framed (h : base.Around quiet 0 c) (hdepth : c.depth = base.depth) :
    ∃ σ exported, base.Framed σ [] exported c ∧ (quiet → exported = []) := by
  obtain ⟨σ, inner, exported, hlength, hscopes, hquiet, hbase⟩ := h
  rw [List.length_eq_zero_iff.mp hlength, List.nil_append] at hscopes
  refine ⟨σ, exported, ?_, hquiet⟩
  rwa [← hscopes, ← hdepth] at hbase

end Context.Around

/-! ## Checks -/

def Importer.KeepsFrame (imports : Importer) : Prop :=
  ∀ (requested : String) (span : Span) (s : Checking),
    ∃ σ, s.context.Framed σ [] [] (imports requested span s).2.context

/-- The check of another file happens in a context of its own. -/
theorem importThrough_keepsFrame
    (answer : Context → String → Workspace → Option Report × Workspace) :
    (importThrough answer).KeepsFrame := by
  have hfail : ∀ (cause : Cause) (span : Span) (s : Checking),
      ∃ σ, s.context.Framed σ [] [] (fail cause span s).2.context :=
    fun cause span s => ⟨[], s.context.framed_report cause span⟩
  intro requested span s
  cases htarget : Path.target? s.context.path requested with
  | none =>
    rw [importThrough_invalid answer span htarget]
    exact hfail _ span s
  | some b =>
    by_cases hb : b ∈ s.context.importStack
    · rw [importThrough_cyclic answer span htarget hb]
      exact hfail _ span s
    · rw [importThrough_answer answer span htarget hb]
      dsimp only
      generalize answer s.context b s.workspace = o
      obtain ⟨report, ws⟩ := o
      cases report with
      | none => exact hfail _ span ⟨s.context, ws⟩
      | some r =>
        unfold checkReport
        dsimp only
        split
        · exact hfail _ span ⟨s.context, ws⟩
        · exact ⟨[], s.context.framed_instantiate _⟩

theorem Host.importer_keepsFrame (host : Host) (n : Nat) : (host.importer n).KeepsFrame := by
  rw [host.importer_eq]
  exact importThrough_keepsFrame _

theorem importer_keepsFrame (n : Nat) : (importer n).KeepsFrame := by
  rw [← Host.importer_own]
  exact Host.own.importer_keepsFrame n

section
variable {imports : Importer} (himports : imports.KeepsFrame)
include himports

theorem around_kept (base : Context) (quiet : Prop) (hbase : base.scopes ≠ []) :
    StepsKeep (fun level s => base.Around quiet level s.context) 1
      (fun level => quiet → 2 < level + base.scopes.length) imports where
  frame _ h hc := h.frame hc
  depth h _ := h
  declare {level _} v h hlevel := by
    obtain ⟨level, rfl⟩ := Nat.exists_eq_add_of_le' hlevel
    exact h.declare v
  push h := h.push
  pop h := h.pop
  exportVariable {_ s _} hexports h hroot _ hassigned := by
    refine hassigned.exportVariable (fun q => ?_) _
    have htwo : s.context.scopes.length = 2 := by simpa [Context.atFileRoot] using hroot
    have hlength := h.length_scopes
    have hdeep := hexports q
    omega
  importFile requested span h := by
    obtain ⟨σ, hc⟩ := himports requested span _
    exact h.frame hc
  least_le := Nat.le_refl 1
  exports_two _ := by
    have hpos := List.length_pos_iff.mpr hbase
    omega
  exports_succ h q := by
    have hdeep := h q
    omega

omit himports in
/-- The depth is counted down again wherever it was counted up. -/
theorem depth_congruence : Congruence fun _ _ m _ =>
    ∀ s : Checking, (m s).2.context.depth = s.context.depth where
  pure _ _ := rfl
  bind hm hf s := (hf _ _).trans (hm s)
  read _ _ := rfl
  step {_ f} _ hf _ s := by
    show (f s.context).2.depth = s.context.depth
    rw [hf.within_self s.context]
    rfl
  report _ _ _ := rfl
  nested {_ _ _} span hm s := by
    cases henter : s.context.enter? with
    | none => rw [nested_none henter]; rfl
    | some inner =>
      rw [nested_some henter, enter?_eq_some henter]
      exact congrArg (· - 1) (hm _)

theorem Importer.KeepsFrame.depth (requests : List String) : Importers (fun _ _ m _ =>
    ∀ s : Checking, (m s).2.context.depth = s.context.depth) imports imports requests := by
  intro requested _ span s
  obtain ⟨σ, hc⟩ := himports requested span s
  exact hc.depth

theorem Stmt.check_depth (stmt : Stmt) (s : Checking) :
    (stmt.check imports s).2.context.depth = s.context.depth :=
  Stmt.check_congr depth_congruence stmt (himports.depth _) s

theorem Stmt.checkAssignment_depth (a : Assignment Expr) (s : Checking) :
    (Stmt.checkAssignment imports a s).2.context.depth = s.context.depth :=
  Stmt.checkAssignment_congr depth_congruence a (himports.depth _) s

/-- What an expression exports it exports from the root of a file, through the body of a function. -/
theorem Expr.check_framed (e : Expr) {s : Checking} (h : s.context.scopes ≠ []) :
    ∃ σ exported, s.context.Framed σ [] exported (e.check imports s).2.context ∧
      (2 ≤ s.context.scopes.length ∨ e.Bodied → exported = []) := by
  let quiet : Prop := 2 ≤ s.context.scopes.length ∨ e.Bodied
  have hexports : (quiet → 2 < 0 + 1 + s.context.scopes.length) ∨ e.Bodied := by
    by_cases hbodied : e.Bodied
    · exact Or.inr hbodied
    · refine Or.inl fun q => ?_
      have htwo := q.resolve_right hbodied
      omega
  have hend := (around_kept himports s.context quiet h).expr e hexports (.refl _ _)
  exact hend.framed (Stmt.check_depth himports (.expr e) s)

/-- An assignment adds the variable it declares. It exports nothing that is no export. -/
theorem Stmt.checkAssignment_framed (a : Assignment Expr) {s : Checking}
    (h : s.context.scopes ≠ []) :
    let r := Stmt.checkAssignment imports a s
    r.1.name = a.name ∧ ∃ σ exported, s.context.Framed σ [r.1] exported r.2.context ∧
      (2 ≤ s.context.scopes.length → exported = []) := by
  let quiet : Prop := 2 ≤ s.context.scopes.length
  have hexports : quiet → 2 < 0 + 1 + s.context.scopes.length := by
    intro q
    have htwo : 2 ≤ s.context.scopes.length := q
    omega
  have hend := (around_kept himports s.context quiet h).assigning a hexports (.refl _ _)
  let r := assigning imports a s
  let v : Variable := ⟨a.name, if r.1.1 then .ignore else r.1.2⟩
  have hrun : Stmt.checkAssignment imports a s = (v, r.2.move .changed (r.2.context.declare v)) :=
    Stmt.checkAssignment_run imports a s
  have hdepth : r.2.context.depth = s.context.depth := by
    have hassigned : (Stmt.checkAssignment imports a s).2.context.depth = s.context.depth :=
      Stmt.checkAssignment_depth himports a s
    rw [hrun] at hassigned
    exact (Context.depth_declare _ v).symm.trans hassigned
  obtain ⟨σ, exported, hframed, hquiet⟩ := hend.framed hdepth
  have hscopes : r.2.context.scopes ≠ [] := by
    rw [← List.length_pos_iff, hframed.length_scopes]
    exact List.length_pos_iff.mpr h
  have hdeclared := hframed.trans (r.2.context.framed_declare v hscopes)
  rw [hrun]
  refine ⟨rfl, σ, exported, ?_, hquiet⟩
  simpa [Variable.apply_nil] using hdeclared

omit himports in
theorem nested_framed {n : Nat} {m : CheckM Ty} (span : Span)
    (hm : ∀ {s : Checking}, s.context.scopes ≠ [] → ∃ σ declared exported,
      s.context.Framed σ declared exported (m s).2.context ∧ declared.length ≤ n)
    {s : Checking} (h : s.context.scopes ≠ []) : ∃ σ declared exported,
      s.context.Framed σ declared exported (nested span m s).2.context ∧ declared.length ≤ n := by
  cases henter : s.context.enter? with
  | none =>
    rw [nested_none henter]
    exact ⟨[], [], [], s.context.framed_report _ span, Nat.zero_le _⟩
  | some inner =>
    obtain rfl := enter?_eq_some henter
    rw [nested_some henter]
    let entered := s.move .changed { s.context with depth := s.context.depth + 1 }
    obtain ⟨σ, declared, exported, hframed, hdeclared⟩ := hm (s := entered) h
    exact ⟨σ, declared, exported, hframed.leave, hdeclared⟩

theorem Stmt.check_framed (stmt : Stmt) {s : Checking} (h : s.context.scopes ≠ []) :
    ∃ σ declared exported, s.context.Framed σ declared exported (stmt.check imports s).2.context ∧
      declared.length ≤ stmt.declarations := by
  -- What declares nothing leaves the scopes around it alone.
  have hquiet : stmt.declarations = 0 → (∀ a span, stmt ≠ .exported a span) →
      ∃ σ declared exported, s.context.Framed σ declared exported (stmt.check imports s).2.context ∧
        declared.length ≤ stmt.declarations := by
    intro hnone hexported
    have hend := (around_kept himports s.context False h).stmt stmt (Or.inl hnone) False.elim
      (fun a span e => absurd e (hexported a span)) (.refl _ _)
    obtain ⟨σ, exported, hframed, -⟩ := hend.framed (stmt.check_depth himports s)
    exact ⟨σ, [], exported, hframed, Nat.zero_le _⟩
  cases stmt with
  | block body span => exact hquiet rfl fun _ _ e => by cases e
  | expr e => exact hquiet rfl fun _ _ e => by cases e
  | type t => exact hquiet rfl fun _ _ e => by cases e
  | assign a =>
    refine nested_framed a.span (fun {s} h => ?_) h
    obtain ⟨-, σ, exported, hframed, -⟩ := Stmt.checkAssignment_framed himports a h
    exact ⟨σ, _, exported, hframed, Nat.le_refl 1⟩
  | exported a span =>
    rw [Stmt.check_exported]
    refine nested_framed span (fun {s} h => ?_) h
    obtain ⟨-, σ, exported, hframed, -⟩ := Stmt.checkAssignment_framed himports a h
    refine exporting_cases (P := fun s' => ∃ σ declared exported,
      s.context.Framed σ declared exported s'.context ∧ declared.length ≤ 1)
      (fun _ => ?_) (fun _ _ => ?_) ⟨σ, _, exported, hframed, Nat.le_refl 1⟩
    · exact ⟨_, _, _, hframed.trans (Context.framed_report _ .nestedExport span), Nat.le_refl 1⟩
    · exact ⟨_, _, _, hframed.trans (Context.framed_exportVariable _ _), Nat.le_refl 1⟩

end

theorem Variable.apply_of_closed {v : Variable} (h : ∀ id, ¬ v.type.Mentions id)
    (σ : Ty.Substitution) : v.apply σ = v := by
  have htype : v.type.apply σ = v.type := by
    induction σ with
    | nil => rfl
    | cons step σ ih =>
      show Ty.apply σ (Ty.substitute step.1 step.2 v.type) = v.type
      rw [Ty.substitute_of_notMem step.1 step.2 v.type (h step.1)]
      exact ih
  rw [Variable.apply, htype]

/-- Where no placeholder stands, substitutions have nothing to rewrite. -/
theorem Context.Framed.eq_of_closed {σ : Ty.Substitution} {exported : List Variable}
    {c c' : Context} (h : c.Framed σ [] exported c') (hclosed : ∀ id, ¬ c.Mentions id) :
    c'.scopes = c.scopes ∧ c'.exports = c.exports ++ exported := by
  have hkept : ∀ v ∈ c.bindings, v.apply σ = v :=
    fun v hv => Variable.apply_of_closed (fun id hid => hclosed id ⟨v, hv, hid⟩) σ
  constructor
  · have hscopes : c.scopes.map (List.map (Variable.apply σ)) = c.scopes := by
      refine (List.map_congr_left fun scope hscope => ?_).trans (List.map_id _)
      refine (List.map_congr_left fun v hv => ?_).trans (List.map_id _)
      exact hkept v (List.mem_append_left _ (List.mem_flatten.mpr ⟨scope, hscope, hv⟩))
    rw [h.scopes, hscopes]
    cases c.scopes <;> rfl
  · have hexports : c.exports.map (Variable.apply σ) = c.exports := by
      refine (List.map_congr_left fun v hv => ?_).trans (List.map_id _)
      exact hkept v (List.mem_append_right _ hv)
    rw [h.exports, hexports]

/-- What the check of the statement leaves in place: all scopes, all variables and all exports, but
for one sequence of substitutions. Expressions leave alone what has no placeholders; only in a
context that has the scope of the globals alone they can export, through the body of a function. -/
structure Stmt.KeepsFrame (imports : Importer) (stmt : Stmt) (s : Checking) : Prop where
  scopes : (stmt.check imports s).2.context.scopes.length = s.context.scopes.length
  framed : ∃ σ declared exported,
    s.context.Framed σ declared exported (stmt.check imports s).2.context ∧
      declared.length ≤ stmt.declarations
  expression : ∀ e, stmt = .expr e → (∀ id, ¬ s.context.Mentions id) →
    let c' := (stmt.check imports s).2.context
    c'.scopes = s.context.scopes ∧ s.context.exports <+: c'.exports ∧
      (2 ≤ s.context.scopes.length ∨ e.Bodied → c'.exports = s.context.exports)

theorem Importer.KeepsFrame.stmt {imports : Importer} (himports : imports.KeepsFrame) (stmt : Stmt)
    {s : Checking} (h : s.context.scopes ≠ []) : stmt.KeepsFrame imports s := by
  obtain ⟨σ, declared, exported, hframed, hdeclared⟩ := stmt.check_framed himports h
  refine ⟨hframed.length_scopes, ⟨σ, declared, exported, hframed, hdeclared⟩, ?_⟩
  rintro e rfl hclosed
  obtain ⟨τ, exported, hframed, hquiet⟩ := e.check_framed himports h
  obtain ⟨hscopes, hexports⟩ := hframed.eq_of_closed hclosed
  refine ⟨hscopes, ⟨exported, hexports.symm⟩, fun q => ?_⟩
  rw [hquiet q, List.append_nil] at hexports
  exact hexports

/-- **Frame.** However deep imports go and whoever answers them, a check returns the context it was
given, with one sequence of substitutions applied to all variables and exports, and with no more
variables than the statement declares. -/
theorem check_keeps_frame (n : Nat) (stmt : Stmt) (s : Checking) (h : s.context.scopes ≠ []) :
    stmt.KeepsFrame (importer n) s ∧ ∀ host : Host, stmt.KeepsFrame (host.importer n) s :=
  ⟨(importer_keepsFrame n).stmt stmt h, fun host => (host.importer_keepsFrame n).stmt stmt h⟩

/-- One scope, with a function whose placeholder is not settled yet. -/
def oneFunction : Checking :=
  let f : Variable := ⟨"f", .function true [.placeholder true 0] (.placeholder true 0)⟩
  let c := Context.start ⟨[f], .standard⟩ "main" ["main"]
  ⟨{ c with nextId := 1 }, .ofSources (.ofFiles [])⟩

/-- `x = f("a")`, which settles it. -/
def settlingCall : Stmt :=
  .assign ⟨"x", none, some (.call (.name "f" default) [.string "a" default] default), default⟩

def numberOnly : Checking :=
  .start ⟨[⟨"n", .number true⟩], .standard⟩ "main" [] (.ofSources (.ofFiles []))

/-- `((x) x)(n)`, which brings a placeholder and settles it. -/
def innerCall : Expr :=
  .call (.function [⟨"x", none, default⟩] (.expr (.name "x" default)) default)
    [.name "n" default] default

theorem settlingCall_keeps_frame :
    oneFunction.context.scopes ≠ [] ∧ numberOnly.context.scopes ≠ [] ∧
      (∀ id, ¬ numberOnly.context.Mentions id) ∧ innerCall.Bodied ∧
      settlingCall.KeepsFrame (importer 0) oneFunction ∧
      (Stmt.expr innerCall).KeepsFrame (importer 0) numberOnly ∧
      (innerCall.check (importer 0) numberOnly).2.context.nextId = 1 ∧
      (innerCall.check (importer 0) numberOnly).2.context.scopes = numberOnly.context.scopes ∧
      (innerCall.check (importer 0) numberOnly).2.context.exports = numberOnly.context.exports := by
  have hclosed : ∀ id, ¬ numberOnly.context.Mentions id := by
    rintro id ⟨v, hv, hid⟩
    obtain rfl := List.mem_singleton.mp hv
    cases hid
  have hbodied : innerCall.Bodied := ⟨fun _ _ e => (by cases e), trivial, trivial⟩
  have hsettling := check_keeps_frame 0 settlingCall oneFunction (List.cons_ne_nil _ _)
  have hinner := check_keeps_frame 0 (.expr innerCall) numberOnly (List.cons_ne_nil _ _)
  obtain ⟨hscopes, -, hexports⟩ := hinner.1.expression innerCall rfl hclosed
  exact ⟨List.cons_ne_nil _ _, List.cons_ne_nil _ _, hclosed, hbodied, hsettling.1, hinner.1, rfl,
    hscopes, hexports (Or.inr hbodied)⟩

example : (settlingCall.check (importer 0) oneFunction).2.context.scopes =
    [[⟨"x", .string true⟩, ⟨"f", .function true [.string true] (.string true)⟩]] :=
  rfl

/-- A function whose body is an export is an expression that exports, if only one scope is open. -/
theorem function_body_exported :
    let body : Stmt := .exported ⟨"x", none, some (.string "a" default), default⟩ default
    let s' := ((Expr.function [] body default).check (importer 0) numberOnly).2
    numberOnly.context.scopes.length = 1 ∧ (∀ id, ¬ numberOnly.context.Mentions id) ∧
      numberOnly.context.exports = [] ∧ s'.context.errors = [] ∧
      s'.context.exports = [⟨"x", .string true⟩] := by
  refine ⟨rfl, ?_, rfl, rfl, rfl⟩
  rintro id ⟨v, hv, hid⟩
  obtain rfl := List.mem_singleton.mp hv
  cases hid

end ShapeCheck
