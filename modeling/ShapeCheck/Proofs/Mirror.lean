import ShapeCheck.Proofs.Held

/-!
# Exports mirror the root scope

An export is a copy of a variable of the root scope, made right after its declaration. Whatever
happens later happens to both: a call rewrites all variables and all exports alike, and a name that
is declared again neither replaces the first declaration nor is exported. `Mirrors` says so of every
part of a check inside a root block, moment by moment.
-/

namespace ShapeCheck

/-! ## Scopes and exports -/

namespace Scope

def first? (name : String) (scope : Scope) : Option Variable :=
  scope.declarations.find? (·.name = name)

def place (name : String) (scope : Scope) : Nat :=
  scope.declarations.findIdx (·.name = name)

/-- The exports are first declarations of the scope, in the order of their declaration. -/
structure Mirrors (exports : List Variable) (root : Scope) : Prop where
  ordered : exports.Pairwise fun v w => root.place v.name < root.place w.name
  held : ∀ v ∈ exports, root.first? v.name = some v

section
variable {root : Scope} {exports : List Variable} {name : String}

theorem first?_cons (v : Variable) :
    Scope.first? name (v :: root) = (root.first? name).or (if v.name = name then some v else none) := by
  unfold first? declarations
  rw [List.reverse_cons, List.find?_append]
  by_cases h : v.name = name <;> simp [h]

theorem place_lt_of_first? {w : Variable} (h : root.first? name = some w) :
    root.place name < root.declarations.length := by
  have hname := List.find?_some h
  exact List.findIdx_lt_length.mpr ⟨w, List.mem_of_find?_eq_some h, hname⟩

theorem place_cons_of_first? {v w : Variable} (h : root.first? name = some w) :
    Scope.place name (v :: root) = root.place name := by
  have hfound := place_lt_of_first? h
  unfold place declarations at *
  rw [List.reverse_cons, List.findIdx_append, if_pos hfound]

theorem first?_of_new {v : Variable} (h : ∀ u ∈ root, u.name ≠ v.name) :
    Scope.first? v.name (v :: root) = some v ∧
      Scope.place v.name (v :: root) = root.declarations.length := by
  have hnone : ∀ u ∈ root.declarations, ¬ u.name = v.name := fun u hu => h u (List.mem_reverse.mp hu)
  constructor
  · have hfirst : root.first? v.name = none := List.find?_eq_none.mpr (by simpa using hnone)
    rw [first?_cons, hfirst]
    simp
  · have hplace : root.declarations.findIdx (fun u => u.name = v.name) = root.declarations.length :=
      List.findIdx_eq_length.mpr (by simpa using hnone)
    unfold place declarations at *
    rw [List.reverse_cons, List.findIdx_append, hplace]
    simp

namespace Mirrors

theorem nil : root.Mirrors [] :=
  ⟨.nil, fun _ h => absurd h List.not_mem_nil⟩

theorem nodup (h : root.Mirrors exports) : (exports.map Variable.name).Nodup := by
  refine List.pairwise_map.mpr (h.ordered.imp fun hlt he => ?_)
  rw [he] at hlt
  exact Nat.lt_irrefl _ hlt

/-- A call rewrites both. -/
theorem apply (h : root.Mirrors exports) (σ : Ty.Substitution) :
    Scope.Mirrors (exports.map (Variable.apply σ)) (root.map (Variable.apply σ)) := by
  have hplace : ∀ name, Scope.place name (root.map (Variable.apply σ)) = root.place name := by
    intro name
    unfold place declarations
    rw [← List.map_reverse, List.findIdx_map]
    rfl
  have hfirst : ∀ name, Scope.first? name (root.map (Variable.apply σ)) =
      (root.first? name).map (Variable.apply σ) := by
    intro name
    unfold first? declarations
    rw [← List.map_reverse, List.find?_map]
    rfl
  constructor
  · refine List.pairwise_map.mpr (h.ordered.imp fun {v w} hlt => ?_)
    rw [hplace, hplace]
    exact hlt
  · intro v hv
    obtain ⟨u, hu, rfl⟩ := List.mem_map.mp hv
    rw [hfirst, show (Variable.apply σ u).name = u.name from rfl, h.held u hu]
    rfl

/-- First declarations stay where they are. -/
theorem declare (h : root.Mirrors exports) (v : Variable) : Scope.Mirrors exports (v :: root) := by
  constructor
  · refine h.ordered.imp_of_mem fun {u w} hu hw hlt => ?_
    rwa [place_cons_of_first? (h.held u hu), place_cons_of_first? (h.held w hw)]
  · intro u hu
    rw [first?_cons, h.held u hu]
    rfl

/-- A name that was not there before comes last in both. -/
theorem exported (h : root.Mirrors exports) {v : Variable} (hnew : ∀ u ∈ root, u.name ≠ v.name) :
    Scope.Mirrors (exports ++ [v]) (v :: root) := by
  obtain ⟨hfirst, hplace⟩ := first?_of_new hnew
  constructor
  · refine List.pairwise_append.mpr ⟨(h.declare v).ordered, List.pairwise_singleton _ _, ?_⟩
    intro u hu w hw
    rw [List.mem_singleton.mp hw, hplace, place_cons_of_first? (h.held u hu)]
    exact place_lt_of_first? (h.held u hu)
  · intro u hu
    rcases List.mem_append.mp hu with hu | hu
    · exact (h.declare v).held u hu
    · rw [List.mem_singleton.mp hu]
      exact hfirst

end Mirrors

end

end Scope

/-! ## Contexts -/

namespace Context

def root? (c : Context) : Option Scope :=
  c.scopes.reverse[1]?

def Mirrored (c : Context) : Prop :=
  ∀ root, c.root? = some root → root.Mirrors c.exports

variable {c c' : Context}

theorem root?_eq_none (h : c.scopes.length ≤ 1) : c.root? = none := by
  simpa [root?] using h

theorem mirrored_of_length (h : c.scopes.length ≤ 1) : c.Mirrored := by
  intro root hroot
  rw [root?_eq_none h] at hroot
  cases hroot

theorem root?_of_cons {inner : Scope} {outer : List Scope} (h : 2 ≤ outer.length)
    (hscopes : c.scopes = inner :: outer) : c.root? = outer.reverse[1]? := by
  rw [root?, hscopes, List.reverse_cons, List.getElem?_append_left (by simpa using Nat.lt_of_succ_le h)]

theorem Mirrored.of_eq (h : c.Mirrored) (hroot : c'.root? = c.root?)
    (hexports : c'.exports = c.exports) : c'.Mirrored := by
  unfold Mirrored
  rw [hroot, hexports]
  exact h

theorem Mirrored.push (h : c.Mirrored) (hk : 2 ≤ c.scopes.length) : c.push.Mirrored :=
  h.of_eq (root?_of_cons hk rfl) rfl

theorem Mirrored.pop (h : c.Mirrored) (hk : 3 ≤ c.scopes.length) : c.pop.Mirrored := by
  obtain ⟨inner, outer, hscopes⟩ := List.exists_cons_of_length_pos (by omega : 0 < c.scopes.length)
  rw [hscopes, List.length_cons] at hk
  refine h.of_eq ?_ rfl
  rw [root?_of_cons (by omega) hscopes]
  show c.scopes.tail.reverse[1]? = _
  rw [hscopes]
  rfl

theorem Mirrored.frame {σ : Ty.Substitution} (h : c.Mirrored) (hc : c.Framed σ [] [] c') :
    c'.Mirrored := by
  have hscopes : c'.scopes = c.scopes.map (List.map (Variable.apply σ)) := by
    rw [hc.scopes]
    cases c.scopes <;> rfl
  intro root hroot
  rw [root?, hscopes, ← List.map_reverse, List.getElem?_map, Option.map_eq_some_iff] at hroot
  obtain ⟨root, hroot, rfl⟩ := hroot
  rw [hc.exports, List.append_nil]
  exact (h root hroot).apply σ

theorem Mirrored.declare (h : c.Mirrored) (hk : 2 ≤ c.scopes.length) (v : Variable) :
    (c.declare v).Mirrored := by
  obtain ⟨inner, outer, hscopes⟩ := List.exists_cons_of_length_pos (by omega : 0 < c.scopes.length)
  have hdeclare : c.declare v = { c with scopes := (v :: inner) :: outer } := by
    unfold Context.declare
    rw [hscopes]
  rw [hdeclare]
  rcases Nat.lt_or_ge 1 outer.length with houter | houter
  · refine h.of_eq ?_ rfl
    rw [root?_of_cons houter hscopes, root?_of_cons houter rfl]
  · -- The innermost scope is the root scope.
    obtain ⟨globals, rfl⟩ := List.length_eq_one_iff.mp
      (show outer.length = 1 by rw [hscopes, List.length_cons] at hk; omega)
    intro root hroot
    cases hroot
    exact (h inner (by rw [root?, hscopes]; rfl)).declare v

theorem mirrored_exportVariable {v : Variable} {rest globals : Scope}
    (hscopes : c.scopes = [v :: rest, globals]) (hrest : rest.Mirrors c.exports)
    (hnew : ∀ u ∈ rest, u.name ≠ v.name) : (c.exportVariable v).Mirrored := by
  intro root hroot
  rw [root?, show (c.exportVariable v).scopes = c.scopes from rfl, hscopes] at hroot
  cases hroot
  exact hrest.exported hnew

end Context

/-! ## Checks -/

open CheckM

structure Checking.Mirrored (s : Checking) : Prop where
  trail : ∀ m ∈ s.workspace.trail, m.context.Mirrored
  latest : ∃ m ∈ s.workspace.trail, m.context = s.context

/-- From `s` on, `s'` is reached in the same file, with all contexts mirrored. -/
structure Checking.Onward (s s' : Checking) : Prop where
  path : s'.context.path = s.context.path
  mirrored : s'.Mirrored
  trail : s.workspace.trail ⊆ s'.workspace.trail

namespace Checking

variable {s s' s'' : Checking}

theorem Mirrored.context (h : s.Mirrored) : s.context.Mirrored := by
  obtain ⟨m, hm, hc⟩ := h.latest
  exact hc ▸ h.trail m hm

theorem Mirrored.move (h : s.Mirrored) (event : Event) {c : Context} (hc : c.Mirrored) :
    (s.move event c).Mirrored where
  trail := List.forall_mem_cons.mpr ⟨hc, h.trail⟩
  latest := ⟨⟨event, c⟩, List.mem_cons_self, rfl⟩

theorem Onward.refl (h : s.Mirrored) : s.Onward s :=
  ⟨rfl, h, List.Subset.refl _⟩

theorem Onward.trans (h : s.Onward s') (h' : s'.Onward s'') : s.Onward s'' :=
  ⟨h'.path.trans h.path, h'.mirrored, List.Subset.trans h.trail h'.trail⟩

theorem Onward.move (h : s.Onward s') (event : Event) {c : Context}
    (hpath : c.path = s'.context.path) (hc : c.Mirrored) : s.Onward (s'.move event c) :=
  ⟨hpath.trans h.path, h.mirrored.move event hc,
    List.Subset.trans h.trail (List.subset_cons_self _ _)⟩

theorem Onward.frame {σ : Ty.Substitution} (h : s.Onward s') (event : Event) {c : Context}
    (hc : s'.context.Framed σ [] [] c) : s.Onward (s'.move event c) :=
  h.move event hc.path (h.mirrored.context.frame hc)

end Checking

def Importer.Mirrors (imports : Importer) : Prop :=
  ∀ (requested : String) (span : Span) (s : Checking), s.Mirrored →
    s.Onward (imports requested span s).2

section
variable {imports : Importer} (hkeeps : imports.KeepsFrame)
include hkeeps

/-- The variable is exported right after its declaration if the name is new in the root scope. -/
theorem Stmt.exportVariable_mirrored (a : Assignment Expr) {s : Checking} (h : s.context.Mirrored)
    (hroot : s.context.atFileRoot = true) (hnew : s.context.isDeclared a.name = false) :
    let r := Stmt.checkAssignment imports a s
    (r.2.context.exportVariable r.1).Mirrored := by
  intro r
  have htwo : s.context.scopes.length = 2 := by simpa [Context.atFileRoot] using hroot
  obtain ⟨root, outer, hscopes⟩ :=
    List.exists_cons_of_length_pos (by omega : 0 < s.context.scopes.length)
  obtain ⟨globals, rfl⟩ : ∃ globals, outer = [globals] :=
    List.length_eq_one_iff.mp (by simpa [hscopes] using htwo)
  obtain ⟨hname, σ, exported, hframed, hquiet⟩ :=
    Stmt.checkAssignment_framed hkeeps a (hscopes ▸ List.cons_ne_nil _ _)
  have hdeclared : r.2.context.scopes =
      [r.1 :: root.map (Variable.apply σ), globals.map (Variable.apply σ)] := by
    rw [hframed.scopes, hscopes]
    rfl
  have hfresh : ∀ u ∈ root.map (Variable.apply σ), u.name ≠ r.1.name := by
    intro u hu he
    obtain ⟨u, hu', rfl⟩ := List.mem_map.mp hu
    have hold : s.context.isDeclared a.name = true :=
      Context.isDeclared_iff.mpr ⟨u, by rw [Context.innermost, hscopes]; exact hu', he.trans hname⟩
    rw [hnew] at hold
    cases hold
  have hmirrors : Scope.Mirrors r.2.context.exports (root.map (Variable.apply σ)) := by
    rw [hframed.exports, hquiet htwo.ge, List.append_nil]
    exact (h root (by rw [Context.root?, hscopes]; rfl)).apply σ
  exact Context.mirrored_exportVariable hdeclared hmirrors hfresh

/-- Inside the root block, `level` scopes are open on top of the root scope. -/
theorem mirrors_kept (himports : imports.Mirrors) (base : Checking) :
    StepsKeep (fun level s => base.Onward s ∧ s.context.scopes.length = level + 2) 0
      (fun _ => True) imports where
  frame event h hc := ⟨h.1.frame event hc, hc.length_scopes.trans h.2⟩
  depth h _ := ⟨h.1.move .changed rfl h.1.mirrored.context, h.2⟩
  declare {level s} v h _ := by
    have hlength : 2 ≤ s.context.scopes.length := by omega
    have hframed := s.context.framed_declare v (List.length_pos_iff.mp (by omega))
    refine ⟨h.1.move .changed hframed.path ?_, hframed.length_scopes.trans h.2⟩
    exact h.1.mirrored.context.declare hlength v
  push {level s} h := by
    have hlength : 2 ≤ s.context.scopes.length := by omega
    exact ⟨h.1.move .changed rfl (h.1.mirrored.context.push hlength), congrArg Nat.succ h.2⟩
  pop {level s} h := by
    have hlength : 3 ≤ s.context.scopes.length := by omega
    refine ⟨h.1.move .changed rfl (h.1.mirrored.context.pop hlength), ?_⟩
    show s.context.scopes.tail.length = level + 2
    rw [List.length_tail, h.2]
    rfl
  exportVariable _ h hroot hnew hassigned := by
    refine ⟨hassigned.1.move .changed rfl ?_, hassigned.2⟩
    exact Stmt.exportVariable_mirrored hkeeps _ h.1.mirrored.context hroot hnew
  importFile {level s} requested span h := by
    obtain ⟨σ, hc⟩ := hkeeps requested span s
    refine ⟨h.1.trans (himports requested span s h.1.mirrored), ?_⟩
    exact hc.length_scopes.trans h.2
  least_le := Nat.zero_le 1
  exports_two := trivial
  exports_succ _ := trivial

end

/-! ## Files -/

def Stmt.IsBlock : Stmt → Prop
  | .block _ _ => True
  | _ => False

theorem parseTokens_isBlock {tokens : List Token} {file : String} {maxDepth : Nat} {tree : Stmt}
    (h : parseTokens tokens file maxDepth = .ok tree) : tree.IsBlock := by
  unfold parseTokens at h
  split at h <;> cases h
  trivial

theorem Sources.parse?_isBlock {S : Sources} {b : String} {tree : Stmt}
    (h : S.parse? b = some (.ok tree)) : tree.IsBlock := by
  obtain ⟨text, -, hparse⟩ := Option.map_eq_some_iff.mp h
  unfold parseSource at hparse
  cases htokens : tokenize text (some (S.label b)) with
  | ok tokens =>
    rw [htokens] at hparse
    exact parseTokens_isBlock hparse
  | error e =>
    rw [htokens] at hparse
    cases hparse

def Workspace.Mirrored (ws : Workspace) : Prop :=
  ∀ m ∈ ws.trail, m.context.Mirrored

/-- The exports are those of a moment at which the root scope of the file at `path` was open, if
there are any. -/
def Workspace.Exported (path : String) (exports : List Variable) (ws : Workspace) : Prop :=
  exports = [] ∨ ∃ m ∈ ws.trail, m.context.path = path ∧ m.context.root?.isSome ∧
    m.context.exports = exports

/-- An empty file has no root scope. -/
theorem emptyBlock_mirrored (imports : Importer) (span : Span) {s : Checking} (h : s.Mirrored) :
    let s' := ((Stmt.block [] span).check imports s).2
    s.Onward s' ∧ s'.context.exports = s.context.exports := by
  have hrun : (Stmt.block [] span).check imports =
      nested span (do report .emptyBlock span; return .empty) := rfl
  rw [hrun]
  cases henter : s.context.enter? with
  | none =>
    rw [nested_none henter]
    have hreport := (Checking.Onward.refl h).frame .changed (s.context.framed_report
      (.nestingTooDeep s.context.environment.config.maxDepth) span)
    exact ⟨hreport.frame _ (.refl _), rfl⟩
  | some inner =>
    obtain rfl := enter?_eq_some henter
    rw [nested_some henter]
    have hentered := (Checking.Onward.refl h).move .changed
      (c := { s.context with depth := s.context.depth + 1 }) rfl h.context
    have hreport := hentered.frame .changed (Context.framed_report _ .emptyBlock span)
    have hleft := hreport.move .changed (c := s.context.report .emptyBlock span) rfl h.context
    exact ⟨hleft.frame _ (.refl _), rfl⟩

section
variable {imports : Importer} (hkeeps : imports.KeepsFrame) (himports : imports.Mirrors)
include hkeeps himports

/-- The root block opens the root scope with nothing exported, and closes it at the end. -/
theorem rootBlock_mirrored (first : Stmt) (rest : List Stmt) (span : Span) {s : Checking}
    (h : s.Mirrored) (hscopes : s.context.scopes.length = 1) (hnone : s.context.exports = []) :
    let s' := ((Stmt.block (first :: rest) span).check imports s).2
    s.Onward s' ∧ s'.workspace.Exported s.context.path s'.context.exports := by
  let body : CheckM Ty := do
    let type ← first.check imports
    Stmt.checkRest imports type rest
  have hblock : (Stmt.block (first :: rest) span).check imports = nested span (inScope body id) :=
    Stmt.check_block imports first rest span
  rw [hblock]
  cases henter : s.context.enter? with
  | none =>
    rw [nested_none henter]
    have hreport := (Checking.Onward.refl h).frame .changed (s.context.framed_report
      (.nestingTooDeep s.context.environment.config.maxDepth) span)
    exact ⟨hreport.frame _ (.refl _), Or.inl hnone⟩
  | some inner =>
    obtain rfl := enter?_eq_some henter
    rw [nested_some henter]
    let entered := s.move .changed { s.context with depth := s.context.depth + 1 }
    let pushed := entered.move .changed entered.context.push
    have hentered : s.Onward entered := (Checking.Onward.refl h).move .changed rfl h.context
    have hpushed : s.Onward pushed := by
      refine hentered.move .changed rfl fun root _ => ?_
      show root.Mirrors s.context.exports
      rw [hnone]
      exact .nil
    have hlength : pushed.context.scopes.length = 0 + 2 := congrArg Nat.succ hscopes
    obtain ⟨hend, htwo⟩ := (mirrors_kept hkeeps himports s).stmts first rest (Nat.zero_le _) trivial
      ⟨hpushed, hlength⟩
    let popped := (body pushed).2.context.pop
    have hone : popped.scopes.length ≤ 1 := by
      show (body pushed).2.context.scopes.tail.length ≤ 1
      rw [List.length_tail, htwo]
    have hpopped := hend.move .changed (c := popped) rfl (Context.mirrored_of_length hone)
    have hleft := hpopped.move .changed (c := popped.leave) rfl (Context.mirrored_of_length hone)
    refine ⟨hleft.move (.typed (body pushed).1) rfl (Context.mirrored_of_length hone), ?_⟩
    -- The moments of closing stand after those of the statements.
    have htrail : (body pushed).2.workspace.trail ⊆ _ :=
      List.subset_append_right [⟨.typed (body pushed).1, popped.leave⟩, ⟨.changed, popped.leave⟩,
        ⟨.changed, popped⟩] _
    obtain ⟨m, hm, hc⟩ := hend.mirrored.latest
    refine Or.inr ⟨m, htrail hm, ?_, ?_, ?_⟩
    · rw [hc]
      exact hend.path
    · rw [hc, Context.root?]
      simp [htwo]
    · rw [hc]
      rfl

theorem checkFile_mirrored (env : Environment) (path : String) (stack : List String) {tree : Stmt}
    (htree : tree.IsBlock) {ws : Workspace} (h : ws.Mirrored) :
    let r := checkFile imports env path stack tree ws
    r.2.Mirrored ∧ ws.trail ⊆ r.2.trail ∧ r.2.Exported path r.1.exports := by
  let s := Checking.start env path stack ws
  have hone : s.context.scopes.length = 1 := rfl
  have hs : s.Mirrored :=
    ⟨List.forall_mem_cons.mpr ⟨Context.mirrored_of_length hone.le, h⟩, _, List.mem_cons_self, rfl⟩
  have hrun : s.Onward (tree.check imports s).2 ∧
      (tree.check imports s).2.workspace.Exported path (tree.check imports s).2.context.exports := by
    cases tree with
    | block body span =>
      cases body with
      | nil =>
        obtain ⟨honward, hexports⟩ := emptyBlock_mirrored imports span hs
        exact ⟨honward, Or.inl hexports⟩
      | cons first rest => exact rootBlock_mirrored hkeeps himports first rest span hs hone rfl
    | _ => exact htree.elim
  rw [checkFile_run]
  exact ⟨hrun.1.mirrored.trail, List.Subset.trans (List.subset_cons_self _ _) hrun.1.trail, hrun.2⟩

end

theorem importWith_mirrors
    {open? : Context → String → Stmt → Workspace → Option Report × Workspace}
    (hopen : ∀ (c : Context) (b : String) (tree : Stmt) (ws : Workspace), tree.IsBlock →
      ws.Mirrored → (open? c b tree ws).2.Mirrored ∧ ws.trail ⊆ (open? c b tree ws).2.trail) :
    (importWith open?).Mirrors := by
  have hfail : ∀ (cause : Cause) (span : Span) (s : Checking), s.Mirrored →
      s.Onward (fail cause span s).2 :=
    fun cause span s h => (Checking.Onward.refl h).frame _ (s.context.framed_report cause span)
  have hcheck : ∀ (b : String) (span : Span) (report : Option Report) (s : Checking), s.Mirrored →
      s.Onward (checkReport b span report s).2 := by
    intro b span report s h
    cases report with
    | none => exact hfail _ span s h
    | some r =>
      unfold checkReport
      dsimp only
      split
      · exact hfail _ span s h
      · exact (Checking.Onward.refl h).frame _ (s.context.framed_instantiate _)
  intro requested span s h
  cases ht : Path.target? s.context.path requested with
  | none =>
    rw [importWith_invalid _ span ht]
    exact hfail _ span s h
  | some b =>
    by_cases hb : b ∈ s.context.importStack
    · rw [importWith_cyclic _ span ht hb]
      exact hfail _ span s h
    · rw [importWith_report _ span ht hb]
      have hreport : (s.workspace.report? (open? s.context b) b).2.Mirrored ∧
          s.workspace.trail ⊆ (s.workspace.report? (open? s.context b) b).2.trail := by
        have hcases := Workspace.reported_report? (open? s.context b) b s.workspace
        generalize s.workspace.report? (open? s.context b) b = o at hcases ⊢
        cases hcases with
        | kept _ => exact ⟨h.trail, List.Subset.refl _⟩
        | missing _ _ => exact ⟨h.trail, List.Subset.refl _⟩
        | unparsable _ _ => exact ⟨h.trail, List.Subset.refl _⟩
        | unopened _ hparse hrun | opened _ hparse hrun =>
          have hopened := hopen s.context b _ (s.workspace.opening b) (Sources.parse?_isBlock hparse)
            h.trail
          rw [hrun] at hopened
          exact hopened
      obtain ⟨m, hm, hc⟩ := h.latest
      have hs' : s.Onward ⟨s.context, (s.workspace.report? (open? s.context b) b).2⟩ :=
        ⟨rfl, ⟨hreport.1, m, hreport.2 hm, hc⟩, hreport.2⟩
      exact hs'.trans (hcheck b span _ _ hs'.mirrored)

theorem importer_mirrors : ∀ n : Nat, (importer n).Mirrors
  | 0 => by
    rw [importer_eq]
    exact importWith_mirrors fun _ _ _ _ _ h => ⟨h, List.Subset.refl _⟩
  | n + 1 => by
    rw [importer_eq]
    refine importWith_mirrors fun c b tree ws htree h => ?_
    obtain ⟨hmirrored, htrail, -⟩ := checkFile_mirrored (importer_keepsFrame n) (importer_mirrors n)
      c.environment b c.importStack htree h
    exact ⟨hmirrored, htrail⟩

/-! ## Programs -/

/-- **Exports mirror the root scope.** At every moment of a run and in every file, each export is the
first declaration of its name in the root scope, as it is at that moment, and exports stand in the
order of these declarations. What the file exports in the end is what it exported at a moment when
its root scope was open. -/
theorem exports_mirror_root (ws : Workspace) (env : Environment) (path : String)
    {tokens : List Token} {file : String} {maxDepth : Nat} {tree : Stmt}
    (h : parseTokens tokens file maxDepth = .ok tree) :
    let outcome := ws.check env path tree
    (∀ m ∈ outcome.2.trail, ∀ root, m.context.root? = some root →
      root.Mirrors m.context.exports ∧ (m.context.exports.map Variable.name).Nodup) ∧
    outcome.2.Exported (Path.normalize path) outcome.1.exports ∧
    (outcome.1.exports.map Variable.name).Nodup := by
  intro outcome
  obtain ⟨hmirrored, -, hexported⟩ := checkFile_mirrored (importer_keepsFrame ws.sources.capacity)
    (importer_mirrors ws.sources.capacity) env (Path.normalize path) [] (parseTokens_isBlock h)
    (show ws.startTrail.Mirrored from fun m hm => absurd hm List.not_mem_nil)
  refine ⟨fun m hm root hroot => ?_, hexported, ?_⟩
  · have hroot := hmirrored m hm root hroot
    exact ⟨hroot, hroot.nodup⟩
  · rcases hexported with hnone | ⟨m, hm, -, hopen, hexports⟩
    · rw [show outcome.1.exports = [] from hnone]
      exact List.nodup_nil
    · obtain ⟨root, hroot⟩ := Option.isSome_iff_exists.mp hopen
      rw [show outcome.1.exports = m.context.exports from hexports.symm]
      exact (hmirrored m hm root hroot).nodup

def exportingTokens : List Token :=
  let text := "export id = (x) x\nt = 1\nexport t = 2\n\x7b export n = 3 \x7d\nexport s = id(\"a\")"
  (tokenize text none).toOption.getD []

def exportingTree : Stmt :=
  treeOf (parseTokens exportingTokens "main" 256)

section

-- The run below is evaluated as a whole and not unfolded.
attribute [local irreducible] Workspace.check

theorem exporting_mirrors_root :
    let outcome :=
      (Workspace.ofSources (.ofFiles [])).check ⟨Prelude.globals, .standard⟩ "main" exportingTree
    parseTokens exportingTokens "main" 256 = .ok exportingTree ∧
    outcome.1.exports.map (fun v => (v.name, v.type.render)) =
      [("id", "(string) string"), ("s", "string")] ∧
    (∀ m ∈ outcome.2.trail, ∀ root, m.context.root? = some root →
      root.Mirrors m.context.exports ∧ (m.context.exports.map Variable.name).Nodup) ∧
    outcome.2.Exported (Path.normalize "main") outcome.1.exports ∧
    (outcome.1.exports.map Variable.name).Nodup := by
  intro outcome
  have hparse : parseTokens exportingTokens "main" 256 = .ok exportingTree :=
    eq_ok_treeOf (by decide +kernel)
  exact ⟨hparse, by decide +kernel, exports_mirror_root _ _ "main" hparse⟩

end

end ShapeCheck
