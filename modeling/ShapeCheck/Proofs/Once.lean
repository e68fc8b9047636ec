import ShapeCheck.Proofs.Levels

/-!
# Every file once, and none left out

A file is loaded when it is imported, has no report and is not open. It stays open until its report
is saved, and the report is never replaced, so no file that exists is loaded again. When a file is
finished, each of its imports is open, has a report or leads to no file. At the end only the program
itself is open, and the files with a report are those that imports lead to.
-/

namespace ShapeCheck

open Relation

/-! ## The requests of a check -/

/-- The import of `b` has been followed, or there may be imports that were not looked at. -/
def Met (P : Program) (stack : List String) (es : Entries Report) (b : String) : Prop :=
  es.Record Cause.IsTooDeep ∨ b ∈ stack ∨ (es.get? b).isSome ∨ P.sources.text? b = none

/-- What is known of the requests since there were the reports `known`, when the files of `stack`
are open and there are the reports `es`. -/
structure Visited (P : Program) (known : Entries Report) (stack : List String)
    (requests : List Request) (es : Entries Report) : Prop where
  loads : ∀ b, (P.sources.text? b).isSome → requests.count (.load b) ≤ 1
  loaded : ∀ b, (P.sources.text? b).isSome → .load b ∈ requests → b ∈ stack ∨ (es.get? b).isSome
  entry : .load P.path ∉ requests
  saves : ∀ b, requests.count (.save b) ≤ 1
  saved : ∀ b, .save b ∈ requests → (es.get? b).isSome ∧ known.get? b = none
  kept : ∀ b r, known.get? b = some r → es.get? b = some r
  found : ∀ b, (es.get? b).isSome → (known.get? b).isSome ∨
    b ≠ P.path ∧ (P.sources.text? b).isSome ∧ ReflTransGen P.Imports P.path b
  closed : ∀ b, (es.get? b).isSome → known.get? b = none →
    ∀ c, P.Imports b c → Met P stack es c
  sorted : known.Sorted → es.Sorted

section
variable {P : Program} {known es es' : Entries Report} {stack : List String} {b : String}
variable {requests : List Request}

theorem Met.grows {opened : List String} (h : Met P stack es b)
    (hg : Entries.Grows opened es es') : Met P stack es' b := by
  rcases h with h | h | h | h
  · exact Or.inl (h.grows hg)
  · exact Or.inr (Or.inl h)
  · obtain ⟨r, hr⟩ := Option.isSome_iff_exists.mp h
    have hr' := hg.kept b r hr
    exact Or.inr (Or.inr (Or.inl (by simp [hr'])))
  · exact Or.inr (Or.inr (Or.inr h))

theorem Met.push (h : Met P stack es b) (a : String) : Met P (stack ++ [a]) es b := by
  rcases h with h | h | h
  · exact Or.inl h
  · exact Or.inr (Or.inl (List.mem_append_left _ h))
  · exact Or.inr (Or.inr h)

/-- A file that was open has a report now. -/
theorem Met.pop {a c : String} {r : Report} (h : Met P (stack ++ [a]) es c)
    (hnew : es.get? a = none) : Met P stack (es.insert a r) c := by
  have hgrows : Entries.Grows [] es (es.insert a r) :=
    Entries.Grows.refl.insert hnew (by simp) r
  by_cases hc : c = a
  · refine Or.inr (Or.inr (Or.inl ?_))
    simp [Entries.get?_insert, hc]
  · refine Met.grows ?_ hgrows
    rcases h with h | h | h
    · exact Or.inl h
    · exact Or.inr (Or.inl (by simpa [hc] using h))
    · exact Or.inr (Or.inr h)

namespace Visited

theorem start (P : Program) (known : Entries Report) (stack : List String) :
    Visited P known stack [] known where
  loads b _ := by simp
  loaded b _ h := absurd h List.not_mem_nil
  entry := List.not_mem_nil
  saves b := by simp
  saved b h := absurd h List.not_mem_nil
  kept b r h := h
  found b h := Or.inl h
  closed b h hnew := by simp [hnew] at h
  sorted h := h

theorem known_none (h : Visited P known stack requests es) (hb : es.get? b = none) :
    known.get? b = none := by
  cases hk : known.get? b with
  | none => rfl
  | some r => rw [h.kept b r hk] at hb; cases hb

theorem lookup (h : Visited P known stack requests es) (b : String) :
    Visited P known stack (.lookup b :: requests) es where
  loads a ha := by simpa using h.loads a ha
  loaded a ha hl := h.loaded a ha (by simpa using hl)
  entry := by simpa using h.entry
  saves a := by simpa using h.saves a
  saved a ha := h.saved a (by simpa using ha)
  kept := h.kept
  found := h.found
  closed := h.closed
  sorted := h.sorted

theorem load_missing (h : Visited P known stack requests es) (hpath : b ≠ P.path)
    (hb : P.sources.text? b = none) : Visited P known stack (.load b :: requests) es where
  loads a ha := by
    have hab : b ≠ a := fun e => by simp [← e, hb] at ha
    simpa [List.count_cons, hab] using h.loads a ha
  loaded a ha hl := by
    have hab : a ≠ b := fun e => by simp [e, hb] at ha
    exact h.loaded a ha (by simpa [hab] using hl)
  entry := by simpa [hpath.symm] using h.entry
  saves a := by simpa using h.saves a
  saved a ha := h.saved a (by simpa using ha)
  kept := h.kept
  found := h.found
  closed := h.closed
  sorted := h.sorted

theorem load (h : Visited P known stack requests es) (hpath : b ≠ P.path) (hb : b ∉ stack)
    (hnew : es.get? b = none) : Visited P known (stack ++ [b]) (.load b :: requests) es where
  loads a ha := by
    by_cases hab : b = a
    · subst hab
      have hnot : .load b ∉ requests := fun hl => by simpa [hb, hnew] using h.loaded b ha hl
      simp [List.count_eq_zero_of_not_mem hnot]
    · simpa [List.count_cons, hab] using h.loads a ha
  loaded a ha hl := by
    rcases List.mem_cons.mp hl with e | hl
    · cases e
      exact Or.inl (by simp)
    · exact (h.loaded a ha hl).imp_left (List.mem_append_left _)
  entry := by simpa [hpath.symm] using h.entry
  saves a := by simpa using h.saves a
  saved a ha := h.saved a (by simpa using ha)
  kept := h.kept
  found := h.found
  closed a ha hk c hac := (h.closed a ha hk c hac).push b
  sorted := h.sorted

theorem save {r : Report} (h : Visited P known (stack ++ [b]) requests es)
    (hnew : es.get? b = none) (hpath : b ≠ P.path) (htext : (P.sources.text? b).isSome)
    (hreach : ReflTransGen P.Imports P.path b)
    (himports : ∀ c, P.Imports b c → r.Records Cause.IsTooDeep ∨ Met P (stack ++ [b]) es c) :
    Visited P known stack (.save b :: requests) (es.insert b r) where
  loads a ha := by simpa using h.loads a ha
  loaded a ha hl := by
    have hold := h.loaded a ha (by simpa using hl)
    by_cases hab : b = a
    · simp [Entries.get?_insert, hab]
    · simpa [Entries.get?_insert, hab, Ne.symm hab] using hold
  entry := by simpa using h.entry
  saves a := by
    by_cases hab : b = a
    · subst hab
      have hnot : .save b ∉ requests := fun hs => by simpa [hnew] using (h.saved b hs).1
      simp [List.count_eq_zero_of_not_mem hnot]
    · simpa [List.count_cons, hab] using h.saves a
  saved a ha := by
    by_cases hab : b = a
    · subst hab
      exact ⟨by simp [Entries.get?_insert], h.known_none hnew⟩
    · simpa [Entries.get?_insert, hab] using h.saved a (by simpa [Ne.symm hab] using ha)
  kept a r' ha := by
    have hab : b ≠ a := fun e => by simp [← e, h.known_none hnew] at ha
    rw [Entries.get?_insert, if_neg hab]
    exact h.kept a r' ha
  found a ha := by
    by_cases hab : b = a
    · subst hab
      exact Or.inr ⟨hpath, htext, hreach⟩
    · exact h.found a (by simpa [Entries.get?_insert, hab] using ha)
  closed a ha hk c hac := by
    by_cases hab : b = a
    · subst hab
      rcases himports c hac with hr | hm
      · exact Or.inl ⟨b, r, by simp [Entries.get?_insert], hr⟩
      · exact hm.pop hnew
    · exact (h.closed a (by simpa [Entries.get?_insert, hab] using ha) hk c hac).pop hnew
  sorted hk := Entries.sorted_insert b r (h.sorted hk)

end Visited

end

/-! ## Imports -/

section
variable (P : Program) (base : Workspace)

def Toured (stack : List String) (journal : List Request) (es : Entries Report) : Prop :=
  ∃ requests, journal = requests ++ base.journal ∧ Visited P base.reports stack requests es

structure Touring (q : String) (stack : List String) (o : Outline) : Prop where
  path : o.path = q
  importStack : o.importStack = stack
  sources : o.sources = P.sources
  toured : Toured P base stack o.journal o.reports

def Followed (q : String) (stack : List String) (requested : String) (o : Outline) : Prop :=
  ∀ b, Path.target? q requested = some b →
    (∃ e ∈ o.errors, e.cause.IsTooDeep) ∨ Met P stack o.reports b

end

section
variable {P : Program} {base : Workspace}

theorem Followed.extends {q requested : String} {stack : List String} {o o' : Outline}
    (h : Followed P q stack requested o) (he : o.Extends o') : Followed P q stack requested o' := by
  intro b hb
  rcases h b hb with ⟨e, he', hd⟩ | hm
  · exact Or.inl ⟨e, he.errors.subset he', hd⟩
  · exact Or.inr (hm.grows he.reports)

theorem touring_walkable (P : Program) (base : Workspace) (q : String) (stack : List String) :
    Walkable (Touring P base q stack) (Followed P q stack) where
  report o cause span _ h :=
    ⟨⟨h.path, h.importStack, h.sources, h.toured⟩, fun _ hV => hV.extends (.report cause span)⟩
  tooDeep o limit span _ requested := by
    intro b _
    refine Or.inl ⟨⟨.nestingTooDeep limit, span.start⟩, ?_, trivial⟩
    exact List.mem_append_right _ (List.mem_singleton_self _)

structure Closed (P : Program) (base : Workspace) (b : String) (stack : List String)
    (ws : Workspace) (r : Report) (ws' : Workspace) : Prop where
  sources : ws'.sources = ws.sources
  grows : Entries.Grows (stack ++ [b]) ws.reports ws'.reports
  toured : Toured P base (stack ++ [b]) ws'.journal ws'.reports
  imports : ∀ c, P.Imports b c → r.Records Cause.IsTooDeep ∨ Met P (stack ++ [b]) ws'.reports c

theorem Program.not_imports_of_parse? {b c : String} {e : Error} (hb : b ≠ P.path)
    (h : P.sources.parse? b = some (.error e)) : ¬ P.Imports b c := by
  rintro ⟨tree, htree, -⟩
  rw [tree?_of_ne hb, Sources.tree?_eq_some, h] at htree
  cases htree

theorem Workspace.report?_tours {stack : List String} {b : String} {ws : Workspace}
    (check : Stmt → Workspace → Option Report × Workspace) (hs : ws.sources = P.sources)
    (ht : Toured P base stack ws.journal ws.reports) (hpath : b ≠ P.path) (hb : b ∉ stack)
    (hreach : ReflTransGen P.Imports P.path b)
    (hcheck : ∀ tree, P.tree? b = some tree →
      Toured P base (stack ++ [b]) (ws.opening b).journal (ws.opening b).reports →
        ∃ r ws', check tree (ws.opening b) = (some r, ws') ∧
          Closed P base b stack (ws.opening b) r ws') :
    (ws.report? check b).2.sources = P.sources ∧
      Toured P base stack (ws.report? check b).2.journal (ws.report? check b).2.reports ∧
        Met P stack (ws.report? check b).2.reports b := by
  obtain ⟨requests, hjournal, hv⟩ := ht
  have hopening : (ws.opening b).journal = (.load b :: .lookup b :: requests) ++ base.journal := by
    simp [Workspace.opening, Workspace.record, hjournal]
  have hsaved : ∀ (es : Entries Report) (r : Report), Met P stack (es.insert b r) b :=
    fun es r => Or.inr (Or.inr (Or.inl (by simp [Entries.get?_insert])))
  have hcases := reported_report? check b ws
  generalize ws.report? check b = o at hcases ⊢
  cases hcases with
  | kept hget =>
    refine ⟨hs, ⟨.lookup b :: requests, by simp [Workspace.record, hjournal], hv.lookup b⟩, ?_⟩
    exact Or.inr (Or.inr (Or.inl (by simp [Workspace.record, hget])))
  | missing hget hparse =>
    have htext : P.sources.text? b = none := by
      rw [← hs]
      exact Option.map_eq_none_iff.mp hparse
    refine ⟨hs, ⟨_, hopening, (hv.lookup b).load_missing hpath htext⟩, ?_⟩
    exact Or.inr (Or.inr (Or.inr htext))
  | @unparsable e hget hparse =>
    rw [hs] at hparse
    have hload := (hv.lookup b).load hpath hb hget
    have hsave := hload.save (r := .ofSyntaxError e) hget hpath (Sources.isSome_text? hparse) hreach
      fun c hc => absurd hc (Program.not_imports_of_parse? hpath hparse)
    exact ⟨hs, ⟨_, congrArg _ hopening, hsave⟩, hsaved _ _⟩
  | unopened hget hparse hrun =>
    rw [hs] at hparse
    have htree := (Program.tree?_of_ne hpath).trans (Sources.tree?_eq_some.mpr hparse)
    obtain ⟨r, ws', hrun', -⟩ := hcheck _ htree ⟨_, hopening, (hv.lookup b).load hpath hb hget⟩
    rw [hrun] at hrun'
    cases hrun'
  | @opened tree r ws' hget hparse hrun =>
    rw [hs] at hparse
    have htree := (Program.tree?_of_ne hpath).trans (Sources.tree?_eq_some.mpr hparse)
    obtain ⟨_, _, hrun', hclosed⟩ := hcheck _ htree ⟨_, hopening, (hv.lookup b).load hpath hb hget⟩
    rw [hrun] at hrun'
    cases hrun'
    obtain ⟨requests', hjournal', hv'⟩ := hclosed.toured
    have hnew : ws'.reports.get? b = none := by
      rw [hclosed.grows.unfinished b (by simp)]
      exact hget
    have hsave := hv'.save hnew hpath (Sources.isSome_text? hparse) hreach hclosed.imports
    exact ⟨hclosed.sources.trans hs, ⟨_, congrArg _ hjournal', hsave⟩, hsaved _ _⟩

section
variable {F : Finset String} {q : String} {stack : List String} {n : Nat}

theorem importWith_tours (sit : Situation P F q stack n) {tree : Stmt}
    (htree : P.tree? q = some tree)
    {open? : Context → String → Stmt → Workspace → Option Report × Workspace} (hopens : Opens open?)
    (hopen : ∀ (c : Context) (b : String) (tree : Stmt) (ws : Workspace), c.importStack = stack →
      b ∉ stack → P.Imports q b → P.tree? b = some tree → ws.sources = P.sources →
      Toured P base (stack ++ [b]) ws.journal ws.reports →
        ∃ r ws', open? c b tree ws = (some r, ws') ∧ Closed P base b stack ws r ws') :
    Answers (importWith open?) (Touring P base q stack) (Followed P q stack) tree.imports := by
  refine importWith_answers hopens (touring_walkable P base q stack)
    (fun r _ _ hV he => hV.extends he) (fun o hI => ⟨hI.path, hI.importStack⟩)
    (fun r o ht b hb => by simp [ht] at hb) ?_ ?_
  · intro requested hrequested b hb ht o span hI
    refine ⟨⟨hI.path, hI.importStack, hI.sources, hI.toured⟩, fun b' hb' => ?_⟩
    rw [ht] at hb'
    cases hb'
    exact Or.inr (Or.inr (Or.inl hb))
  · intro requested hrequested b hb ht s hI
    have hqb : P.Imports q b :=
      ⟨tree, htree, Stmt.mem_importedFiles.mpr ⟨requested, hrequested, ht⟩⟩
    have hbpath : b ≠ P.path := fun h => hb (h ▸ sit.entry)
    obtain ⟨hs', ht', hmet⟩ := Workspace.report?_tours (open? s.context b) hI.sources hI.toured
      hbpath hb (sit.reach hqb) fun tree' htree' =>
        hopen s.context b tree' _ hI.importStack hb hqb htree' hI.sources
    refine ⟨⟨hI.path, hI.importStack, hs', ht'⟩, fun b' hb' => ?_⟩
    rw [ht] at hb'
    cases hb'
    exact Or.inr hmet

/-! ## Files -/

theorem checkFile_closes {tree : Stmt} (htree : P.tree? q = some tree)
    (hanswers : Answers (importer n) (Touring P base q (stack ++ [q])) (Followed P q (stack ++ [q]))
      tree.imports)
    (env : Environment) (ws : Workspace) (hs : ws.sources = P.sources)
    (ht : Toured P base (stack ++ [q]) ws.journal ws.reports) :
    Closed P base q stack ws (checkFile (importer n) env q stack tree ws).1
      (checkFile (importer n) env q stack tree ws).2 := by
  let s := Checking.start env q stack ws
  have hstart : Touring P base q (stack ++ [q]) s.outline := ⟨rfl, rfl, hs, ht⟩
  obtain ⟨hI, -, hV⟩ :=
    Stmt.check_walks (touring_walkable P base q (stack ++ [q])) tree hanswers s hstart
  obtain ⟨hsources, hgrows⟩ := checkFile_grows (importer_extends n) env q stack tree ws
  refine ⟨hsources, hgrows, hI.toured, fun c hqc => ?_⟩
  obtain ⟨tree', htree', hc⟩ := hqc
  rw [htree] at htree'
  cases htree'
  obtain ⟨requested, hrequested, htarget⟩ := Stmt.mem_importedFiles.mp hc
  exact hV requested hrequested c htarget

end

theorem importer_tours {F : Finset String} (hF : P.Covered F) :
    ∀ (n : Nat) {q : String} {stack : List String} {tree : Stmt}, Situation P F q stack n →
      P.tree? q = some tree →
      Answers (importer n) (Touring P base q stack) (Followed P q stack) tree.imports
  | 0, q, stack, tree, sit, htree => by
    rw [importer_eq]
    apply importWith_tours sit htree (opener_opens 0)
    intro c b tree' ws _ hb hqb htree' _ _
    exact absurd (sit.mem_of_tree? hF hqb htree') hb
  | n + 1, q, stack, tree, sit, htree => by
    rw [importer_eq]
    apply importWith_tours sit htree (opener_opens (n + 1))
    intro c b tree' ws hstack hb hqb htree' hs ht
    have hanswers := importer_tours hF n (sit.open hF hb hqb htree') htree'
    have hclosed := checkFile_closes htree' hanswers c.environment ws hs ht
    rw [← hstack] at hclosed ⊢
    exact ⟨_, _, rfl, hclosed⟩

/-! ## Programs -/

theorem check_closed (hP : P.Fits) (env : Environment) (hs : base.sources = P.sources) :
    Closed P base P.path [] base.startTrail
      (checkFile (importer P.sources.capacity) env P.path [] P.tree base.startTrail).1
      (checkFile (importer P.sources.capacity) env P.path [] P.tree base.startTrail).2 := by
  obtain ⟨F, hcard, hF⟩ := hP
  have hanswers : Answers (importer P.sources.capacity) (Touring P base P.path ([] ++ [P.path]))
      (Followed P P.path ([] ++ [P.path])) P.tree.imports :=
    importer_tours hF _ (.start hcard) Program.tree?_path
  exact checkFile_closes Program.tree?_path hanswers env base.startTrail hs
    ⟨[], rfl, Visited.start P base.reports _⟩

/-- From no reports on, the files with a report are those that imports lead to. -/
theorem Closed.reports_iff {r : Report} {ws ws' : Workspace}
    (h : Closed P base P.path [] ws r ws') (hnone : base.reports = [])
    (hdeep : ¬ Recorded Cause.IsTooDeep (r, ws')) (q : String) :
    (ws'.reports.get? q).isSome ↔
      q ≠ P.path ∧ (P.sources.text? q).isSome ∧ ReflTransGen P.Imports P.path q := by
  obtain ⟨requests, -, hv⟩ := h.toured
  have hknown : ∀ a, base.reports.get? a = none := fun a => by simp [hnone, Entries.get?]
  rw [Recorded, not_or] at hdeep
  -- Along imports, every file is the program, has a report or is not there.
  have hstep : ∀ a c, P.Imports a c → a = P.path ∨ (ws'.reports.get? a).isSome →
      c = P.path ∨ (ws'.reports.get? c).isSome ∨ P.sources.text? c = none := by
    intro a c hac ha
    have hmet : Met P [P.path] ws'.reports c := by
      rcases ha with rfl | ha
      · exact (h.imports c hac).resolve_left hdeep.1
      · exact hv.closed a ha (hknown a) c hac
    simpa [Met, hdeep.2] using hmet
  have hall : ∀ a, ReflTransGen P.Imports P.path a →
      a = P.path ∨ (ws'.reports.get? a).isSome ∨ P.sources.text? a = none := by
    intro a ha
    induction ha with
    | refl => exact Or.inl rfl
    | @tail a c _ hac ih =>
      refine hstep a c hac ?_
      rcases ih with ih | ih | ih
      · exact Or.inl ih
      · exact Or.inr ih
      · by_cases hpath : a = P.path
        · exact Or.inl hpath
        · obtain ⟨tree, htree, -⟩ := hac
          rw [Program.tree?_of_ne hpath, Sources.tree?_eq_some] at htree
          simpa [ih] using Sources.isSome_text? htree
  constructor
  · intro hq
    exact (hv.found q hq).resolve_left (by simp [hknown])
  · rintro ⟨hpath, htext, hreach⟩
    rcases hall q hreach with hq | hq | hq
    · exact absurd hq hpath
    · exact hq
    · simp [hq] at htext

end

end ShapeCheck
