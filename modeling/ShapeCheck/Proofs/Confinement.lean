import ShapeCheck.Proofs.Answering
import ShapeCheck.Proofs.Cycles
import ShapeCheck.Proofs.Places

/-!
# Imports stay inside the root

A path inside the root is relative and leads on from name to name. What an import refers to in a file
inside the root lies inside the root again, whatever text the import has. So along every chain of
imports only paths inside the root are asked for. Who answers does not matter: a host may give any
report and any tree it likes.
-/

namespace ShapeCheck

/-! ## Paths inside the root -/

namespace Path

/-- The path without segments is the empty one. -/
structure Inside (q : String) : Prop where
  relative : isAbsolute q = false
  plain : q = "" ∨ ∀ s ∈ segments q, Plain s

instance (s : String) : Decidable (Plain s) :=
  decidable_of_iff (s ≠ "" ∧ s ≠ "." ∧ s ≠ "..")
    ⟨fun h => ⟨h.1, h.2.1, h.2.2⟩, fun h => ⟨h.ne_empty, h.ne_dot, h.ne_up⟩⟩

instance (q : String) : Decidable (Inside q) :=
  decidable_of_iff (isAbsolute q = false ∧ (q = "" ∨ ∀ s ∈ segments q, Plain s))
    ⟨fun h => ⟨h.1, h.2⟩, fun h => ⟨h.relative, h.plain⟩⟩

theorem step_ne_up {directory : List String} {s : String} (h : ∀ t ∈ directory, t ≠ "..")
    (hs : s ≠ "..") : ∀ t ∈ step directory s, t ≠ ".." := by
  unfold step
  rw [if_neg hs]
  split
  · exact h
  · simpa [hs] using h

theorem collapse_ne_up {q : String} (h : ".." ∉ segments q) : ∀ t ∈ collapse q, t ≠ ".." := by
  unfold collapse
  apply List.foldlRecOn (motive := fun directory => ∀ t ∈ directory, t ≠ "..")
  · simp
  · intro directory hup s hs
    exact step_ne_up hup fun e => h (e ▸ hs)

theorem inside_ofReversed {directory : List String} (hn : Normal directory)
    (hup : ∀ s ∈ directory, s ≠ "..") : Inside (ofReversed false directory) := by
  refine ⟨isAbsolute_ofReversed false hn, ?_⟩
  by_cases hne : directory = []
  · subst hne
    exact Or.inl rfl
  · refine Or.inr fun s hs => ?_
    rw [segments_ofReversed false hn hne] at hs
    have hmem : s ∈ directory := by simpa using hs
    exact ⟨(hn.segments s hmem).ne_empty, (hn.segments s hmem).ne_dot, hup s hmem⟩

theorem inside_normalize {path : String} (hrelative : isAbsolute (normalize path) = false)
    (hup : ".." ∉ segments (normalize path)) : Inside (normalize path) := by
  have hinside := inside_ofReversed (collapse_normal (normalize path)) (collapse_ne_up hup)
  rwa [← hrelative, ← normalize, normalize_normalize] at hinside

theorem Inside.not_mem_segments {q : String} (h : Inside q) : ".." ∉ segments q := by
  rcases h.plain with rfl | hplain
  · decide
  · exact fun hmem => (hplain ".." hmem).ne_up rfl

/-- From inside the root no import leads out of it. -/
theorem Inside.target {q requested b : String} (h : Inside q)
    (hb : target? q requested = some b) : Inside b := by
  unfold target? at hb
  split at hb
  · unfold resolve? at hb
    rw [h.relative] at hb
    obtain ⟨directory, hd, rfl⟩ := Option.map_eq_some_iff.mp hb
    have hn := foldlM_step?_normal (collapse_normal q).tail
      (fun s hs => no_slash_of_mem_segments hs) hd
    have hup : ∀ s ∈ (collapse q).tail, s ≠ ".." :=
      fun s hs => collapse_ne_up h.not_mem_segments s (List.mem_of_mem_tail hs)
    exact inside_ofReversed hn (foldlM_step?_ne_up hup hd)
  · cases hb

end Path

/-! ## The requests of a check -/

def Request.path : Request → String
  | .lookup path | .load path | .save path => path

def Confined (earlier journal : List Request) : Prop :=
  ∃ requests, journal = requests ++ earlier ∧ ∀ r ∈ requests, Path.Inside r.path

theorem Confined.refl (earlier : List Request) : Confined earlier earlier :=
  ⟨[], rfl, by simp⟩

theorem Confined.cons {earlier journal : List Request} (h : Confined earlier journal) {r : Request}
    (hr : Path.Inside r.path) : Confined earlier (r :: journal) := by
  obtain ⟨requests, rfl, hrequests⟩ := h
  refine ⟨r :: requests, rfl, fun r' hr' => ?_⟩
  rcases List.mem_cons.mp hr' with rfl | hr'
  · exact hr
  · exact hrequests r' hr'

structure Confining (earlier : List Request) (q : String) (o : Outline) : Prop where
  path : o.path = q
  inside : Path.Inside q
  journal : Confined earlier o.journal

theorem Confining.target {earlier : List Request} {q r b : String} {s : Checking}
    (h : Confining earlier q s.outline) (ht : Path.target? s.context.path r = some b) :
    Path.Inside b := by
  have hpath : s.context.path = q := h.path
  rw [hpath] at ht
  exact h.inside.target ht

theorem Host.keeps_confined (host : Host) (earlier : List Request) :
    host.Keeps fun q s => Confining earlier q s.outline where
  steps _ := Outline.congruence fun _ _ _ _ h => ⟨h.path, h.inside, h.journal⟩
  cyclic _ _ h := ⟨h.path, h.inside, h.journal⟩
  lookup ht h := ⟨h.path, h.inside, h.journal.cons (h.target ht)⟩
  load ht h := ⟨h.path, h.inside, h.journal.cons (h.target ht)⟩
  refuse ht _ h := ⟨h.path, h.inside, h.journal.cons (h.target ht)⟩
  start ht h := ⟨rfl, h.target ht, h.journal⟩
  finish ht h hend := ⟨h.path, h.inside, hend.journal.cons (h.target ht)⟩

theorem Host.check_confined (host : Host) (n : Nat) (env : Environment) {path : String}
    (hpath : Path.Inside (Path.normalize path)) (tree : Stmt) (ws : Workspace) :
    Confined ws.journal (host.check n env path tree ws).2.journal := by
  obtain ⟨s, hs, hrun⟩ := (host.keeps_confined ws.journal).check n env path tree ws
    ⟨rfl, hpath, .refl ws.journal⟩
  rw [hrun]
  exact hs.journal

/-- **Imports stay inside the root.** When a file inside the root is checked, every path that is
looked up, loaded or saved is inside the root, for the files of a workspace and for any host. -/
theorem requests_inside {path : String} (hrelative : Path.isAbsolute (Path.normalize path) = false)
    (hup : ".." ∉ Path.segments (Path.normalize path)) (env : Environment) (tree : Stmt)
    (ws : Workspace) :
    (∃ requests, (ws.check env path tree).2.journal = requests ++ ws.journal ∧
      ∀ r ∈ requests, Path.Inside r.path) ∧
    ∀ (host : Host) (n : Nat), ∃ requests,
      (host.check n env path tree ws).2.journal = requests ++ ws.journal ∧
        ∀ r ∈ requests, Path.Inside r.path := by
  have hpath := Path.inside_normalize hrelative hup
  refine ⟨?_, fun host n => host.check_confined n env hpath tree ws⟩
  rw [← Host.check_own]
  exact Host.own.check_confined _ env hpath tree ws

section

-- The run below is evaluated as a whole and not unfolded.
attribute [local irreducible] Workspace.check

/-- A file that is imported along a detour, and tries to climb out of the root itself. -/
def climbingFiles : Entries String :=
  [("lib/x", "import(\"../../x\") import(\"../lib/.././y\")")]

theorem climbing_requests_inside :
    let ws := Workspace.ofSources (.ofFiles climbingFiles)
    let outcome := ws.check ⟨[], .standard⟩ "src/./main"
      (importing ["..//lib/./x", "./../../x", "/x", "./..x/..."])
    (∃ requests, outcome.2.journal = requests ++ ws.journal ∧ ∀ r ∈ requests, Path.Inside r.path) ∧
      outcome.2.journal = [.load "src/..x/...", .lookup "src/..x/...", .save "lib/x", .load "y",
        .lookup "y", .load "lib/x", .lookup "lib/x"] := by
  intro ws outcome
  have hrelative : Path.isAbsolute (Path.normalize "src/./main") = false := by decide +kernel
  have hup : ".." ∉ Path.segments (Path.normalize "src/./main") := by decide +kernel
  exact ⟨(requests_inside hrelative hup _ _ ws).1, by decide +kernel⟩

end

end ShapeCheck
