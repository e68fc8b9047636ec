/-!
# Settings of a run
-/

namespace ShapeCheck

structure Config where
  /-- Phrases nested deeper than this are reported instead of parsed or checked. -/
  maxDepth : Nat
  /-- What a file's name has after the path that imports it. -/
  sourceSuffix : String
deriving Repr, DecidableEq

namespace Config

def standard : Config :=
  ⟨256, ".lang"⟩

def withMaxDepth (maxDepth : Nat) (config : Config) : Config :=
  { config with maxDepth }

end Config

end ShapeCheck
