import ShapeCheck.Text.Bytes
import ShapeCheck.Token

/-!
# A place in a source text
-/

namespace ShapeCheck

open Text (dropBytes)

/-- The text of `file` from byte `offset` on. -/
structure Scanner where
  file : String
  offset : Nat
  rest : List Char

namespace Scanner

def unnamed : String :=
  "shell"

def start (source : String) (file : Option String) : Scanner :=
  ⟨file.getD unnamed, 0, source.toList⟩

def skip (n : Nat) (s : Scanner) : Scanner :=
  { s with offset := s.offset + n, rest := dropBytes n s.rest }

def atEnd (s : Scanner) : Bool :=
  s.rest.isEmpty

def current (s : Scanner) : Char :=
  s.rest.headD '\x00'

def position (s : Scanner) : Position :=
  .at s.offset s.file

def span (start stop : Nat) (s : Scanner) : Span :=
  .between start stop s.file

end Scanner

end ShapeCheck
