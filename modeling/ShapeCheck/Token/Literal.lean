/-!
# String literals

`decode` reads what stands between the quotes of a literal. A backslash starts one of the escapes
`\n \t \r \0 \\ \"`, or `\x` with up to two hexadecimal digits; any other backslash stands for
itself.
-/

namespace ShapeCheck.Literal

def hexDigit? (c : Char) : Option Nat :=
  if '0' ≤ c ∧ c ≤ '9' then some (c.toNat - '0'.toNat)
  else if 'a' ≤ c ∧ c ≤ 'f' then some (c.toNat - 'a'.toNat + 10)
  else if 'A' ≤ c ∧ c ≤ 'F' then some (c.toNat - 'A'.toNat + 10)
  else none

def escape? (c : Char) : Option Char :=
  if c = 'n' then some '\n'
  else if c = 't' then some '\t'
  else if c = 'r' then some '\r'
  else if c = '0' then some '\x00'
  else if c = '\\' then some '\\'
  else if c = '"' then some '"'
  else none

def decode : List Char → List Char
  | [] => []
  | '\\' :: 'x' :: a :: b :: rest =>
    match hexDigit? a, hexDigit? b with
    | some m, some n => Char.ofNat (16 * m + n) :: decode rest
    | some m, none => Char.ofNat m :: decode (b :: rest)
    | none, _ => '\\' :: 'x' :: decode (a :: b :: rest)
  | ['\\', 'x', a] =>
    match hexDigit? a with
    | some m => [Char.ofNat m]
    | none => '\\' :: 'x' :: decode [a]
  | '\\' :: c :: rest =>
    match escape? c with
    | some d => d :: decode rest
    | none => '\\' :: decode (c :: rest)
  | c :: rest => c :: decode rest

end ShapeCheck.Literal
