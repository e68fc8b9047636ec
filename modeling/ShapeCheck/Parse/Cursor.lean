import ShapeCheck.Error
import ShapeCheck.Token

/-!
# A place in a token list

Parsers move a cursor over the tokens. A parser that fails leaves the cursor where it stopped.
-/

namespace ShapeCheck

structure Cursor where
  /-- Where the token before the current one ends; at first, the start of the file. -/
  last : Position
  current : Token
  ahead : List Token
  /-- How many expressions, types and blocks are open around the current token. -/
  depth : Nat
  /-- How many of them may be. -/
  limit : Nat

namespace Cursor

/-- Stands at the first of `tokens`. A list that does not end in `eof` gets one, right after its
last token. -/
def ofTokens (tokens : List Token) (file : String) (limit : Nat) : Cursor :=
  let start := Position.at 0 file
  match tokens with
  | [] => ⟨start, .eof start, [], 0, limit⟩
  | t :: ts =>
    let final := (t :: ts).getLast (by simp)
    let closing := if final.kind = .eof then [] else [.eof final.span.stop]
    ⟨start, t, ts ++ closing, 0, limit⟩

def kind (c : Cursor) : TokenKind :=
  c.current.kind

def peekKind (n : Nat) (c : Cursor) : TokenKind :=
  ((c.current :: c.ahead)[n]?.map Token.kind).getD .eof

def position (c : Cursor) : Position :=
  c.current.span.start

/-- The current token, and the cursor after it. The last token is never left. -/
def advance (c : Cursor) : Token × Cursor :=
  match c.ahead with
  | [] => (c.current, c)
  | t :: ts => (c.current, { c with last := c.current.span.stop, current := t, ahead := ts })

def spanFrom (start : Position) (c : Cursor) : Span :=
  ⟨start, c.last⟩

def unexpected (c : Cursor) : Error :=
  ⟨.unexpectedToken c.current.value, c.position⟩

def detailed (message : String) (c : Cursor) : Error :=
  ⟨.unexpectedTokenDetailed c.current.value message, c.position⟩

def tooDeep (c : Cursor) : Error :=
  ⟨.nestingTooDeep c.limit, c.position⟩

def enter? (c : Cursor) : Option Cursor :=
  if c.limit ≤ c.depth then none else some { c with depth := c.depth + 1 }

def leave (c : Cursor) : Cursor :=
  { c with depth := c.depth - 1 }

end Cursor

/-- A parser keeps the cursor when it fails. -/
abbrev ParseM := EStateM Error Cursor

namespace ParseM

variable {α : Type}

def kind : ParseM TokenKind := do
  return (← get).kind

def advance : ParseM Token :=
  modifyGet Cursor.advance

def spanFrom (start : Position) : ParseM Span := do
  return (← get).spanFrom start

def unexpected : ParseM α := do
  throw (← get).unexpected

def detailed (message : String) : ParseM α := do
  throw ((← get).detailed message)

def expect (kind : TokenKind) : ParseM Token := do
  if (← ParseM.kind) = kind then advance else unexpected

def expectOr (kind : TokenKind) (message : String) : ParseM Token := do
  if (← ParseM.kind) = kind then advance else detailed message

def skip (kind : TokenKind) : ParseM Unit := do
  if (← ParseM.kind) = kind then
    let _ ← advance

def enter : ParseM Unit := do
  match (← get).enter? with
  | none => throw (← get).tooDeep
  | some c => set c

def leave : ParseM Unit :=
  modify Cursor.leave

def tooDeep : ParseM α := do
  throw (← get).tooDeep

/-- Runs `p` one level deeper, and comes back whether it succeeds or fails. -/
def nested (p : ParseM α) : ParseM α := fun c =>
  match c.enter? with
  | none => .error c.tooDeep c
  | some inner =>
    match p inner with
    | .ok a c => .ok a c.leave
    | .error e c => .error e c.leave

/-- How many tokens are left, which bounds every loop over them. -/
def remaining : ParseM Nat := do
  return (← get).ahead.length + 1

/-! ## Lists -/

/-- At most `n` items before `closing`. `item` is given the items before it, latest first. -/
def items (closing : TokenKind) (item : List α → ParseM α) : Nat → List α → ParseM (List α)
  | 0, earlier => return earlier.reverse
  | n + 1, earlier => do
    if (← kind) = closing then return earlier.reverse
    let a ← item earlier
    if (← kind) = .comma then
      let _ ← advance
      items closing item n (a :: earlier)
    else
      return (a :: earlier).reverse

/-- Items up to and including `closing`, with commas between them. A comma may follow the last. -/
def commaList (closing : TokenKind) (item : List α → ParseM α) : ParseM (List α) := do
  let as ← items closing item (← remaining) []
  let _ ← expect closing
  return as

/-- What `%\x7ba: …, b: …\x7d` holds, each name once; the `%` may be missing. -/
def entries (value : ParseM α) : ParseM (List (String × α)) := do
  skip .percent
  let _ ← expect .openCurly
  commaList .closeCurly fun earlier => do
    let name := (← get).current.value
    if earlier.any (·.1 = name) then detailed "duplicate record entry"
    let name ← expectOr .identifier "expected record entry name"
    let _ ← expect .colon
    return (name.value, ← value)

def arguments (item : ParseM α) : ParseM (List α) := do
  if (← kind) = .openParen then
    let _ ← advance
    commaList .closeParen fun _ => item
  else
    return []

def declaredType (type : ParseM α) : ParseM (Option α) := do
  if (← kind) = .colon then
    let _ ← advance
    return some (← type)
  else
    return none

def entryName : ParseM String := do
  let _ ← advance
  return (← expectOr .identifier "expected entry name after `.`").value

end ParseM

end ShapeCheck
