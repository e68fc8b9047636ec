import ShapeCheck.Error
import ShapeCheck.Text.Classes
import ShapeCheck.Text.Space
import ShapeCheck.Token.Literal
import ShapeCheck.Token.Scanner

/-!
# From source text to tokens

At each place the first character decides what is read: a word, an atom, a numeral, a string, a
mark of punctuation, or white space and comments, which yield no token. `lexeme?` cuts off the
longest text of that form, and `tokensAt` repeats it to the end.
-/

namespace ShapeCheck

open Text (isSpace isLetter isDigit isWordChar byteLength)

/-! ## Marks and words -/

def punctuation? (c : Char) : Option TokenKind :=
  match c with
  | '[' => some .openBracket
  | ']' => some .closeBracket
  | '\x7b' => some .openCurly
  | '\x7d' => some .closeCurly
  | '(' => some .openParen
  | ')' => some .closeParen
  | '=' => some .assignment
  | '|' => some .pipe
  | '%' => some .percent
  | '.' => some .dot
  | ';' => some .semicolon
  | ':' => some .colon
  | ',' => some .comma
  | _ => none

def wordKind (word : List Char) : TokenKind :=
  if word = ['i', 'm', 'p', 'o', 'r', 't'] then .importWord
  else if word = ['e', 'x', 'p', 'o', 'r', 't'] then .exportWord
  else .identifier

/-! ## Lexemes -/

structure Lexeme where
  /-- The characters it covers after the first. -/
  more : List Char
  /-- Kind and value of its token; nothing for white space and comments. -/
  token? : Option (TokenKind × List Char)

/-- What belongs to a numeral after its first digit: digits, and a fraction if a digit follows the
point. -/
def numeralMore (cs : List Char) : List Char :=
  let whole := cs.takeWhile isDigit
  match cs.dropWhile isDigit with
  | '.' :: d :: rest => if isDigit d then whole ++ '.' :: d :: rest.takeWhile isDigit else whole
  | _ => whole

/-- The text of a literal after its opening quote, up to the closing one. A backslash takes the
next character along, which cannot be a newline. -/
def literalBody? : List Char → Option (List Char)
  | [] => none
  | '"' :: _ => some []
  | ['\\'] => none
  | '\\' :: c :: rest =>
    if c = '\n' then none else (literalBody? rest).map fun body => '\\' :: c :: body
  | c :: rest => (literalBody? rest).map (c :: ·)

def lexeme? (c : Char) (cs : List Char) : Option Lexeme :=
  if isLetter c then
    let more := cs.takeWhile isWordChar
    some ⟨more, some (wordKind (c :: more), c :: more)⟩
  else if isDigit c then
    let more := numeralMore cs
    some ⟨more, some (.number, c :: more)⟩
  else if isSpace c then
    some ⟨cs.takeWhile isSpace, none⟩
  else if c = '@' then
    match cs with
    | [] => none
    | d :: ds =>
      if isLetter d then
        let word := d :: ds.takeWhile isWordChar
        some ⟨word, some (.atom, word)⟩
      else none
  else if c = '"' then
    (literalBody? cs).map fun body => ⟨body ++ ['"'], some (.string, Literal.decode body)⟩
  else if c = '/' then
    match cs with
    | '/' :: _ => some ⟨cs.takeWhile (· ≠ '\n'), none⟩
    | _ => none
  else
    (punctuation? c).map fun kind => ⟨[], some (kind, [c])⟩

/-! ## Token lists -/

/-- The tokens of a text that starts at byte `offset` of `file`; the last of them is `eof`. -/
def tokensAt (file : String) (offset : Nat) : List Char → Except Error (List Token)
  | [] => .ok [.eof (.at offset file)]
  | c :: cs =>
    match lexeme? c cs with
    | none => .error ⟨.unrecognisedToken (String.singleton c), .at offset file⟩
    | some ⟨more, token?⟩ => do
      let stop := offset + byteLength (c :: more)
      let later ← tokensAt file stop (cs.drop more.length)
      match token? with
      | none => return later
      | some (kind, value) =>
        return ⟨kind, String.ofList value, .between offset stop file⟩ :: later
termination_by cs => cs.length
decreasing_by simp only [List.length_drop, List.length_cons]; omega

def Scanner.tokens (s : Scanner) : Except Error (List Token) :=
  tokensAt s.file s.offset s.rest

def tokenize (source : String) (file : Option String) : Except Error (List Token) :=
  (Scanner.start source file).tokens

end ShapeCheck
