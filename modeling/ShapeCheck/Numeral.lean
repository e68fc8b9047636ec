import ShapeCheck.Binary64
import ShapeCheck.Text.Classes

/-!
# Numerals

`Numeral.read?` reads the text of a number: a sign, digits with a point among them or at either
end, and a power of ten; or one of the words for infinity and not-a-number, in any case of letters.
The value is the nearest binary64 number, of two equally near ones the even. A minus turns the
sign of any of them.
-/

namespace ShapeCheck.Numeral

open Text (isDigit)

def digitsValue (digits : List Char) : Nat :=
  digits.foldl (fun n c => 10 * n + (c.toNat - '0'.toNat)) 0

def sign : List Char → Bool × List Char
  | '-' :: cs => (true, cs)
  | '+' :: cs => (false, cs)
  | cs => (false, cs)

/-- The number `mantissa · 10 ^ exponent`. -/
structure Decimal where
  mantissa : Nat
  exponent : Int

def exponent? : List Char → Option Int
  | [] => some 0
  | c :: cs =>
    if c = 'e' ∨ c = 'E' then
      let (negative, digits) := sign cs
      if digits ≠ [] ∧ digits.all isDigit then
        some (if negative then -Int.ofNat (digitsValue digits) else Int.ofNat (digitsValue digits))
      else none
    else none

/-- Digits, of which at least one stands before or after the point, and a power of ten. -/
def decimal? (cs : List Char) : Option Decimal :=
  let whole := cs.takeWhile isDigit
  let afterWhole := cs.dropWhile isDigit
  let (fraction, rest) := match afterWhole with
    | '.' :: ds => (ds.takeWhile isDigit, ds.dropWhile isDigit)
    | _ => ([], afterWhole)
  if whole = [] ∧ fraction = [] then none
  else (exponent? rest).map fun e => ⟨digitsValue (whole ++ fraction), e - fraction.length⟩

/-- The nearest binary64 number. Powers of ten far outside its range need no arithmetic. -/
def Decimal.toBinary64 (d : Decimal) : Binary64 :=
  let magnitude := d.exponent + (Nat.toDigits 10 d.mantissa).length
  if d.mantissa = 0 ∨ magnitude < -400 then .zero
  else if magnitude > 400 then .infinity
  else ⟨(Float.ofScientific d.mantissa (d.exponent < 0) d.exponent.natAbs).toBits⟩

def word? (cs : List Char) : Option Binary64 :=
  match String.ofList (cs.map Char.toLower) with
  | "inf" | "infinity" => some .infinity
  | "nan" => some .nan
  | _ => none

def read? (text : String) : Option Binary64 :=
  let (negative, rest) := sign text.toList
  let magnitude? := match decimal? rest with
    | some d => some d.toBinary64
    | none => word? rest
  magnitude?.map fun x => if negative then x.negate else x

end ShapeCheck.Numeral
