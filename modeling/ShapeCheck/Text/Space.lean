/-!
# White space

`isSpace` is the Unicode property White_Space. It decides both what the scanner skips and what is
cut off the end of an excerpt.
-/

namespace ShapeCheck.Text

def isSpace (c : Char) : Bool :=
  let n := c.toNat
  (0x09 ≤ n && n ≤ 0x0d) || n == 0x20 || n == 0x85 || n == 0xa0 || n == 0x1680 ||
    (0x2000 ≤ n && n ≤ 0x200a) || n == 0x2028 || n == 0x2029 || n == 0x202f || n == 0x205f ||
    n == 0x3000

def trimEnd (s : List Char) : List Char :=
  (s.reverse.dropWhile isSpace).reverse

end ShapeCheck.Text
