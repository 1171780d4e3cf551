/-!
White space in the sense of Unicode, and trimming by it.
-/

namespace MessageCode.Text

/-- The twenty-five characters with the property White_Space. -/
def isBlank (c : Char) : Bool :=
  let n := c.toNat
  (9 ≤ n && n ≤ 13) || n == 0x20 || n == 0x85 || n == 0xa0 || n == 0x1680
    || (0x2000 ≤ n && n ≤ 0x200a) || n == 0x2028 || n == 0x2029 || n == 0x202f || n == 0x205f
    || n == 0x3000

def trimFront (s : List Char) : List Char := s.dropWhile isBlank

def trim (s : List Char) : List Char := (trimFront (trimFront s).reverse).reverse

end MessageCode.Text
