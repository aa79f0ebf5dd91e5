/-! # Blank characters

The characters of the Unicode property White_Space. They separate tokens, and
they are dropped at the end of a quoted source line.
-/

namespace Stylesheet.Text

/-- Whether a character is white space: the five controls from the tab on, the
next-line control, and every space and line separator. -/
def isBlank (c : Char) : Bool :=
  let n := c.toNat
  (0x9 ≤ n && n ≤ 0xD) || n == 0x20 || n == 0x85 || n == 0xA0 || n == 0x1680 ||
    (0x2000 ≤ n && n ≤ 0x200A) || n == 0x2028 || n == 0x2029 || n == 0x202F ||
    n == 0x205F || n == 0x3000

def trimEnd (cs : List Char) : List Char :=
  (cs.reverse.dropWhile isBlank).reverse

end Stylesheet.Text
