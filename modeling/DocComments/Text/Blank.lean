/-!
# Blank characters

The characters that indent a line or separate two tokens. Zero-width characters are not blank.
-/

namespace DocComments.Text

/-- Is the character white space, a line break of any kind included? -/
def isBlank (c : Char) : Bool :=
  let n := c.toNat
  (9 ≤ n && n ≤ 13) || (28 ≤ n && n ≤ 32) || n == 0x85 || n == 0xa0 || n == 0x1680 ||
    (0x2000 ≤ n && n ≤ 0x200a) || n == 0x2028 || n == 0x2029 || n == 0x202f || n == 0x205f ||
    n == 0x3000

end DocComments.Text
