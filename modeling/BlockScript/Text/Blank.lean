/-!
Blank characters, as Unicode's `White_Space` property lists them, and trimming.
-/

namespace BlockScript.Text

/-- The `White_Space` property. Zero-width spaces and the byte order mark do not have it. -/
def isBlank (c : Char) : Bool :=
  let n := c.toNat
  (0x9 ≤ n && n ≤ 0xD) || n == 0x20 || n == 0x85 || n == 0xA0 || n == 0x1680 ||
    (0x2000 ≤ n && n ≤ 0x200A) || n == 0x2028 || n == 0x2029 || n == 0x202F ||
    n == 0x205F || n == 0x3000

def dropBlanksRight (cs : List Char) : List Char :=
  (cs.reverse.dropWhile isBlank).reverse

/-- The text between its outer blanks. -/
def trim (s : String) : List Char :=
  dropBlanksRight (s.toList.dropWhile isBlank)

end BlockScript.Text
