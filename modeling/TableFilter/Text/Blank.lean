/-!
# White space

* `isBlank` is the property White_Space of Unicode: the controls U+0009 to U+000D, the spaces and
  the line and paragraph separators. The zero-width characters U+200B and U+FEFF are not blank.
* `trim` drops the blank characters at both ends of a text.
-/

namespace TableFilter.Text

/-- The characters with the property White_Space. -/
def isBlank (c : Char) : Bool :=
  let n := c.toNat
  (9 ≤ n && n ≤ 13) || n == 0x20 || n == 0x85 || n == 0xA0 || n == 0x1680
    || (0x2000 ≤ n && n ≤ 0x200A) || n == 0x2028 || n == 0x2029 || n == 0x202F || n == 0x205F
    || n == 0x3000

/-- The characters without the blank ones at either end. -/
def trimmed (cs : List Char) : List Char :=
  ((cs.dropWhile isBlank).reverse.dropWhile isBlank).reverse

/-- The text without the blank characters at either end. -/
def trim (s : String) : String := String.ofList (trimmed s.toList)

end TableFilter.Text
