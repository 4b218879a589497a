/-!
# Blank characters and trimming

`isBlank` holds of the characters with the Unicode property `White_Space`, which are 25: it is wider
than core's `Char.isWhitespace`, which knows the six of ASCII less the vertical tab and the form
feed.  `trim` removes them from both ends of a text and leaves those inside alone.
-/

set_option autoImplicit false

namespace ExactCover.Text

/-- Whether a character is white space: the tab to the carriage return, the space, the next line
character, and the spaces and separators outside of ASCII. -/
def isBlank (c : Char) : Bool :=
  let n := c.toNat
  (0x9 ≤ n && n ≤ 0xd) || n == 0x20 || n == 0x85 || n == 0xa0 || n == 0x1680 ||
    (0x2000 ≤ n && n ≤ 0x200a) || n == 0x2028 || n == 0x2029 || n == 0x202f || n == 0x205f ||
    n == 0x3000

/-- The text without the blanks at its two ends. -/
def trim (cs : List Char) : List Char :=
  ((cs.dropWhile isBlank).reverse.dropWhile isBlank).reverse

end ExactCover.Text
