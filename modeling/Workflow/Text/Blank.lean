/-!
# White space

The characters with the Unicode property *White_Space*, and cutting them off the ends of a text.

* `isBlank`: the property itself, as a table.
* `trimLeft`, `trim`: a text without leading, or without surrounding, white space.
* `allBlank`: a text of white space alone, the empty text included.
-/

namespace Workflow.Text

/-- Whether `c` has the Unicode property White_Space. -/
def isBlank (c : Char) : Bool :=
  let n := c.toNat
  (9 ≤ n && n ≤ 13) || n == 0x20 || n == 0x85 || n == 0xA0 || n == 0x1680
    || (0x2000 ≤ n && n ≤ 0x200A) || n == 0x2028 || n == 0x2029 || n == 0x202F
    || n == 0x205F || n == 0x3000

/-- The text without its leading white space. -/
def trimLeft (cs : List Char) : List Char := cs.dropWhile isBlank

/-- The text without leading and trailing white space. -/
def trim (cs : List Char) : List Char := (trimLeft (trimLeft cs).reverse).reverse

/-- Whether the text is white space throughout. -/
def allBlank (cs : List Char) : Bool := cs.all isBlank

end Workflow.Text
