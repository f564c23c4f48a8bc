/-!
# Blank characters

The characters with the Unicode property *White_Space*, and the text that is left when they are
taken off both ends. Settings that come from the environment are read this way.
-/

set_option autoImplicit false

namespace Notebook.Text

/-- Does the character have the property *White_Space*? -/
def isBlank (c : Char) : Bool :=
  let n := c.toNat
  (9 ≤ n && n ≤ 13) || n == 0x20 || n == 0x85 || n == 0xA0 || n == 0x1680 ||
    (0x2000 ≤ n && n ≤ 0x200A) || n == 0x2028 || n == 0x2029 || n == 0x202F || n == 0x205F ||
    n == 0x3000

/-- The text without the blanks at its two ends. -/
def trim (s : String) : String :=
  String.ofList ((s.toList.dropWhile isBlank).reverse.dropWhile isBlank).reverse

/-- Maps the letters `A` to `Z` to lower case and leaves every other character alone. -/
def lowerAscii (s : String) : String :=
  String.ofList (s.toList.map Char.toLower)

end Notebook.Text
