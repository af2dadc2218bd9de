/-!
# White space

Two classes of blank characters are in use. JSON knows four of them; a version number may be
surrounded by any character of the Unicode property `White_Space`.

* `isJsonBlank`: space, tab, line feed, carriage return.
* `isBlank`: the twenty-five characters of `White_Space`.
* `trim` removes blanks from both ends of a text and from nowhere else.
-/

namespace TableMarkup.Text

/-- The characters that may stand between the tokens of a JSON text. -/
def isJsonBlank (c : Char) : Bool :=
  c == ' ' || c == '\t' || c == '\n' || c == '\r'

/-- The ranges of code points that have the Unicode property `White_Space`. -/
def blankRanges : List (Nat × Nat) :=
  [(0x09, 0x0D), (0x20, 0x20), (0x85, 0x85), (0xA0, 0xA0), (0x1680, 0x1680), (0x2000, 0x200A),
    (0x2028, 0x2029), (0x202F, 0x202F), (0x205F, 0x205F), (0x3000, 0x3000)]

def isBlank (c : Char) : Bool :=
  blankRanges.any fun (low, high) => low ≤ c.toNat && c.toNat ≤ high

def trim (cs : List Char) : List Char :=
  ((cs.dropWhile isBlank).reverse.dropWhile isBlank).reverse

end TableMarkup.Text
