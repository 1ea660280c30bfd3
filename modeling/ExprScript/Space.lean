/-!
# White space

The characters with the Unicode property White_Space, which are cut off a line before it is compared
with a command of the interactive session. The property has not changed since Unicode 6.3.

* `spaceRanges`, `isSpace`: the characters, as closed ranges of code points;
* `trimSpace`: a text without the white space at its two ends.
-/

namespace ExprScript

/-- The code points of white space, as ranges that include both ends. -/
def spaceRanges : List (Nat × Nat) :=
  [(0x09, 0x0D), (0x20, 0x20), (0x85, 0x85), (0xA0, 0xA0), (0x1680, 0x1680), (0x2000, 0x200A),
    (0x2028, 0x2029), (0x202F, 0x202F), (0x205F, 0x205F), (0x3000, 0x3000)]

/-- Whether a character is white space. -/
def isSpace (c : Char) : Bool :=
  spaceRanges.any fun r => r.1 ≤ c.toNat && c.toNat ≤ r.2

/-- A text without the white space at its two ends. -/
def trimSpace (text : String) : String :=
  let front := text.toList.dropWhile isSpace
  String.ofList (front.reverse.dropWhile isSpace).reverse

end ExprScript
