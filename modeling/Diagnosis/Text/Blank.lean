/-!
# Blank characters

The characters that count as white space at the ends of a written sequent, and the text between
them.
-/

namespace Diagnosis.Text

/-- A white-space character: the ASCII controls used as such, the information separators, and the
spaces and line ends of Unicode. The zero-width space is none. -/
def isBlank (c : Char) : Bool :=
  let n := c.toNat
  (0x9 ≤ n && n ≤ 0xD) || (0x1C ≤ n && n ≤ 0x20) || n == 0x85 || n == 0xA0 || n == 0x1680 ||
    (0x2000 ≤ n && n ≤ 0x200A) || n == 0x2028 || n == 0x2029 || n == 0x202F || n == 0x205F ||
    n == 0x3000

/-- The text without the characters of a kind at its two ends. -/
def trimAll (kind : Char → Bool) (text : String) : String :=
  String.ofList ((text.toList.dropWhile kind).reverse.dropWhile kind).reverse

/-- The text without the white space at its two ends. -/
def trim (text : String) : String :=
  trimAll isBlank text

example : trim "\u3000 ⊢ p\n" = "⊢ p" := by decide +kernel

end Diagnosis.Text
