import PolicyEngine.Text.CharRange

/-!
White space as the Unicode property `White_Space` defines it, and the removal of characters at both ends
of a text.
-/
namespace PolicyEngine.Text

/-- The inclusive ranges of code points that count as white space. -/
def blankRanges : List (Nat × Nat) :=
  [(0x0009, 0x000D), (0x0020, 0x0020), (0x0085, 0x0085), (0x00A0, 0x00A0), (0x1680, 0x1680),
   (0x2000, 0x200A), (0x2028, 0x2029), (0x202F, 0x202F), (0x205F, 0x205F), (0x3000, 0x3000)]

def isBlank (c : Char) : Bool := inRanges blankRanges c

/-- The text without the characters of the given class at its start and at its end. -/
def trimChars (cut : Char → Bool) (cs : List Char) : List Char :=
  ((cs.dropWhile cut).reverse.dropWhile cut).reverse

def trim (cs : List Char) : List Char := trimChars isBlank cs

end PolicyEngine.Text
