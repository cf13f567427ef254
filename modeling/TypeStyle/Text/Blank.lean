-- SUMMARY: Blank characters, trimming, and comparison without regard to ASCII case.

/-! # Blanks and case

Names and values typed by a user are read without the blanks around them and
without regard to case. Blank means the Unicode property `White_Space`; case is
that of the ASCII letters alone. -/

namespace TypeStyle.Text

/-- The code points with the property `White_Space`, as inclusive ranges. -/
def blankRanges : List (Nat × Nat) :=
  [(0x09, 0x0D), (0x20, 0x20), (0x85, 0x85), (0xA0, 0xA0), (0x1680, 0x1680), (0x2000, 0x200A),
   (0x2028, 0x2029), (0x202F, 0x202F), (0x205F, 0x205F), (0x3000, 0x3000)]

def isBlank (c : Char) : Bool :=
  blankRanges.any fun (low, high) => low ≤ c.toNat && c.toNat ≤ high

/-- `s` without the blanks at its two ends. -/
def trim (s : String) : String :=
  .ofList ((s.toList.dropWhile isBlank).reverse.dropWhile isBlank).reverse

/-- `s` with its ASCII letters in lower case. -/
def lower (s : String) : String :=
  .ofList (s.toList.map Char.toLower)

def sameIgnoringCase (a b : String) : Bool :=
  lower a == lower b

end TypeStyle.Text
