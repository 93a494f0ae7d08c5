/-!
# White space

The characters with Unicode's White_Space property, and what is left of a text
when they are taken off its ends.
-/

namespace MetalPool.Text

/-- The character has the White_Space property. -/
def isBlank (c : Char) : Bool :=
  (0x09 ≤ c.toNat && c.toNat ≤ 0x0D) || c.toNat == 0x20 || c.toNat == 0x85 || c.toNat == 0xA0 ||
  c.toNat == 0x1680 || (0x2000 ≤ c.toNat && c.toNat ≤ 0x200A) || c.toNat == 0x2028 ||
  c.toNat == 0x2029 || c.toNat == 0x202F || c.toNat == 0x205F || c.toNat == 0x3000

/-- The characters after the leading blanks. -/
def dropBlanks (cs : List Char) : List Char := cs.dropWhile isBlank

/-- The text without blanks at either end. -/
def trim (s : String) : String :=
  .ofList (dropBlanks (dropBlanks s.toList).reverse).reverse

example : trim " \t a b\u00a0\n" = "a b" := by decide

end MetalPool.Text
