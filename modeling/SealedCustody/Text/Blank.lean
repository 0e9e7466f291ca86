/-!
# Blank characters

The characters with the Unicode property `White_Space`, and the text left when those at both ends are
dropped. The zero-width space and the byte order mark do not have the property.
-/

namespace SealedCustody

/-- The Unicode property `White_Space`. -/
def Text.isBlank (c : Char) : Bool :=
  let n := c.toNat
  (0x09 ≤ n && n ≤ 0x0d) || n == 0x20 || n == 0x85 || n == 0xa0 || n == 0x1680
    || (0x2000 ≤ n && n ≤ 0x200a) || n == 0x2028 || n == 0x2029 || n == 0x202f || n == 0x205f
    || n == 0x3000

namespace Text

/-- The characters left when leading blanks are dropped. -/
def dropBlanks (cs : List Char) : List Char := cs.dropWhile isBlank

/-- The characters left when blanks are dropped at both ends. -/
def trimmed (cs : List Char) : List Char :=
  (dropBlanks (dropBlanks cs).reverse).reverse

/-- The text left when blanks are dropped at both ends. -/
def trim (s : String) : String := String.ofList (trimmed s.toList)

/-- Splits at every occurrence of a separator; there is always at least one part, and parts may be
empty. -/
def splitAt (sep : Char) : List Char → List (List Char)
  | [] => [[]]
  | c :: rest =>
    if c = sep then [] :: splitAt sep rest
    else match splitAt sep rest with
      | [] => [[c]]
      | part :: parts => (c :: part) :: parts

/-- Splits a text at every occurrence of a separator. -/
def split (sep : Char) (s : String) : List String := (splitAt sep s.toList).map String.ofList

end Text

end SealedCustody
