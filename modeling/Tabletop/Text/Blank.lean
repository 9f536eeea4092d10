/-
# Blanks: the characters with the Unicode property `White_Space`

Blanks separate words in a script and are dropped from both ends of the text
kept inside brackets.  The set is larger than the ASCII blanks: it holds the
no-break space, the ideographic space and the two separators `U+2028` and
`U+2029`, but not the zero-width space.
-/

namespace Tabletop

/-- A character with the property `White_Space`. -/
def isBlank (c : Char) : Bool :=
  let n := c.toNat
  (9 ≤ n && n ≤ 13) || n == 0x20 || n == 0x85 || n == 0xA0 || n == 0x1680 ||
    (0x2000 ≤ n && n ≤ 0x200A) || n == 0x2028 || n == 0x2029 || n == 0x202F ||
    n == 0x205F || n == 0x3000

/-- Text without the blanks at either end. -/
def trimBlanks (text : List Char) : List Char :=
  ((text.dropWhile isBlank).reverse.dropWhile isBlank).reverse

/-- What has been read, the last character first, put in order and without the
blanks at either end. -/
def trimRead (read : List Char) : List Char :=
  (read.dropWhile isBlank).reverse.dropWhile isBlank

/-- The two ends may be trimmed in either order. -/
theorem trimRead_reverse (text : List Char) : trimRead text.reverse = trimBlanks text := by
  unfold trimRead trimBlanks
  induction text with
  | nil => rfl
  | cons c text ih =>
    rw [List.reverse_cons, List.dropWhile_append]
    by_cases h : isBlank c
    · split
      · next e =>
        rw [List.isEmpty_iff.1 e] at ih
        simpa [h] using ih
      · simpa [h] using ih
    · split
      · next e => simp [h, List.dropWhile_append, e]
      · next e => simp [h, List.dropWhile_append, e]

/-- What has been read is trimmed like the text it is. -/
theorem trimRead_eq (read : List Char) : trimRead read = trimBlanks read.reverse := by
  rw [← trimRead_reverse, List.reverse_reverse]

end Tabletop
