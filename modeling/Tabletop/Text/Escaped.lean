/-
# Escaped text, as error messages write it

A message that shows a string writes it between double quotes, with `\"`, `\\`,
`\n`, `\r`, `\t` and `\0` for the six characters that have a short form.  Every
other character that does not show by itself is written by its number, as in
`\u{7f}`, in lower-case hexadecimal without padding.  Such are

* the invisible characters: controls, formats, spaces but the ASCII one,
  separators, fillers and the private ranges (`Escaped.invisible`);
* the marks that combine with the character before them (`combining`);
* the code points that have no character (`unassigned`).
-/

import Tabletop.Text.Combining
import Tabletop.Text.Unassigned

namespace Tabletop
namespace Escaped

/-- The characters above ASCII that leave no mark of their own: the general
categories `Cc`, `Cf`, `Co`, `Zl`, `Zp` and `Zs` of Unicode 17.0, and what is
ignored by default.  Inclusive ranges in ascending order. -/
def invisible : List (Nat × Nat) :=
  [(0x80, 0xA0), (0xAD, 0xAD), (0x600, 0x605), (0x61C, 0x61C), (0x6DD, 0x6DD), (0x70F, 0x70F),
   (0x890, 0x891), (0x8E2, 0x8E2), (0x115F, 0x1160), (0x1680, 0x1680), (0x180E, 0x180E),
   (0x2000, 0x200F), (0x2028, 0x202F), (0x205F, 0x2064), (0x2066, 0x206F), (0x3000, 0x3000),
   (0x3164, 0x3164), (0xE000, 0xF8FF), (0xFEFF, 0xFEFF), (0xFFA0, 0xFFA0), (0xFFF9, 0xFFFB),
   (0x110BD, 0x110BD), (0x110CD, 0x110CD), (0x13430, 0x1343F), (0x1BCA0, 0x1BCA3),
   (0x1D173, 0x1D17A), (0xE0001, 0xE0001), (0xE0020, 0xE007F), (0xF0000, 0xFFFFD),
   (0x100000, 0x10FFFD)]

/-- Whether a code point lies in one of several ranges. -/
def within (ranges : List (Nat × Nat)) (n : Nat) : Bool :=
  ranges.any fun range => range.1 ≤ n && n ≤ range.2

/-- A character written by its number. -/
def isHidden (c : Char) : Bool :=
  let n := c.toNat
  n < 0x20 || n == 0x7F ||
    (0x80 ≤ n && (within invisible n || within combining n || within unassigned n))

/-- The written form of one character. -/
def writeChar (c : Char) : String :=
  if c = '"' then "\\\""
  else if c = '\\' then "\\\\"
  else if c = '\n' then "\\n"
  else if c = '\r' then "\\r"
  else if c = '\t' then "\\t"
  else if c = '\x00' then "\\0"
  else if isHidden c then
    "\\u\x7b" ++ String.ofList (Nat.toDigits 16 c.toNat) ++ "\x7d"
  else c.toString

/-- The written form of a string, its quotes included. -/
def write (text : String) : String :=
  "\"" ++ String.join (text.toList.map writeChar) ++ "\""

/-- Several written forms between brackets. -/
def writeList (texts : List String) : String :=
  "[" ++ String.intercalate ", " texts ++ "]"

end Escaped
end Tabletop
