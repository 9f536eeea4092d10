/-
# Tokens: the pieces of a script

A script is a row of tokens.  Words and quoted strings are flat; a group in
round brackets and a list in square brackets hold tokens of their own and keep
the text between their brackets; a block in curly brackets keeps only its text,
to be read later.  A word with dots between its parts is short for a group of
the parts, and that group keeps the word as its text.
-/

namespace Tabletop

/-- One piece of a script. -/
inductive Token
  | word (text : String)
  | quoted (text : String)
  | block (text : String)
  | group (items : List Token) (raw : String)
  | list (items : List Token) (raw : String)
deriving Repr, Inhabited

namespace Token

/-- The text a token stands for when it is taken literally. -/
def text : Token → String
  | .word text | .quoted text | .block text => text
  | .group _ raw | .list _ raw => raw

/-- The word a token is, if it is one. -/
def word? : Token → Option String
  | .word text => some text
  | _ => none

end Token
end Tabletop
