/-
# What can be wrong with a script

The causes for which a script is refused, from splitting it into tokens to
binding a keyword's arguments, and the one text that reports each of them.
Places are counted in bytes of the UTF-8 form of the script.
-/

import Tabletop.Script.Slot
import Tabletop.Text.Escaped

namespace Tabletop

/-- Why a script, or a keyword definition, is refused. -/
inductive SyntaxError
  /-- The script holds no token. -/
  | empty
  /-- Nothing stands where the token at this byte begins. -/
  | emptyToken (byte : Nat)
  /-- A bracket has no partner. -/
  | unbalanced (bracket : Char)
  /-- A bracket is closed by one of another kind. -/
  | mismatched (expected found : Char)
  /-- A quoted string never ends. -/
  | unterminated
  /-- A group holds several keywords. -/
  | tooManyKeywords (words : List String)
  /-- The whole script holds no keyword. -/
  | noKeyword
  /-- A slot of the keyword holds no token and has no default. -/
  | missingArgument (keyword : String) (slot : Slot)
  /-- Tokens are left over and the keyword does not take them. -/
  | unusedArguments (keyword : String) (slots : List Slot)
  /-- The text is not a written slot. -/
  | invalidSlot (text : String)
deriving DecidableEq, Repr

/-- The report of a syntax error. -/
def SyntaxError.message : SyntaxError → String
  | .empty => "script is empty"
  | .emptyToken byte => "empty token at byte " ++ Integer.digits byte
  | .unbalanced bracket => "unbalanced bracket '" ++ bracket.toString ++ "'"
  | .mismatched expected found =>
    "mismatched bracket: expected '" ++ expected.toString ++ "', found '" ++ found.toString ++ "'"
  | .unterminated => "unterminated string literal"
  | .tooManyKeywords words =>
    "more than one keyword in one call: " ++ Escaped.writeList (words.map Escaped.write)
  | .noKeyword => "no keyword in top-level call"
  | .missingArgument keyword slot =>
    "keyword '" ++ keyword ++ "' is missing argument " ++ slot.text
  | .unusedArguments keyword slots =>
    "keyword '" ++ keyword ++ "' has unused arguments at " ++
      Escaped.writeList (slots.map fun slot => Escaped.write slot.text)
  | .invalidSlot text => "invalid slot '" ++ text ++ "' (expected $n or -$n)"

end Tabletop
