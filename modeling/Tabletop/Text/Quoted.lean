/-
# Quoted text, as scripts write it

A string is written between double quotes.  A quote and a backslash inside it
get a backslash in front, a line feed is written `\n`, and every other
character stands for itself.  Reading (in `Tabletop.Script.Reader`) is wider:
it also accepts single quotes and a backslash before any character.
-/

namespace Tabletop
namespace Quoted

/-- How one character is written between quotes. -/
def encodeChar (c : Char) : List Char :=
  if c = '"' then ['\\', '"']
  else if c = '\\' then ['\\', '\\']
  else if c = '\n' then ['\\', 'n']
  else [c]

/-- The written form of a string, its quotes included. -/
def encode (text : List Char) : List Char :=
  '"' :: text.flatMap encodeChar ++ ['"']

/-- The written form of a string, its quotes included. -/
def write (text : String) : String := String.ofList (encode text.toList)

end Quoted
end Tabletop
