/-
# Reading a script into tokens

A script is read one character at a time by an automaton (`Reader.step`), so
reading `a ++ b` is reading `a` and then `b`.  Its state is the innermost open
bracket's level (the tokens and the text read there), the brackets still open
around it, and a mode: between tokens, or inside a word, a quoted string or a
block.

* Blanks and the delimiters `( ) [ ] { } " '` end a word.
* A word with a dot in it is a chain, unless it starts like a number: an
  optional `-` and a digit.  A chain is the group of its parts, none of them
  empty.
* In a quoted string a backslash takes the next character as it is, except
  that `\n` is a line feed.
* A block runs to the matching `}`; braces inside its quoted strings do not
  count.  A block and a round group must not be empty; a square list may be.

The first fault from the left is reported.  At the end of the script an open
string comes first, then an open block, then the innermost open bracket.
-/

import Tabletop.Script.SyntaxError
import Tabletop.Script.Token
import Tabletop.Text.Blank

namespace Tabletop

/-- A bracket that holds tokens. -/
inductive Bracket
  | round
  | square
deriving DecidableEq, Repr

namespace Bracket

/-- The character that opens it. -/
def opening : Bracket → Char
  | .round => '('
  | .square => '['

/-- The character that closes it. -/
def closing : Bracket → Char
  | .round => ')'
  | .square => ']'

/-- The bracket a character opens. -/
def ofOpening? (c : Char) : Option Bracket :=
  if c = '(' then some .round else if c = '[' then some .square else none

/-- The token made of what stands between the brackets. -/
def token : Bracket → List Token → String → Token
  | .round => .group
  | .square => .list

end Bracket

/-- The characters that end a word although they are no blanks. -/
def isDelimiter (c : Char) : Bool :=
  c == '(' || c == ')' || c == '[' || c == ']' || c == '\x7b' || c == '\x7d' || c == '"' ||
    c == '\''

/-- The characters that close a bracket. -/
def isClosing (c : Char) : Bool := c == ')' || c == ']' || c == '\x7d'

/-- The characters that open and close a quoted string. -/
def isQuote (c : Char) : Bool := c == '"' || c == '\''

/-- The length of a text in bytes. -/
def byteLength (text : List Char) : Nat := text.foldr (fun c n => c.utf8Size + n) 0

namespace Word

/-- A word that is a chain: it has a dot and does not start like a number. -/
def isChain (word : List Char) : Bool :=
  let unsigned := match word with
    | '-' :: rest => rest
    | _ => word
  word.contains '.' && !(unsigned.head?.any Char.isDigit)

/-- The parts of a word between its dots. -/
def parts : List Char → List (List Char)
  | [] => [[]]
  | '.' :: rest => [] :: parts rest
  | c :: rest =>
    match parts rest with
    | [] => [[c]]
    | part :: more => (c :: part) :: more

theorem parts_ne_nil (word : List Char) : parts word ≠ [] := by
  fun_induction parts word <;> simp_all

/-- The words of a chain whose first part starts at a byte. -/
def chain (byte : Nat) : List (List Char) → Except SyntaxError (List Token)
  | [] => .ok []
  | part :: more =>
    if part.isEmpty then .error (.emptyToken byte)
    else do
      let rest ← chain (byte + byteLength part + 1) more
      return .word (String.ofList part) :: rest

/-- The token written as a word that starts at a byte. -/
def token (byte : Nat) (word : List Char) : Except SyntaxError Token :=
  if isChain word then do
    let items ← chain byte (parts word)
    return .group items (String.ofList word)
  else
    return .word (String.ofList word)

end Word

namespace Reader

/-- What has been read inside one bracket, both from the last to the first. -/
structure Level where
  tokens : List Token := []
  text : List Char := []

/-- A bracket still open, with the level around it. -/
structure Opened where
  bracket : Bracket
  start : Nat
  outside : Level

/-- What is being read. -/
inductive Mode
  /-- No token has begun. -/
  | between
  /-- A word; its characters from the last to the first. -/
  | word (start : Nat) (read : List Char)
  /-- A quoted string; `escaped` after a backslash. -/
  | quoted (quote : Char) (escaped : Bool) (read : List Char)
  /-- A block with `depth` blocks open inside it, and the quoted string open in
  it, if any. -/
  | block (start depth : Nat) (quote : Option (Char × Bool)) (read : List Char)

end Reader

/-- The state of reading a script. -/
structure Reader where
  position : Nat := 0
  mode : Reader.Mode := .between
  level : Reader.Level := {}
  opened : List Reader.Opened := []

namespace Reader

/-- Moves over a character of the present level. -/
def pass (r : Reader) (c : Char) (mode : Mode) : Reader :=
  { r with
    position := r.position + c.utf8Size
    mode
    level := { r.level with text := c :: r.level.text } }

/-- Adds a token to the present level. -/
def push (r : Reader) (token : Token) : Reader :=
  { r with mode := .between, level := { r.level with tokens := token :: r.level.tokens } }

/-- Opens a bracket. -/
def openBracket (r : Reader) (bracket : Bracket) : Reader :=
  { position := r.position + 1
    mode := .between
    level := {}
    opened := ⟨bracket, r.position, r.level⟩ :: r.opened }

/-- Closes the innermost bracket; its text becomes part of the level around it. -/
def closeBracket (r : Reader) (c : Char) : Except SyntaxError Reader :=
  match r.opened with
  | [] => .error (.unbalanced c)
  | o :: opened =>
    if c ≠ o.bracket.closing then .error (.mismatched o.bracket.closing c)
    else if o.bracket = .round ∧ r.level.tokens.isEmpty then .error (.emptyToken o.start)
    else
      let token := o.bracket.token r.level.tokens.reverse
        (String.ofList (trimRead r.level.text))
      .ok
        { position := r.position + 1
          mode := .between
          level :=
            { tokens := token :: o.outside.tokens
              text := c :: (r.level.text ++ o.bracket.opening :: o.outside.text) }
          opened }

/-- Reads a character between two tokens. -/
def begin (r : Reader) (c : Char) : Except SyntaxError Reader :=
  if isBlank c then .ok (r.pass c .between)
  else if isClosing c then r.closeBracket c
  else
    match Bracket.ofOpening? c with
    | some bracket => .ok (r.openBracket bracket)
    | none =>
      if c = '\x7b' then .ok (r.pass c (.block r.position 0 none []))
      else if isQuote c then .ok (r.pass c (.quoted c false []))
      else .ok (r.pass c (.word r.position [c]))

/-- Ends the word that is being read. -/
def endWord (r : Reader) (start : Nat) (read : List Char) : Except SyntaxError Reader := do
  let token ← Word.token start read.reverse
  return r.push token

/-- Ends the block that is being read. -/
def endBlock (r : Reader) (start : Nat) (read : List Char) : Except SyntaxError Reader :=
  let text := trimRead read
  if text.isEmpty then .error (.emptyToken start)
  else .ok (r.push (.block (String.ofList text)))

/-- The character a backslash and `c` stand for. -/
def unescape (c : Char) : Char := if c = 'n' then '\n' else c

/-- Reads one character. -/
def step (r : Reader) (c : Char) : Except SyntaxError Reader :=
  match r.mode with
  | .between => r.begin c
  | .word start read =>
    if isBlank c || isDelimiter c then do
      let r ← r.endWord start read
      r.begin c
    else .ok (r.pass c (.word start (c :: read)))
  | .quoted quote true read => .ok (r.pass c (.quoted quote false (unescape c :: read)))
  | .quoted quote false read =>
    if c = '\\' then .ok (r.pass c (.quoted quote true read))
    else if c = quote then
      .ok ((r.pass c .between).push (.quoted (String.ofList read.reverse)))
    else .ok (r.pass c (.quoted quote false (c :: read)))
  | .block start depth (some (quote, escaped)) read =>
    let inside :=
      if escaped then some (quote, false)
      else if c = '\\' then some (quote, true)
      else if c = quote then none
      else some (quote, false)
    .ok (r.pass c (.block start depth inside (c :: read)))
  | .block start depth none read =>
    if isQuote c then .ok (r.pass c (.block start depth (some (c, false)) (c :: read)))
    else if c = '\x7b' then .ok (r.pass c (.block start (depth + 1) none (c :: read)))
    else if c = '\x7d' then
      match depth with
      | 0 => (r.pass c .between).endBlock start read
      | depth + 1 => .ok (r.pass c (.block start depth none (c :: read)))
    else .ok (r.pass c (.block start depth none (c :: read)))

/-- The tokens read, once no bracket is open. -/
def closeAll (r : Reader) : Except SyntaxError (List Token) :=
  match r.opened with
  | [] => .ok r.level.tokens.reverse
  | o :: _ => .error (.unbalanced o.bracket.opening)

/-- The tokens read, at the end of the script. -/
def finish (r : Reader) : Except SyntaxError (List Token) :=
  match r.mode with
  | .between => r.closeAll
  | .word start read => do
    let r ← r.endWord start read
    r.closeAll
  | .quoted .. => .error .unterminated
  | .block _ _ (some _) _ => .error .unterminated
  | .block _ _ none _ => .error (.unbalanced '\x7b')

/-- Reads a row of characters. -/
def run (r : Reader) (text : List Char) : Except SyntaxError Reader := text.foldlM step r

/-- Reading is done piece by piece. -/
theorem run_append (r : Reader) (a b : List Char) :
    r.run (a ++ b) = (r.run a).bind fun r => r.run b := by
  simp [run, bind]

end Reader

/-- The tokens of a script. -/
def tokens? (script : List Char) : Except SyntaxError (List Token) := do
  let r ← Reader.run {} script
  let tokens ← r.finish
  if tokens.isEmpty then .error .empty else .ok tokens

/-- The tokens of a script. -/
def Token.read (script : String) : Except SyntaxError (List Token) := tokens? script.toList

end Tabletop
