/-
# Scripts: text and its meaning

A script is a text together with the expression it means under a registry.
Every group of tokens means one expression:

* round brackets around a single group change nothing;
* a lone word that is no keyword, but starts with one of a single character, is
  split after that character, so `-x` means `- x`;
* a group with one keyword is a call: the keyword's slots pick the arguments;
* a group with several keywords is refused;
* a group without a keyword is a tuple, and refused as a whole script.

The split is made once: what is left of a word holds no brackets, so there is
no lone word in it to split again.

Two scripts count as equal when their texts are.
-/

import Tabletop.Script.Expr.Printer
import Tabletop.Script.Reader
import Tabletop.Script.Registry

namespace Tabletop

/-- The outcome of giving a meaning to tokens. -/
abbrev Compiled := Except SyntaxError Expr

/-- The meaning of a bare word: an integer, another literal, a role, or a name. -/
def Expr.ofWord (word : String) : Expr :=
  match Integer.read? word.toList with
  | some n => .literal (.int n)
  | none =>
    if word = "true" then .literal (.bool true)
    else if word = "false" then .literal (.bool false)
    else if word = "none" then .literal .none
    else
      match Role.ofWord? word with
      | some r => .role r
      | none => .name word

namespace Compile

/-- A token of a group, with its meaning. -/
structure Part where
  token : Token
  code : Compiled

/-- The tokens a keyword has not taken yet, by slot. -/
abbrev Unclaimed := List (Slot × Part)

/-- The parts around the one at a position, by slot. -/
def around (parts : List Part) (position : Nat) : Unclaimed :=
  (parts.zipIdx.filter fun (_, i) => i ≠ position).map fun (part, i) =>
    (Slot.between i position, part)

/-- The argument a part makes at a slot. -/
def argument (k : Keyword) (slot : Slot) (part : Part) : Compiled :=
  if k.literal.contains slot then .ok (.literal (.str part.token.text)) else part.code

/-- The argument at a slot, if a token stands there or it has a default. -/
def claim (k : Keyword) (slot : Slot) (left : Unclaimed) :
    Except SyntaxError (Option Expr × Unclaimed) :=
  match left.lookup slot with
  | some part => do
    let e ← argument k slot part
    return (some e, left.filter fun (s, _) => s ≠ slot)
  | none => .ok ((k.defaults[slot]?).map .literal, left)

/-- The arguments at slots that have to be filled. -/
def claimAll (k : Keyword) : List Slot → Unclaimed → Except SyntaxError (List Expr × Unclaimed)
  | [], left => .ok ([], left)
  | slot :: slots, left => do
    let (arg, left) ← claim k slot left
    match arg with
    | none => .error (.missingArgument k.name slot)
    | some e =>
      let (es, left) ← claimAll k slots left
      return (e :: es, left)

/-- The arguments at named slots, which may stay empty. -/
def claimNamed (k : Keyword) :
    List (String × Slot) → Unclaimed → Except SyntaxError (List (String × Expr) × Unclaimed)
  | [], left => .ok ([], left)
  | (name, slot) :: slots, left => do
    let (arg, left) ← claim k slot left
    let (es, left) ← claimNamed k slots left
    match arg with
    | none => return (es, left)
    | some e => return ((name, e) :: es, left)

/-- The call of a keyword at a position of a group. -/
def call (k : Keyword) (parts : List Part) (position : Nat) : Compiled := do
  let (args, left) ← claimAll k k.args (around parts position)
  let (named, left) ← claimNamed k k.named left
  if left.isEmpty then
    return .call k.target args [] named
  else if k.variadic then
    let variadic ← left.mapM fun (slot, part) => argument k slot part
    return .call k.target args variadic named
  else
    .error (.unusedArguments k.name (left.map (·.1)))

/-- The keywords of a group, with their words and positions. -/
def keywordsIn (r : Registry) (parts : List Part) : List (Nat × String × Keyword) :=
  parts.zipIdx.filterMap fun (part, i) => do
    let word ← part.token.word?
    let k ← r.keyword? word
    return (i, word, k)

/-- The meaning of a group, from its parts. -/
def assemble (r : Registry) (parts : List Part) (root : Bool) : Compiled :=
  match keywordsIn r parts with
  | [] =>
    if root then .error .noKeyword
    else do return .tuple (← parts.mapM (·.code))
  | [(position, _, k)] => call k parts position
  | many => .error (.tooManyKeywords (many.map fun (_, word, _) => word))

/-- The tokens of a lone word that starts with a keyword of one character. -/
def split? (r : Registry) (word : String) : Option (Except SyntaxError (List Token)) :=
  match word.toList with
  | first :: next :: rest =>
    if !r.isKeyword word && r.isKeyword (String.ofList [first]) then
      some do return .word (String.ofList [first]) :: (← tokens? (next :: rest))
    else none
  | _ => none

mutual

/-- The meaning of a token.  `lone` gives the meaning of a group of one word,
where it differs from that of the word. -/
def token (r : Registry) (lone : String → Bool → Option Compiled) : Token → Compiled
  | .word w => .ok (.ofWord w)
  | .quoted text | .block text => .ok (.literal (.str text))
  | .group items _ => group r lone items false
  | .list items _ => do return .list (← (parts r lone items).mapM (·.code))

/-- The meaning of a group; `root` if it is the whole script. -/
def group (r : Registry) (lone : String → Bool → Option Compiled) : List Token → Bool → Compiled
  | [], root => assemble r [] root
  | [.group items _], root => group r lone items root
  | [.word w], root =>
    match lone w root with
    | some code => code
    | none => assemble r [⟨.word w, .ok (.ofWord w)⟩] root
  | t :: ts, root => assemble r (⟨t, token r lone t⟩ :: parts r lone ts) root

/-- Tokens with their meanings. -/
def parts (r : Registry) (lone : String → Bool → Option Compiled) : List Token → List Part
  | [] => []
  | t :: ts => ⟨t, token r lone t⟩ :: parts r lone ts

end

/-- The meaning of a group of tokens, lone words left whole. -/
def whole (r : Registry) (tokens : List Token) (root : Bool) : Compiled :=
  group r (fun _ _ => none) tokens root

/-- The meaning of a lone word that has to be split. -/
def splitWord (r : Registry) (word : String) (root : Bool) : Option Compiled :=
  (split? r word).map fun tokens => do whole r (← tokens) root

/-- The meaning of a row of tokens as a whole script. -/
def script (r : Registry) (tokens : List Token) : Compiled := group r (splitWord r) tokens true

end Compile

/-- The meaning of a text. -/
def Registry.meaning (r : Registry) (text : String) : Compiled := do
  Compile.script r (← Token.read text)

/-- A text with its meaning. -/
structure Script where
  raw : String
  code : Expr
deriving Inhabited

namespace Script

instance : BEq Script := ⟨fun a b => a.raw == b.raw⟩

/-- The meaning, written for people. -/
def rendered (s : Script) : String := s.code.render

/-- The script with its fields spelled out. -/
def detail (s : Script) : String :=
  "Script \x7b raw: " ++ Escaped.write s.raw ++ ", translated: " ++ Escaped.write s.rendered ++
    ", code: " ++ s.code.detail ++ " \x7d"

end Script

/-- The script of a text. -/
def Registry.compile (r : Registry) (text : String) : Except SyntaxError Script := do
  return ⟨text, ← r.meaning text⟩

end Tabletop
