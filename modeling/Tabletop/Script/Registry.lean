/-
# Registries: the keywords and functions scripts may use

A registry maps words to keywords, and either knows the functions that calls
can be for or knows none.  Registering a keyword replaces the one with the same
name.  `Registry.standard` holds the usual vocabulary:

| words | function | slots |
| --- | --- | --- |
| `+ - * / %` | arithmetic | `-$1 $1`; before `-` stands 0 by default |
| `== != < <= > >=`, `and or`, `in` | comparison, logic, membership | `-$1 $1` |
| `not entity exists count location at delete` | of the same name | `$1` |
| `max min` | extrema | `$1`, variadic |
| `if` | choice | `$1 $2 $3`, the last none by default |
| `let`, `var`, `get` | storage, stats | names taken as text |
| `test perform`, `random`, `delay` | moves, dice, schedule | after the word |
| `advance` | time | `$1`, 1 by default |
| `recruit` | recruiting | `$1`; `$2 $3 $4` named |
| `travel` | travelling | `-$1 $1` |
| `+= -= = := append remove` | edits | `-$2 -$1 $1`, the middle one as text |
-/

import Tabletop.Script.Builtin
import Tabletop.Script.Keyword

namespace Tabletop

/-- The keywords and functions scripts may use. -/
structure Registry where
  keywords : Std.ExtTreeMap String Keyword := ∅
  knowsFunctions : Bool := false

namespace Registry

/-- No keywords and no functions. -/
def empty : Registry := {}

/-- Adds a keyword, in place of any with its name. -/
def register (r : Registry) (keyword : Keyword) : Registry :=
  { r with keywords := r.keywords.insert keyword.name keyword }

/-- Adds the keyword a definition describes. -/
def define (r : Registry) (d : Keyword.Definition) : Except SyntaxError Registry := do
  return r.register (← Keyword.ofDefinition d)

/-- The keyword of a word. -/
def keyword? (r : Registry) (word : String) : Option Keyword := r.keywords[word]?

/-- Whether a word is a keyword. -/
def isKeyword (r : Registry) (word : String) : Bool := r.keywords.contains word

/-- The function of a name. -/
def function? (r : Registry) (name : String) : Option Builtin :=
  if r.knowsFunctions then Builtin.ofName? name else none

/-- The number of keywords. -/
def size (r : Registry) : Nat := r.keywords.size

/-- A keyword between its two arguments. -/
def between (name target : String) : Keyword :=
  { name, target, args := [.before 1, .after 1] }

/-- A keyword before its argument. -/
def ahead (name target : String) : Keyword := { name, target, args := [.after 1] }

/-- A keyword that edits: who, what as text, and by what. -/
def edit (name target : String) : Keyword :=
  { name, target, args := [.before 2, .before 1, .after 1], literal := [.before 1] }

/-- The usual keywords. -/
def standardKeywords : List Keyword :=
  [between "+" "add",
   (between "-" "sub").withDefault (.before 1) (.int 0),
   between "*" "mul", between "/" "div", between "%" "rem",
   between "==" "eq", between "!=" "ne", between "<" "lt", between "<=" "le",
   between ">" "gt", between ">=" "ge",
   between "and" "and", between "or" "or",
   between "in" "contains", between "travel" "travel",
   ahead "not" "not", ahead "entity" "entity", ahead "exists" "exists",
   ahead "count" "count", ahead "location" "location", ahead "at" "at",
   ahead "delete" "delete",
   { ahead "max" "max" with variadic := true },
   { ahead "min" "min" with variadic := true },
   { ahead "var" "stored" with literal := [.after 1] },
   ({ name := "if", target := "if", args := [.after 1, .after 2, .after 3] } : Keyword).withDefault
     (.after 3) .none,
   { name := "let", target := "assign", args := [.after 1, .after 2], literal := [.after 1] },
   { name := "get", target := "stat", args := [.after 1, .after 2], literal := [.after 2] },
   { name := "time", target := "time" },
   { name := "test", target := "test_move", args := [.after 1, .after 2, .after 3] },
   { name := "perform", target := "control_move", args := [.after 1, .after 2, .after 3] },
   { name := "random", target := "random", args := [.after 1, .after 2] },
   { name := "delay", target := "delay", args := [.after 1, .after 2] },
   (ahead "advance" "control_time").withDefault (.after 1) (.int 1),
   { name := "recruit", target := "recruit", args := [.after 1],
     named := [("location", .after 2), ("owner", .after 3), ("list", .after 4)],
     literal := [.after 4] },
   edit "+=" "stat_add", edit "-=" "stat_sub", edit "=" "stat_set",
   edit ":=" "string_set", edit "append" "list_add", edit "remove" "list_remove"]

/-- The usual vocabulary. -/
def standard : Registry :=
  standardKeywords.foldl register { knowsFunctions := true }

end Registry
end Tabletop
