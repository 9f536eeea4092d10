/-
# Printed literals read back

A literal is printed as scripts write it: a string between double quotes, escaped, and
every other literal as a word.  Printer and reader have a table of escapes each.  The
reader's undoes the printer's character by character (`Quoted.quotes_encode`), so a printed
literal reads as one token, wherever it stands between tokens (`Literal.reads_render`).

The token means the literal again, under every registry (`Literal.token_means`), unless it
is a number out of range, which no script can write.
-/

import Tabletop.Proofs.Grammar
import Tabletop.Script

namespace Tabletop

namespace Quoted

/-- A character of a string is written as it is, or behind a backslash. -/
theorem encodeChar_cases (c : Char) :
    (c ≠ '"' ∧ c ≠ '\\' ∧ encodeChar c = [c]) ∨
      ∃ d, encodeChar c = ['\\', d] ∧ Reader.unescape d = c := by
  rw [encodeChar]
  split
  · next quote => exact .inr ⟨'"', rfl, quote.symm⟩
  · next quote =>
    split
    · next slash => exact .inr ⟨'\\', rfl, slash.symm⟩
    · next slash =>
      split
      · next feed => exact .inr ⟨'n', rfl, feed.symm⟩
      · exact .inl ⟨quote, slash, rfl⟩

/-- **What is written between quotes stands for the text it was written for.** -/
theorem quotes_encode (text : List Char) : Quotes '"' false (text.flatMap encodeChar) text := by
  induction text with
  | nil => exact .nil
  | cons c text ih =>
    rw [List.flatMap_cons]
    rcases encodeChar_cases c with ⟨quote, slash, written⟩ | ⟨d, written, rfl⟩ <;> rw [written]
    · exact .plain slash quote ih
    · exact .backslash (.escaped ih)

end Quoted

namespace Literal

/-- The token a literal is printed as. -/
def token : Literal → Token
  | .str text => .quoted text
  | v => .word v.render

/-- A literal that scripts can write: a number is in range. -/
def Writable : Literal → Prop
  | .int n => Integer.InRange n
  | _ => True

/-- **A printed literal reads as its token**, wherever it stands between tokens. -/
theorem reads_render (v : Literal) : Reader.Reads v.render.toList [v.token] := by
  cases v with
  | none => exact Reader.reads_plain (by decide) (forall_mem_of_all (by decide))
  | bool b =>
    cases b with
    | false => exact Reader.reads_plain (by decide) (forall_mem_of_all (by decide))
    | true => exact Reader.reads_plain (by decide) (forall_mem_of_all (by decide))
  | int n => exact Reader.reads_write n
  | str text =>
    have isQuote : isQuote '"' = true := rfl
    have spells := Spells.quoted isQuote (Quoted.quotes_encode text.toList) .nil
    have written : (Literal.str text).render.toList =
        '"' :: (text.toList.flatMap Quoted.encodeChar ++ ['"']) := by
      rw [render, Quoted.write, String.toList_ofList, Quoted.encode, List.cons_append]
    rw [written, token]
    simpa using spells.reads

/-- **A printed literal is a script of one token.** -/
theorem read_render (v : Literal) : Token.read v.render = .ok [v.token] :=
  v.reads_render.tokens?_eq (List.cons_ne_nil _ _)

/-- **What a literal is printed as means the literal.** -/
theorem token_means {v : Literal} (h : v.Writable) (r : Registry)
    (lone : String → Bool → Option Compiled) :
    Compile.token r lone v.token = .ok (.literal v) := by
  cases v with
  | none => rfl
  | bool b => cases b <;> rfl
  | int n =>
    have number : Expr.ofWord (Integer.write n) = .literal (.int n) := by
      rw [Expr.ofWord, Integer.read?_write h]
    exact congrArg Except.ok number
  | str text => rfl

/-- **A printed string reads back**, whatever is in it: as one token, its quoted text. -/
theorem read_render_str (text : String) :
    Token.read (Literal.str text).render = .ok [.quoted text] :=
  read_render (.str text)

/-- Backslashes before quotes and line feeds are kept apart. -/
example : (Literal.str "\\\"\\\\n\n]").render = "\"\\\\\\\"\\\\\\\\n\\n]\"" := by decide

end Literal
end Tabletop
