import Mdf.Text.Numeral

/-!
# Escapes and references

Five characters have a meaning of their own in markup.  `escape` writes each of them as a reference
by name, and `resolve?` reads a reference: one of the five names, or the number of a character in
decimal or hexadecimal.
-/

namespace Mdf.Markup

/-- The five characters that are written by name, and their names. -/
def entities : List (Char × String) :=
  [('<', "lt"), ('>', "gt"), ('&', "amp"), ('\'', "apos"), ('"', "quot")]

/-- The reference to an entity. -/
def reference (name : String) : List Char := '&' :: name.toList ++ [';']

/-- A character as it is written in text. -/
def escapeChar (c : Char) : List Char :=
  match entities.find? fun e => e.1 == c with
  | some (_, name) => reference name
  | none => [c]

/-- A text as it is written in markup. -/
def escape (s : String) : String := String.ofList (s.toList.flatMap escapeChar)

/-- The character of a code point, if it is one. -/
def charOfNumber? (n : Nat) : Option Char :=
  if n.isValidChar then some (Char.ofNat n) else none

/-- The character that a reference of the given name stands for. -/
def resolve? (name : List Char) : Option Char :=
  match name with
  | '#' :: 'x' :: digits => (Numeral.read? 16 UInt32.size digits).bind charOfNumber?
  | '#' :: digits => (Numeral.read? 10 UInt32.size digits).bind charOfNumber?
  | _ => (entities.find? fun e => e.2.toList == name).map Prod.fst

example : escape "a<b & \"c\"" = "a&lt;b &amp; &quot;c&quot;" := by decide
example : resolve? "#x41".toList = some 'A' := by decide
example : resolve? "#xD800".toList = none := by decide
example : resolve? "nbsp".toList = none := by decide

theorem resolve?_of_mem {c : Char} {name : String} (h : (c, name) ∈ entities) :
    resolve? name.toList = some c := by
  simp only [entities, List.mem_cons, Prod.mk.injEq, List.not_mem_nil, or_false] at h
  rcases h with ⟨rfl, rfl⟩ | ⟨rfl, rfl⟩ | ⟨rfl, rfl⟩ | ⟨rfl, rfl⟩ | ⟨rfl, rfl⟩ <;> decide

end Mdf.Markup
