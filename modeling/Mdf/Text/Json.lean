import Mdf.Text.Numeral

/-!
# JSON

Documents of nulls, natural numbers, texts, lists and objects, printed with one member on a line and
two spaces for each level.  Members stand in the order in which they are given.
-/

namespace Mdf

/-- A JSON document. -/
inductive Json where
  | null
  /-- A natural number. -/
  | number (n : Nat)
  /-- A text. -/
  | text (s : String)
  /-- A list. -/
  | list (items : List Json)
  /-- Named members. -/
  | object (members : List (String × Json))

namespace Json

/-- The characters that have an escape of two characters, and its second one. -/
def shortEscapes : List (Char × Char) :=
  [('\x22', '\x22'), ('\\', '\\'), ('\x08', 'b'), ('\x0C', 'f'), ('\n', 'n'), ('\r', 'r'),
    ('\t', 't')]

/-- A character within quotes.  Control characters without a short escape go by their number. -/
def escapeChar (c : Char) : List Char :=
  match shortEscapes.lookup c with
  | some e => ['\\', e]
  | none =>
    if c.toNat < 0x20 then
      '\\' :: 'u' :: (Numeral.padLeft 4 '0' (String.ofList (Nat.toDigits 16 c.toNat))).toList
    else [c]

/-- A text in quotes. -/
def quoted (s : String) : String :=
  "\"" ++ String.ofList (s.toList.flatMap escapeChar) ++ "\""

/-- The start of a line at a level. -/
def newline (level : Nat) : String := "\n" ++ String.ofList (List.replicate (2 * level) ' ')

/-- Items between brackets, each on a line of its own; no items, no lines. -/
def bracketed (left right : String) (level : Nat) (items : List String) : String :=
  if items.isEmpty then left ++ right
  else left ++ String.intercalate "," (items.map fun i => newline (level + 1) ++ i)
    ++ newline level ++ right

/-- A document that starts at a level. -/
def renderAt (level : Nat) : Json → String
  | null => "null"
  | number n => toString n
  | text s => quoted s
  | list items =>
    bracketed "[" "]" level (items.attach.map fun ⟨j, _⟩ => renderAt (level + 1) j)
  | object members =>
    bracketed "\x7b" "\x7d" level
      (members.attach.map fun ⟨m, _⟩ => quoted m.1 ++ ": " ++ renderAt (level + 1) m.2)
termination_by j => sizeOf j
decreasing_by
  · rename_i h
    have := List.sizeOf_lt_of_mem h
    simp only [list.sizeOf_spec]
    omega
  · rename_i h
    have := List.sizeOf_lt_of_mem h
    have hm : sizeOf m.2 < sizeOf m := by
      cases m
      simp only [Prod.mk.sizeOf_spec]
      omega
    simp only [object.sizeOf_spec]
    omega

/-- A document. -/
def render (j : Json) : String := renderAt 0 j

end Json

end Mdf
