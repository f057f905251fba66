/-!
# Blank characters

`isBlank` is the Unicode property White_Space.  `trim` and `trimEnd` remove blank characters from
the ends of a text; `dropTrailing` is the same for any class of characters.
-/

namespace Mdf.Text

/-- The Unicode property White_Space: 25 characters, of which six are ASCII. -/
def isBlank (c : Char) : Bool :=
  let n := c.toNat
  (0x9 ≤ n && n ≤ 0xD) || n == 0x20 || n == 0x85 || n == 0xA0 || n == 0x1680 ||
    (0x2000 ≤ n && n ≤ 0x200A) || n == 0x2028 || n == 0x2029 || n == 0x202F || n == 0x205F ||
    n == 0x3000

/-- The list without its longest suffix of elements in `p`. -/
def dropTrailing {α : Type} (p : α → Bool) (l : List α) : List α :=
  (l.reverse.dropWhile p).reverse

/-- The text without blank characters at its end. -/
def trimEnd (s : String) : String :=
  String.ofList (dropTrailing isBlank s.toList)

/-- The text without blank characters at either end. -/
def trim (s : String) : String :=
  String.ofList (dropTrailing isBlank (s.toList.dropWhile isBlank))

theorem dropTrailing_append_of_all {α : Type} {p : α → Bool} {l t : List α}
    (h : ∀ a ∈ t, p a = true) : dropTrailing p (l ++ t) = dropTrailing p l := by
  have hr : ∀ a ∈ t.reverse, p a = true := fun a ha => h a (List.mem_reverse.mp ha)
  simp only [dropTrailing, List.reverse_append, List.dropWhile_append_of_pos hr]

theorem dropTrailing_prefix {α : Type} (p : α → Bool) (l : List α) : dropTrailing p l <+: l := by
  have h := List.dropWhile_suffix (l := l.reverse) p
  simpa [dropTrailing] using List.reverse_prefix.mpr h

example : trim " \t a b\u00a0\u3000" = "a b" := by decide

end Mdf.Text
