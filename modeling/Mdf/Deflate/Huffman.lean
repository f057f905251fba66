/-!
# Canonical prefix codes

A code is given by the length of each symbol's word, zero for a symbol without a word.  Among
words of one length the symbols are in order, and each length goes on where the shorter ones
stopped.  So the number of words of each length and the symbols in the order of their words tell
the whole code.
-/

namespace Mdf.Deflate

/-- The greatest length of a word. -/
def maxWordLength : Nat := 15

/-- A canonical prefix code. -/
structure PrefixCode where
  /-- The number of words of each length from one on. -/
  counts : List Nat
  /-- The symbols in the order of their words. -/
  symbols : Array Nat
deriving DecidableEq, Repr

namespace PrefixCode

/-- The word lengths that occur, from one on. -/
def lengths : List Nat := (List.range maxWordLength).map (· + 1)

/-- The code with the given word lengths, symbol by symbol. -/
def ofLengths (ls : List Nat) : PrefixCode where
  counts := lengths.map fun n => ls.count n
  symbols := (lengths.flatMap fun n =>
    ls.zipIdx.filterMap fun (l, symbol) => if l = n then some symbol else none).toArray

/-- The share of all words that the code uses, in units of one word of greatest length. -/
def share (c : PrefixCode) : Nat :=
  (c.counts.zip lengths).foldl (fun acc (count, n) => acc + count <<< (maxWordLength - n)) 0

/-- Whether every sequence of bits starts with exactly one word. -/
def isComplete (c : PrefixCode) : Bool := c.share == 1 <<< maxWordLength

/-- Whether the code has no word, or a single word of one bit. -/
def isTrivial (c : PrefixCode) : Bool :=
  c.symbols.size == 0 || (c.symbols.size == 1 && c.counts.head? == some 1)

/-- Whether a block can be read in the code.  In a trivial code bits that start no word are an error
where they occur; any other code must be complete. -/
def isUsable (c : PrefixCode) : Bool := c.isComplete || c.isTrivial

example : (ofLengths [2, 1, 2]).isComplete := by decide
example : (ofLengths [0, 1, 0]).isUsable := by decide
example : (ofLengths [0, 2, 0]).isUsable = false := by decide

end PrefixCode

end Mdf.Deflate
