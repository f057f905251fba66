import Mathlib.Algebra.BigOperators.Group.List.Basic
import Mathlib.Algebra.GroupWithZero.Nat
import Mathlib.Data.List.Infix
import Mdf.Deflate.Bits

/-!
# The compressed format

What RFC 1950 and RFC 1951 say of a compressed stream, as relations between its bits and the bytes
they stand for: `Symbols` for the symbols of a block, `Body` for a block, `Blocks` for the blocks of
a stream, and `Stream` for the container.  Nothing here decodes.  A code is given by the lengths of
its words, and `IsWord` says which word each symbol has; tables are given by the rules behind them.
-/

namespace Mdf.Deflate

/-! ### Numbers and words -/

/-- The number that bits stand for, the first one least. -/
def number : List Bool → Nat
  | [] => 0
  | b :: w => b.toNat + 2 * number w

/-- The number that a word stands for, its first bit greatest. -/
def wordValue (w : List Bool) : Nat := w.foldl (fun v b => 2 * v + b.toNat) 0

section Code

/- The length of each symbol's word, zero for a symbol without a word. -/
variable (ls : List Nat)

/-- The first word of a length: twice what follows the last word that is one bit shorter. -/
def firstWord : Nat → Nat
  | 0 => 0
  | n + 1 => 2 * (firstWord n + if n = 0 then 0 else ls.count n)

/-- The word of a symbol.  Words of one length are in the order of their symbols. -/
structure IsWord (s : Nat) (w : List Bool) : Prop where
  length : ls[s]? = some w.length
  pos : 0 < w.length
  le : w.length ≤ 15
  value : wordValue w = firstWord ls w.length + (ls.take s).count w.length

/-- Words of at most 15 bits that leave no sequence of bits without one at its start. -/
def IsComplete : Prop :=
  (∀ l ∈ ls, l ≤ 15) ∧ (ls.map fun l => if l = 0 then 0 else 2 ^ (15 - l)).sum = 2 ^ 15

/-- What a block may give for a code: a complete one, a single word of one bit, or no word. -/
def IsCode : Prop := IsComplete ls ∨ ls.filter (· ≠ 0) = [1] ∨ ls.filter (· ≠ 0) = []

instance (s : Nat) (w : List Bool) : Decidable (IsWord ls s w) :=
  decidable_of_iff (ls[s]? = some w.length ∧ 0 < w.length ∧ w.length ≤ 15 ∧
      wordValue w = firstWord ls w.length + (ls.take s).count w.length)
    ⟨fun ⟨hlength, hpos, hle, hvalue⟩ => ⟨hlength, hpos, hle, hvalue⟩,
      fun h => ⟨h.length, h.pos, h.le, h.value⟩⟩

end Code

/-! ### Lengths and distances -/

/-- How many bits are added to the length of the symbol `257 + k`. -/
def lengthExtra (k : Nat) : Nat := if k < 8 ∨ k = 28 then 0 else k / 4 - 1

/-- The least length of the symbol `257 + k`. -/
def lengthBase (k : Nat) : Nat :=
  if k < 8 then 3 + k else if k = 28 then 258 else 3 + (4 + k % 4) * 2 ^ lengthExtra k

/-- How many bits are added to the distance of a symbol. -/
def distanceExtra (t : Nat) : Nat := if t < 2 then 0 else t / 2 - 1

/-- The least distance of a symbol. -/
def distanceBase (t : Nat) : Nat :=
  if t < 2 then 1 + t else 1 + (2 + t % 2) * 2 ^ distanceExtra t

example : (lengthBase 27, lengthExtra 27) = (227, 5) := by decide
example : (distanceBase 29, distanceExtra 29) = (24577, 13) := by decide

/-- Some bytes more, each the same as the one so far before it. -/
structure IsMatch (distance length : Nat) (out after : List UInt8) : Prop where
  pos : 0 < distance
  within : distance ≤ out.length
  kept : out <+: after
  length : after.length = out.length + length
  repeats : ∀ i < after.length, out.length ≤ i → after[i]? = after[i - distance]?

/-! ### Blocks -/

/-- The symbols of a block up to its end mark: the bits, the output before them and after them. -/
inductive Symbols (literals distances : List Nat) : List Bool → List UInt8 → List UInt8 → Prop
  | stop {w : List Bool} {out : List UInt8} (hword : IsWord literals 256 w) :
      Symbols literals distances w out out
  | literal {w bits : List Bool} {b : UInt8} {out after : List UInt8}
      (hword : IsWord literals b.toNat w)
      (hrest : Symbols literals distances bits (out ++ [b]) after) :
      Symbols literals distances (w ++ bits) out after
  | copy {k t : Nat} {w extra w' extra' bits : List Bool} {out copied after : List UInt8}
      (hk : k < 29) (hword : IsWord literals (257 + k) w) (hextra : extra.length = lengthExtra k)
      (ht : t < 30) (hword' : IsWord distances t w') (hextra' : extra'.length = distanceExtra t)
      (hmatch : IsMatch (distanceBase t + number extra') (lengthBase k + number extra) out copied)
      (hrest : Symbols literals distances bits copied after) :
      Symbols literals distances (w ++ (extra ++ (w' ++ (extra' ++ bits)))) out after

/-- The word lengths of the fixed code for literals and lengths. -/
def fixedLiteralLengths : List Nat :=
  (List.range 288).map fun s =>
    if s < 144 then 8 else if s < 256 then 9 else if s < 280 then 7 else 8

def fixedDistanceLengths : List Nat := List.replicate 32 5

/-- The order in which the word lengths of the code for word lengths are given: first those for
repetitions, then those around eight. -/
def codeOrder : List Nat := [16, 17, 18, 0, 8] ++ (List.range 7).flatMap fun i => [7 - i, 9 + i]

/-- The word lengths of the code for word lengths; what is not given is zero. -/
def codeLengths (given : List (List Bool)) : List Nat :=
  (List.range 19).map fun s => (given.map number).getD (codeOrder.idxOf s) 0

/-- What a symbol of the code for word lengths repeats behind some lengths: the value, how often at
least, and the number of bits that are added to that. -/
inductive Repeats (ls : List Nat) : Nat → Nat → Nat → Nat → Prop
  | last {l : Nat} (hlast : ls.getLast? = some l) : Repeats ls 16 l 3 2
  | zeros : Repeats ls 17 0 3 3
  | moreZeros : Repeats ls 18 0 11 7

/-- A sequence of word lengths in the code for them: the bits, the lengths before and after. -/
inductive Lengths (code : List Nat) : List Bool → List Nat → List Nat → Prop
  | done {ls : List Nat} : Lengths code [] ls ls
  | one {s : Nat} {w bits : List Bool} {ls after : List Nat} (hs : s < 16) (hword : IsWord code s w)
      (hrest : Lengths code bits (ls ++ [s]) after) : Lengths code (w ++ bits) ls after
  | run {s value least n : Nat} {w extra bits : List Bool} {ls after : List Nat}
      (hrun : Repeats ls s value least n) (hword : IsWord code s w) (hextra : extra.length = n)
      (hrest : Lengths code bits (ls ++ List.replicate (least + number extra) value) after) :
      Lengths code (w ++ (extra ++ bits)) ls after

/-- The codes that a block gives: the numbers of lengths, the code for lengths, and the lengths of
both codes as one sequence. -/
inductive Codes : List Bool → List Nat → List Nat → Prop
  | mk {hlit hdist hclen bits : List Bool} {given : List (List Bool)}
      {literals distances : List Nat}
      (hhlit : hlit.length = 5) (hhdist : hdist.length = 5) (hhclen : hclen.length = 4)
      (hliterals : literals.length = number hlit + 257) (hliterals' : literals.length ≤ 286)
      (hdistances : distances.length = number hdist + 1) (hdistances' : distances.length ≤ 30)
      (hgiven : given.length = number hclen + 4) (hwidth : ∀ w ∈ given, w.length = 3)
      (hcomplete : IsComplete (codeLengths given))
      (hlengths : Lengths (codeLengths given) bits [] (literals ++ distances))
      (hcode : IsCode literals) (hcode' : IsCode distances) :
      Codes (hlit ++ (hdist ++ (hclen ++ (given.flatten ++ bits)))) literals distances

/-- A block behind the mark of the last one, at a position in the stream: two bits say its kind. -/
inductive Body (position : Nat) : List Bool → List UInt8 → List UInt8 → Prop
  | stored {pad size : List Bool} {d out : List UInt8}
      (hpad : pad.length < 8) (haligned : (position + 2 + pad.length) % 8 = 0)
      (hsize : size.length = 16) (hlength : number size = d.length) :
      Body position ([false, false] ++ (pad ++ (size ++ (size.map not ++ d.flatMap bitsOf))))
        out (out ++ d)
  | fixed {bits : List Bool} {out after : List UInt8}
      (h : Symbols fixedLiteralLengths fixedDistanceLengths bits out after) :
      Body position ([true, false] ++ bits) out after
  | dynamic {bits bits' : List Bool} {literals distances : List Nat} {out after : List UInt8}
      (hcodes : Codes bits literals distances) (h : Symbols literals distances bits' out after) :
      Body position ([false, true] ++ (bits ++ bits')) out after

/-- Blocks up to the one marked as the last. -/
inductive Blocks : Nat → List Bool → List UInt8 → List UInt8 → Prop
  | last {position : Nat} {bits : List Bool} {out after : List UInt8}
      (hbody : Body (position + 1) bits out after) : Blocks position (true :: bits) out after
  | more {position : Nat} {bits bits' : List Bool} {out between after : List UInt8}
      (hbody : Body (position + 1) bits out between)
      (hrest : Blocks (position + 1 + bits.length) bits' between after) :
      Blocks position (false :: (bits ++ bits')) out after

/-! ### Containers -/

/-- The two first bytes of a container: the method is deflate, the window is not too large, the
check bits make a multiple of 31, and no dictionary is required. -/
def IsHeader (method flags : UInt8) : Prop :=
  method.toNat % 16 = 8 ∧ method.toNat / 16 ≤ 7 ∧ (256 * method.toNat + flags.toNat) % 31 = 0 ∧
    flags.toNat / 32 % 2 = 0

instance (method flags : UInt8) : Decidable (IsHeader method flags) :=
  inferInstanceAs (Decidable (_ ∧ _))

/-- One more than the sum of all bytes. -/
def byteSum (d : List UInt8) : Nat := 1 + (d.map UInt8.toNat).sum

/-- The sum of what `byteSum` is after each byte. -/
def sumOfSums (d : List UInt8) : Nat :=
  ((List.range d.length).map fun i => byteSum (d.take (i + 1))).sum

/-- The checksum of the output: both sums modulo the greatest prime of 16 bits. -/
def checksum (d : List UInt8) : Nat := sumOfSums d % 65521 * 65536 + byteSum d % 65521

/-- The checksum as four bytes, the greatest first. -/
def checksumBytes (d : List UInt8) : List UInt8 :=
  [24, 16, 8, 0].map fun n => UInt8.ofNat (checksum d / 2 ^ n)

/-- The bytes start with a container of the output: a header of 16 bits, blocks up to the next whole
byte, and the checksum of the output. -/
inductive Stream : List UInt8 → List UInt8 → Prop
  | mk {method flags : UInt8} {body rest out : List UInt8} {bits pad : List Bool}
      (hheader : IsHeader method flags) (hbits : body.flatMap bitsOf = bits ++ pad)
      (hpad : pad.length < 8) (hblocks : Blocks 16 bits [] out) :
      Stream (method :: flags :: (body ++ (checksumBytes out ++ rest))) out

/-! ### Outputs and sequences only grow -/

lemma Lengths.length_le {code ls after : List Nat} {bits : List Bool}
    (h : Lengths code bits ls after) : ls.length ≤ after.length := by
  induction h with
  | done => exact Nat.le_refl _
  | one _ _ _ ih | run _ _ _ _ ih =>
    rw [List.length_append] at ih
    omega

lemma Symbols.isPrefix {literals distances : List Nat} {bits : List Bool} {out after : List UInt8}
    (h : Symbols literals distances bits out after) : out <+: after := by
  induction h with
  | stop => exact List.prefix_refl _
  | literal _ _ ih => exact (List.prefix_append ..).trans ih
  | copy _ _ _ _ _ _ hmatch _ ih => exact hmatch.kept.trans ih

lemma Body.isPrefix {position : Nat} {bits : List Bool} {out after : List UInt8}
    (h : Body position bits out after) : out <+: after := by
  cases h with
  | stored => exact List.prefix_append ..
  | fixed h => exact h.isPrefix
  | dynamic _ h => exact h.isPrefix

lemma Blocks.isPrefix {position : Nat} {bits : List Bool} {out after : List UInt8}
    (h : Blocks position bits out after) : out <+: after := by
  induction h with
  | last hbody => exact hbody.isPrefix
  | more hbody _ ih => exact hbody.isPrefix.trans ih

end Mdf.Deflate
