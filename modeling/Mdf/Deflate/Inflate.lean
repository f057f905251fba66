import Mdf.Deflate.Bits
import Mdf.Deflate.Huffman

/-!
# Inflating

The decoder of RFC 1951.  It stops at a defect, at the end of the input, or where its output would
grow beyond a given capacity; the output up to there is kept in each case.  What a match copies from
before the start of the output reads as zeros, for the window behind the output starts out as zeros.
-/

namespace Mdf.Deflate

/-- Why decoding stops before the end of the stream. -/
inductive Stop where
  /-- The stream has a defect. -/
  | corrupt
  /-- The input ends within the stream. -/
  | inputEnd
  /-- The output has reached its capacity, and more follows. -/
  | full
deriving DecidableEq, Repr

/-- What is left of the input, and the output so far. -/
structure Progress where
  /-- The input not read. -/
  source : BitSource
  out : Array UInt8
deriving DecidableEq, Repr

/-- A step of decoding. -/
abbrev Inflater := ExceptT Stop (StateM Progress)

namespace Inflater

/-- Reads a number of `n` bits. -/
def bits (n : Nat) : Inflater Nat := do
  match (← get).source.take? n with
  | some (v, s) => modify fun p => { p with source := s }; return v
  | none => throw .inputEnd

/-- Goes on to the next whole byte. -/
def align : Inflater Unit := modify fun p => { p with source := p.source.align }

def emit (capacity : Nat) (b : UInt8) : Inflater Unit := do
  if (← get).out.size < capacity then modify fun p => { p with out := p.out.push b }
  else throw .full

/-- Appends bytes of the input. -/
def copyInput (capacity : Nat) : Nat → Inflater Unit
  | 0 => return ()
  | n + 1 => do
    emit capacity (UInt8.ofNat (← bits 8))
    copyInput capacity n

/-- The byte of an output that lies `distance` bytes before its end; zero before its start. -/
def byteBefore (out : Array UInt8) (distance : Nat) : UInt8 :=
  if distance ≤ out.size then out.getD (out.size - distance) 0 else 0

/-- Appends bytes of the output itself, each from `distance` bytes before. -/
def copyBack (capacity distance : Nat) : Nat → Inflater Unit
  | 0 => return ()
  | n + 1 => do
    emit capacity (byteBefore (← get).out distance)
    copyBack capacity distance n

/-- Follows the words of a code, length by length: `word` are the bits read, `first` is the first
word of the length, and `index` counts the shorter words.  No bit is read once all words are shorter
than the bits read. -/
def follow (symbols : Array Nat) (word first index : Nat) : List Nat → Inflater Nat
  | [] => throw .corrupt
  | count :: counts => do
    let word := 2 * word + (← bits 1)
    if word < first + count then
      match symbols[index + (word - first)]? with
      | some s => return s
      | none => throw .corrupt
    else if counts.all (· == 0) then throw .corrupt
    else follow symbols word (2 * (first + count)) (index + count) counts

/-- Reads a symbol of a code. -/
def symbol (c : PrefixCode) : Inflater Nat := follow c.symbols 0 0 0 c.counts

end Inflater

/-! ### Lengths and distances -/

/-- The least length of each length symbol from 257 on, and the bits that are added to it. -/
def lengthTable : List (Nat × Nat) :=
  [(3, 0), (4, 0), (5, 0), (6, 0), (7, 0), (8, 0), (9, 0), (10, 0), (11, 1), (13, 1), (15, 1),
    (17, 1), (19, 2), (23, 2), (27, 2), (31, 2), (35, 3), (43, 3), (51, 3), (59, 3), (67, 4),
    (83, 4), (99, 4), (115, 4), (131, 5), (163, 5), (195, 5), (227, 5), (258, 0)]

/-- The least distance of each distance symbol, and the bits that are added to it. -/
def distanceTable : List (Nat × Nat) :=
  [(1, 0), (2, 0), (3, 0), (4, 0), (5, 1), (7, 1), (9, 2), (13, 2), (17, 3), (25, 3), (33, 4),
    (49, 4), (65, 5), (97, 5), (129, 6), (193, 6), (257, 7), (385, 7), (513, 8), (769, 8),
    (1025, 9), (1537, 9), (2049, 10), (3073, 10), (4097, 11), (6145, 11), (8193, 12), (12289, 12),
    (16385, 13), (24577, 13)]

/-- The order in which the lengths of the words for word lengths are given. -/
def metaOrder : List Nat :=
  [16, 17, 18, 0, 8, 7, 9, 6, 10, 5, 11, 4, 12, 3, 13, 2, 14, 1, 15]

/-- The fixed code for literals and lengths. -/
def fixedLiterals : PrefixCode :=
  .ofLengths (List.replicate 144 8 ++ List.replicate 112 9 ++ List.replicate 24 7
    ++ List.replicate 8 8)

def fixedDistances : PrefixCode := .ofLengths (List.replicate 32 5)

namespace Inflater

/-- Reads the number that a symbol of a table stands for. -/
def extended (table : List (Nat × Nat)) (symbol : Nat) : Inflater Nat :=
  match table[symbol]? with
  | some (least, extra) => return least + (← bits extra)
  | none => throw .corrupt

/-! ### Blocks -/

/-- The symbols of a block up to its end mark.  Each one takes a bit or more, so the bits left bound
the number of steps. -/
def symbols (capacity : Nat) (literals distances : PrefixCode) : Nat → Inflater Unit
  | 0 => throw .corrupt
  | steps + 1 => do
    let s ← symbol literals
    if s < 256 then
      emit capacity (UInt8.ofNat s)
      symbols capacity literals distances steps
    else if s = 256 then return ()
    else
      let length ← extended lengthTable (s - 257)
      let distance ← extended distanceTable (← symbol distances)
      copyBack capacity distance length
      symbols capacity literals distances steps

/-- A block of bytes as they are: its length stands twice, the second time complemented. -/
def stored (capacity : Nat) : Inflater Unit := do
  align
  let length ← bits 16
  let check ← bits 16
  if length + check = 0xFFFF then copyInput capacity length
  else throw .corrupt

/-- A block in two given codes. -/
def coded (capacity : Nat) (literals distances : PrefixCode) : Inflater Unit := do
  symbols capacity literals distances ((← get).source.size + 1)

/-- The word lengths of two codes, `missing` of them after those read already. -/
def wordLengths (code : PrefixCode) : Nat → Nat → List Nat → Inflater (List Nat)
  | 0, _, _ => throw .corrupt
  | _ + 1, 0, ls => return ls
  | steps + 1, missing + 1, ls => do
    let s ← symbol code
    let run (value least extra : Nat) : Inflater (List Nat) := do
      let n := least + (← bits extra)
      if n ≤ missing + 1 then
        wordLengths code steps (missing + 1 - n) (ls ++ List.replicate n value)
      else throw .corrupt
    if s < 16 then wordLengths code steps missing (ls ++ [s])
    else if s = 16 then
      match ls.getLast? with
      | some l => run l 3 2
      | none => throw .corrupt
    else if s = 17 then run 0 3 3
    else run 0 11 7

/-- Reads `n` numbers of `width` bits. -/
def numbers (width : Nat) : Nat → Inflater (List Nat)
  | 0 => return []
  | n + 1 => do
    let v ← bits width
    return v :: (← numbers width n)

/-- The codes that a block gives: one for literals and lengths, one for distances. -/
def codes : Inflater (PrefixCode × PrefixCode) := do
  let literals := (← bits 5) + 257
  let distances := (← bits 5) + 1
  let given := (← bits 4) + 4
  if 286 < literals ∨ 30 < distances then throw .corrupt
  let lengths := metaOrder.zip (← numbers 3 given)
  let code := PrefixCode.ofLengths ((List.range 19).map fun s => (lengths.lookup s).getD 0)
  if !code.isComplete then throw .corrupt
  let ls ← wordLengths code ((← get).source.size + 2) (literals + distances) []
  let literalCode := PrefixCode.ofLengths (ls.take literals)
  let distanceCode := PrefixCode.ofLengths (ls.drop literals)
  if !(literalCode.isUsable && distanceCode.isUsable) then throw .corrupt
  return (literalCode, distanceCode)

/-- A block that gives its own codes. -/
def dynamic (capacity : Nat) : Inflater Unit := do
  let (literals, distances) ← codes
  coded capacity literals distances

/-- A block of the given kind. -/
def block (capacity : Nat) : Nat → Inflater Unit
  | 0 => stored capacity
  | 1 => coded capacity fixedLiterals fixedDistances
  | 2 => dynamic capacity
  | _ => throw .corrupt

/-- Blocks up to the one marked as the last.  Each one takes three bits or more. -/
def blocks (capacity : Nat) : Nat → Inflater Unit
  | 0 => throw .corrupt
  | steps + 1 => do
    let last ← bits 1
    block capacity (← bits 2)
    if last = 1 then return ()
    else blocks capacity steps

/-- A whole stream of blocks. -/
def stream (capacity : Nat) : Inflater Unit := do
  blocks capacity ((← get).source.size + 1)

end Inflater

end Mdf.Deflate
