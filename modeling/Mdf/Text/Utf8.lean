/-!
# UTF-8

`encode` is the byte form of a text.  `decodeLossy` reads any bytes: what is UTF-8 becomes its
characters, and each maximal part that is not becomes one U+FFFD.  The reader is a machine that
holds at most one character begun (`Begun`): the continuation bytes owed, the range the next one
must lie in, and the value so far.
-/

namespace Mdf.Utf8

/-- The bytes of a text. -/
def encode (s : String) : List UInt8 :=
  s.toList.flatMap String.utf8EncodeChar

/-- What stands for a part that is not UTF-8. -/
def replacement : Char := '\uFFFD'

/-- A character of several bytes of which the first ones have been read. -/
structure Begun where
  /-- Continuation bytes still owed. -/
  owed : Nat
  /-- The least value of the next byte. -/
  low : Nat
  /-- The greatest value of the next byte. -/
  high : Nat
  /-- The bits read so far. -/
  value : Nat
deriving DecidableEq, Repr

/-- A byte read between characters: the characters it completes, and the character it begins. -/
def start (b : UInt8) : List Char × Option Begun :=
  let n := b.toNat
  if n ≤ 0x7F then ([Char.ofNat n], none)
  else if 0xC2 ≤ n ∧ n ≤ 0xDF then ([], some ⟨1, 0x80, 0xBF, n - 0xC0⟩)
  else if n = 0xE0 then ([], some ⟨2, 0xA0, 0xBF, 0⟩)
  else if n = 0xED then ([], some ⟨2, 0x80, 0x9F, 0xD⟩)
  else if 0xE1 ≤ n ∧ n ≤ 0xEF then ([], some ⟨2, 0x80, 0xBF, n - 0xE0⟩)
  else if n = 0xF0 then ([], some ⟨3, 0x90, 0xBF, 0⟩)
  else if 0xF1 ≤ n ∧ n ≤ 0xF3 then ([], some ⟨3, 0x80, 0xBF, n - 0xF0⟩)
  else if n = 0xF4 then ([], some ⟨3, 0x80, 0x8F, 4⟩)
  else ([replacement], none)

/-- One byte.  A byte that cannot continue the character begun ends it as a replacement and is read
again between characters. -/
def step : Option Begun → UInt8 → List Char × Option Begun
  | none, b => start b
  | some g, b =>
    let n := b.toNat
    if g.low ≤ n ∧ n ≤ g.high then
      let v := 64 * g.value + n % 64
      if g.owed ≤ 1 then ([Char.ofNat v], none)
      else ([], some ⟨g.owed - 1, 0x80, 0xBF, v⟩)
    else
      let (cs, g') := start b
      (replacement :: cs, g')

/-- The characters of the bytes that follow a state of the machine. -/
def run : Option Begun → List UInt8 → List Char
  | none, [] => []
  | some _, [] => [replacement]
  | g, b :: bs => (step g b).1 ++ run (step g b).2 bs

/-- The text of any bytes, with U+FFFD for each maximal part that is not UTF-8. -/
def decodeLossy (bs : List UInt8) : String :=
  String.ofList (run none bs)

@[simp] theorem encode_append (s t : String) : encode (s ++ t) = encode s ++ encode t := by
  simp [encode]

example : decodeLossy [0x61, 0xC3, 0xA4, 0xE2, 0x82, 0x41] = "aä\uFFFDA" := by decide

end Mdf.Utf8
