import Mdf.Proofs.Block.Sequence

/-!
# Blocks that fill a file

`Block.Tiles file o ts`: from the offset `o` on, the file consists of the blocks `ts` and of nothing
else.  Each block begins where the length in the head of the block before it ends, rounded up to a
multiple of eight, the bytes between the two are zero, and the last block ends with the file.

`Block.placed n bs` are the blocks of a sequence with their offsets.  A file that ends at a multiple
of eight is tiled by its sequence (`tiles_placed`).
-/

namespace Mdf

namespace Buffer

lemma alignUp_add {m n : Nat} (h : m % 8 = 0) : alignUp (m + n) = m + alignUp n := by
  unfold alignUp
  omega

lemma getElem?_zeros {i n : Nat} (h : i < n) : (zeros n)[i]? = some 0 := by
  rw [zeros, List.getElem?_replicate, if_pos h]

end Buffer

namespace Block

/-- A block, and the offset at which it stands. -/
structure Tile where
  offset : Nat
  block : Block
deriving DecidableEq, Repr

namespace Tile

def id (t : Tile) : BlockId := t.block.id

/-- The offsets to which the links of the block lead. -/
def links (t : Tile) : List Nat := t.block.links.map UInt64.toNat

end Tile

/-- The length that the head of the block at an offset states. -/
def lengthAt (file : List UInt8) (offset : Nat) : Nat :=
  LittleEndian.decode ((file.drop (offset + 8)).take 8)

/-- The blocks are all that stands in a file from an offset on. -/
inductive Tiles (file : List UInt8) : Nat → List Tile → Prop
  | nil : Tiles file file.length []
  | cons {o : Nat} {b : Block} {ts : List Tile} (hat : At file o b)
      (hzero : ∀ i, o + lengthAt file o ≤ i → i < o + Buffer.alignUp (lengthAt file o) →
        file[i]? = some 0)
      (hrest : Tiles file (o + Buffer.alignUp (lengthAt file o)) ts) : Tiles file o (⟨o, b⟩ :: ts)

/-- The blocks are a chain: a link leads to the first one, the first link of each to the one that
follows, and that of the last one to none. -/
def Leads (link : Nat) : List Tile → Prop
  | [] => link = 0
  | t :: ts => link = t.offset ∧ Leads (t.links.headD 0) ts

/-- The blocks of a sequence behind `n` bytes, where they stand. -/
def placed (n : Nat) : List Block → List Tile
  | [] => []
  | b :: bs => ⟨Buffer.alignUp n, b⟩ :: placed (Buffer.alignUp n + b.bytes.length) bs

variable {n o : Nat} {l r : List Block} {b : Block} {u file : List UInt8}

/-! ### Heads -/

/-- The head of a block states its length. -/
lemma lengthAt_eq (h : At file o b) : lengthAt file o = b.size := by
  obtain ⟨pre, post, rfl, rfl⟩ := h.split
  have hsize : b.size < 1 <<< 64 := by
    have := h.size_lt
    simp only [Buffer.limit] at this
    omega
  have hmark : (b.id.bytes ++ Buffer.zeros 4).length = 8 := by
    rw [List.length_append, h.length_id, Buffer.length_zeros]
  obtain ⟨rest, hrest⟩ : ∃ rest, pre ++ b.bytes ++ post = pre ++ (b.id.bytes ++ Buffer.zeros 4) ++
      (LittleEndian.uint64 (UInt64.ofNat b.size) ++ rest) := by
    refine ⟨LittleEndian.uint64 (UInt64.ofNat b.links.length) ++
      (b.links.flatMap LittleEndian.uint64 ++ (b.data ++ post)), ?_⟩
    rw [bytes_eq, front]
    simp only [List.append_assoc]
  have hdrop : (pre ++ b.bytes ++ post).drop (pre.length + 8) =
      LittleEndian.uint64 (UInt64.ofNat b.size) ++ rest := by
    rw [hrest, ← hmark, ← List.length_append, List.drop_left]
  have htake : (LittleEndian.uint64 (UInt64.ofNat b.size) ++ rest).take 8 =
      LittleEndian.uint64 (UInt64.ofNat b.size) := by
    rw [← LittleEndian.length_uint64 (UInt64.ofNat b.size), List.take_left]
  have hnat : (UInt64.ofNat b.size).toNat = b.size := UInt64.toNat_ofNat_of_lt' hsize
  rw [lengthAt, hdrop, htake, LittleEndian.uint64, hnat, LittleEndian.decode_encode_of_lt hsize]

/-! ### Placed blocks -/

@[simp] lemma map_block_placed (n : Nat) (bs : List Block) : (placed n bs).map Tile.block = bs := by
  induction bs generalizing n with
  | nil => rfl
  | cons b bs ih => rw [placed, List.map_cons, ih]

lemma end_sequence_append_singleton (n : Nat) (l : List Block) (b : Block) :
    n + (sequence n (l ++ [b])).length = after n l + b.bytes.length := by
  rw [sequence_append_cons, sequence, List.append_nil, List.length_append, ← Nat.add_assoc,
    length_lead]

lemma placed_append_singleton (n : Nat) (l : List Block) (b : Block) :
    placed n (l ++ [b]) = placed n l ++ [⟨after n l, b⟩] := by
  induction l generalizing n with
  | nil => rfl
  | cons c l ih => rw [List.cons_append, placed, ih, placed, List.cons_append, after_cons]

/-- A placed block follows the blocks before it. -/
lemma exists_of_mem_placed {bs : List Block} {t : Tile} (ht : t ∈ placed n bs) :
    ∃ l r, bs = l ++ t.block :: r ∧ t.offset = after n l := by
  induction bs generalizing n with
  | nil => simp [placed] at ht
  | cons b bs ih =>
    rcases List.mem_cons.mp ht with rfl | ht
    · exact ⟨[], bs, rfl, rfl⟩
    · obtain ⟨l, r, rfl, ho⟩ := ih ht
      exact ⟨b :: l, r, rfl, by rw [ho, after_cons]⟩

lemma Holds.at_placed {bs : List Block} (h : Holds n bs file) (hn : 0 < n)
    (hid : ∀ b ∈ bs, b.id.bytes.length = 4) {t : Tile} (ht : t ∈ placed n bs) :
    At file t.offset t.block := by
  obtain ⟨l, r, rfl, ho⟩ := exists_of_mem_placed ht
  rw [ho]
  exact h.at hn (hid _ (by simp))

lemma le_of_mem_placed {bs : List Block} {t : Tile} (ht : t ∈ placed n bs) : n ≤ t.offset := by
  obtain ⟨l, r, -, ho⟩ := exists_of_mem_placed ht
  rw [ho, ← length_lead]
  exact Nat.le_add_right ..

/-- Placed blocks stand one behind the other. -/
lemma pairwise_placed (n : Nat) (bs : List Block) :
    (placed n bs).Pairwise fun t t' => t.offset < t'.offset := by
  induction bs generalizing n with
  | nil => exact .nil
  | cons b bs ih =>
    refine List.pairwise_cons.mpr ⟨fun t ht => ?_, ih _⟩
    have hle := le_of_mem_placed ht
    have hb : 20 ≤ b.bytes.length := by
      simp only [bytes, List.length_append, length_head]
      omega
    change Buffer.alignUp n < t.offset
    omega

/-- **A file that ends at a multiple of eight is tiled by its sequence of blocks**, behind zero
bytes up to the first one. -/
theorem tiles_placed {bs : List Block} (hid : ∀ b ∈ bs, b.id.bytes.length = 4) (hn : 0 < n)
    (hu : u.length = n) (hfile : file = u ++ sequence n bs) (hfits : file.length < Buffer.limit)
    (hend : file.length % 8 = 0) :
    (∀ i, n ≤ i → i < Buffer.alignUp n → file[i]? = some 0) ∧
      Tiles file (Buffer.alignUp n) (placed n bs) := by
  induction bs generalizing n u with
  | nil =>
    have hlen : n = file.length := by rw [hfile, sequence, List.append_nil, hu]
    rw [hlen, Buffer.alignUp_of_mod hend]
    exact ⟨fun i hle hlt => absurd hlt (Nat.not_lt.mpr hle), .nil⟩
  | cons b bs ih =>
    obtain ⟨hb, hbs⟩ := List.forall_mem_cons.mp hid
    have hle := Buffer.le_alignUp n
    have hholds : Holds n (b :: bs) file := ⟨hfits, u, [], hu, by rw [hfile, List.append_nil]⟩
    have hat : At file (Buffer.alignUp n) b := hholds.at_placed hn hid List.mem_cons_self
    have hsize : b.bytes.length = lengthAt file (Buffer.alignUp n) := by
      rw [lengthAt_eq hat, length_bytes hb]
    obtain ⟨hzero, hrest⟩ := ih hbs (n := Buffer.alignUp n + b.bytes.length)
      (u := u ++ (Buffer.zeros (Buffer.alignUp n - n) ++ b.bytes)) (by omega)
      (by simp only [List.length_append, Buffer.length_zeros]; omega)
      (by rw [hfile, sequence]; simp only [List.append_assoc])
    rw [Buffer.alignUp_add (Buffer.alignUp_mod n), hsize] at hzero hrest
    refine ⟨fun i hi hlt => ?_, ?_⟩
    · have hz : i - u.length < (Buffer.zeros (Buffer.alignUp n - n)).length := by
        rw [Buffer.length_zeros]
        omega
      rw [hfile, sequence, List.getElem?_append_right (by omega), List.append_assoc,
        List.getElem?_append_left hz, Buffer.getElem?_zeros (by omega)]
    · rw [placed, hsize]
      exact .cons hat hzero hrest

end Block

end Mdf
