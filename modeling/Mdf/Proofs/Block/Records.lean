import Mdf.Block.Records
import Mdf.Proofs.Block.Basic
import Mdf.Proofs.Storage

/-!
# Reading back records

Records are read back from their block in every storage mode, whatever compressor wrote it, if only
what it gives inflates to what it was given.
-/

namespace Mdf

open Decode Block

/-- What the compressor gives inflates to what it was given. -/
def Deflate.Compressor.Inverts (deflate : Deflate.Compressor) : Prop :=
  ∀ d z, d.length < Buffer.limit → deflate d = .ok z →
    Deflate.decompress z (UInt64.ofNat d.length) = .ok d

/-- Only the error of a compressor is reported anew. -/
@[simp] lemma Deflate.Compressor.container_eq_ok_iff {deflate : Deflate.Compressor}
    {d z : List UInt8} : deflate.container d = .ok z ↔ deflate d = .ok z := by
  unfold container
  cases deflate d <;> simp

namespace Records

variable {deflate : Deflate.Compressor} {mode : Storage} {size : UInt32} {records : List UInt8}
  {b : Block} {file : List UInt8} {o : Nat}

/-- Arranging keeps the number of bytes. -/
lemma arrange_ok (hw : records.length < Checked.wordBound) :
    ∃ d, arrange mode size records = .ok d ∧ d.length = records.length := by
  cases mode with
  | transposed => exact Storage.transpose_ok size.toNat hw
  | plain => exact ⟨records, rfl, rfl⟩
  | deflate => exact ⟨records, rfl, rfl⟩

/-- The two forms that a block of records has. -/
lemma block_cases (h : block deflate mode size records = .ok b) :
    b = ⟨.dt, [], records⟩ ∨
      ∃ zipType arranged packed, mode.zipType? = some zipType ∧
        arrange mode size records = .ok arranged ∧ deflate arranged = .ok packed ∧
        b = ⟨.dz, [], wrapping zipType (parameter mode size) records.length packed.length ++
          packed⟩ := by
  unfold block at h
  split at h
  · cases h
    exact .inl rfl
  · rename_i zipType hz
    obtain ⟨arranged, ha, h⟩ := bind_eq_ok_iff.mp h
    obtain ⟨packed, hp, h⟩ := bind_eq_ok_iff.mp h
    cases h
    rw [liftM_fault_eq_ok_iff] at ha
    rw [liftM_error_eq_ok_iff, Deflate.Compressor.container_eq_ok_iff] at hp
    exact .inr ⟨zipType, arranged, packed, hz, ha, hp, rfl⟩

/-- The id of the block of records in a storage mode. -/
def id (mode : Storage) : BlockId := if mode = .plain then .dt else .dz

lemma block_form (h : block deflate mode size records = .ok b) :
    b.id = id mode ∧ b.links = [] := by
  cases mode with
  | plain =>
    cases h
    exact ⟨rfl, rfl⟩
  | deflate =>
    obtain ⟨_, -, h⟩ := bind_eq_ok_iff.mp h
    obtain ⟨_, -, h⟩ := bind_eq_ok_iff.mp h
    cases h
    exact ⟨rfl, rfl⟩
  | transposed =>
    obtain ⟨_, -, h⟩ := bind_eq_ok_iff.mp h
    obtain ⟨_, -, h⟩ := bind_eq_ok_iff.mp h
    cases h
    exact ⟨rfl, rfl⟩

lemma length_id_block (h : block deflate mode size records = .ok b) : b.id.bytes.length = 4 := by
  rcases block_cases h with rfl | ⟨_, _, _, _, _, _, rfl⟩
  · exact BlockId.length_bytes (by simp)
  · exact BlockId.length_bytes (by simp)

lemma ofZipType_of_zipType? {zipType : UInt8} (h : mode.zipType? = some zipType) :
    Storage.ofZipType zipType = .ok mode := by
  cases mode <;> cases h <;> rfl

lemma restore_arrange {d : List UInt8} (hw : records.length < Checked.wordBound)
    (h : arrange mode size records = .ok d) : restore mode (parameter mode size) d = .ok records := by
  cases mode with
  | transposed => exact Storage.untranspose_transpose hw h
  | plain => exact (show Except.ok records = .ok d from h).symm
  | deflate => exact (show Except.ok records = .ok d from h).symm

lemma reads_unpack {zipType : UInt8} {arranged packed : List UInt8} (hi : deflate.Inverts)
    (hz : mode.zipType? = some zipType) (ha : arrange mode size records = .ok arranged)
    (hp : deflate arranged = .ok packed) (hn : records.length < Buffer.limit)
    (hl : packed.length < Checked.wordBound) {h : Header}
    (hd : h.dataLength = .ok (24 + packed.length)) :
    Reads (unpack h)
      (wrapping zipType (parameter mode size) records.length packed.length ++ packed) records := by
  have hlimit : Buffer.limit < Checked.wordBound := by decide
  have harrange : ∃ d, arrange mode size records = .ok d ∧ d.length = records.length :=
    arrange_ok (Nat.lt_trans hn hlimit)
  obtain ⟨d, hd', hlen⟩ := harrange
  cases hd'.symm.trans ha
  have hinflate : Deflate.decompress packed (UInt64.ofNat records.length) = .ok arranged :=
    hlen ▸ hi arranged packed (hlen ▸ hn) hp
  have hk : (UInt64.ofNat packed.length).toNat = packed.length :=
    UInt64.toNat_ofNat_of_lt' hl
  have hw : wrapping zipType (parameter mode size) records.length packed.length ++ packed =
      wrappedId ++ ([zipType] ++ ([0] ++ (LittleEndian.uint32 (parameter mode size) ++
        (LittleEndian.uint64 (UInt64.ofNat records.length) ++
          (LittleEndian.uint64 (UInt64.ofNat packed.length) ++ (packed ++ [])))))) := by
    simp only [wrapping, List.append_assoc, List.append_nil, List.cons_append, List.nil_append]
  rw [hw]
  unfold unpack
  refine reads_bind_nil (reads_liftM (by rw [hd]; rfl)) ?_
  refine reads_bind_nil (reads_refuseIf (by omega)) ?_
  refine reads_bind (reads_take_of_length rfl) (reads_bind_nil (reads_refuseIf (by simp)) ?_)
  refine reads_bind (reads_uint8 _) ?_
  refine reads_bind_nil (reads_liftM (by rw [ofZipType_of_zipType? hz]; rfl)) ?_
  refine reads_bind (reads_skip rfl) (reads_bind (reads_uint32 _) (reads_bind (reads_uint64 _)
    (reads_bind (reads_uint64 _) (reads_size_bind fun n => ?_))))
  rw [hk]
  refine reads_bind_nil (reads_liftM (by rw [Checked.sub_of_le (by omega)]; rfl)) ?_
  refine reads_bind_nil (reads_refuseIf (by omega)) ?_
  refine reads_bind (reads_take packed) (reads_bind_nil (reads_liftM (by rw [hinflate]; rfl)) ?_)
  exact reads_liftM (by rw [restore_arrange (Nat.lt_trans hn hlimit) ha]; rfl)

/-- **Records are read back** in every storage mode. -/
theorem gives_read (hi : deflate.Inverts) (h : block deflate mode size records = .ok b)
    (hn : records.length < Buffer.limit) (hb : At file o b) :
    Gives file (read o) (.ok records) := by
  have ho : o ≠ 0 := by have := hb.pos; omega
  have hlimit : Buffer.limit < Checked.wordBound := by decide
  unfold read
  rw [if_neg ho]
  rcases block_cases h with rfl | ⟨zipType, arranged, packed, hz, ha, hp, rfl⟩
  · have hid : ([BlockId.dt, .dz, .dl, .hl]).find? (fun i => i.bytes == BlockId.dt.bytes) =
        some .dt := by decide
    refine hb.gives_bind (Header.run_readAny hb hid) (List.append_nil _).symm ?_
    rw [if_pos (show (Block.header ⟨.dt, [], records⟩).id = .dt from rfl)]
    exact reads_bind_nil (reads_liftM (by rw [hb.dataLength]; rfl)) (reads_take _)
  · have hid : ([BlockId.dt, .dz, .dl, .hl]).find? (fun i => i.bytes == BlockId.dz.bytes) =
        some .dz := by decide
    have hsize := hb.size_lt
    have hdata := hb.dataLength
    simp only [Block.size, List.length_append, wrapping, List.length_cons, List.length_nil,
      LittleEndian.length_uint32, LittleEndian.length_uint64, wrappedId] at hsize hdata
    refine hb.gives_bind (Header.run_readAny hb hid) (List.append_nil _).symm ?_
    rw [if_neg (show ¬(Block.header ⟨.dz, [], _⟩).id = .dt from
      show ¬BlockId.dz = .dt by decide), if_pos (show (Block.header ⟨.dz, [], _⟩).id = .dz from rfl)]
    exact reads_unpack hi hz ha hp hn (by omega) hdata

end Records

end Mdf
