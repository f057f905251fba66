/-!
# Little-endian numbers

`encode n v` is the `n`-byte form of `v`, least byte first; `decode` reads any bytes as a number.
Main statements: `decode_encode` (the number modulo `1 <<< (8 * n)`) and `encode_decode` (the bytes).
-/

namespace Mdf.LittleEndian

/-- The `n` low bytes of `v`, least first. -/
def encode : Nat → Nat → List UInt8
  | 0, _ => []
  | n + 1, v => UInt8.ofNat v :: encode n (v / 256)

/-- The number whose bytes, least first, are given. -/
def decode : List UInt8 → Nat
  | [] => 0
  | b :: bs => b.toNat + 256 * decode bs

@[simp] theorem length_encode (n v : Nat) : (encode n v).length = n := by
  induction n generalizing v with
  | zero => rfl
  | succ n ih => simp [encode, ih]

theorem decode_lt (bs : List UInt8) : decode bs < 1 <<< (8 * bs.length) := by
  induction bs with
  | nil => simp [decode]
  | cons b bs ih =>
    have hb := b.toNat_lt
    simp only [decode, List.length_cons, Nat.mul_succ, Nat.shiftLeft_add]
    omega

theorem decode_encode (n v : Nat) : decode (encode n v) = v % 1 <<< (8 * n) := by
  induction n generalizing v with
  | zero => simp [encode, decode, Nat.mod_one]
  | succ n ih =>
    have h : (UInt8.ofNat v).toNat = v % 256 := by simp [UInt8.toNat_ofNat']
    have hs : 1 <<< (8 * (n + 1)) = 256 * 1 <<< (8 * n) := by
      rw [Nat.mul_succ, Nat.shiftLeft_add]
      omega
    rw [encode, decode, ih, h, hs, Nat.mod_mul]

theorem decode_encode_of_lt {n v : Nat} (h : v < 1 <<< (8 * n)) : decode (encode n v) = v := by
  rw [decode_encode, Nat.mod_eq_of_lt h]

theorem encode_decode (bs : List UInt8) : encode bs.length (decode bs) = bs := by
  induction bs with
  | nil => rfl
  | cons b bs ih =>
    have hb := b.toNat_lt
    have hd : (b.toNat + 256 * decode bs) / 256 = decode bs := by omega
    have hm : UInt8.ofNat (b.toNat + 256 * decode bs) = b := by
      apply UInt8.toNat_inj.mp
      rw [UInt8.toNat_ofNat']
      omega
    simp only [List.length_cons, decode, encode, hd, hm, ih]

/-- The two bytes of a 16-bit number. -/
def uint16 (v : UInt16) : List UInt8 := encode 2 v.toNat

/-- The four bytes of a 32-bit number. -/
def uint32 (v : UInt32) : List UInt8 := encode 4 v.toNat

/-- The eight bytes of a 64-bit number. -/
def uint64 (v : UInt64) : List UInt8 := encode 8 v.toNat

/-- The two bytes of a signed 16-bit number, in two's complement. -/
def int16 (v : Int16) : List UInt8 := uint16 v.toUInt16

@[simp] theorem length_uint16 (v : UInt16) : (uint16 v).length = 2 := length_encode ..
@[simp] theorem length_uint32 (v : UInt32) : (uint32 v).length = 4 := length_encode ..
@[simp] theorem length_uint64 (v : UInt64) : (uint64 v).length = 8 := length_encode ..
@[simp] theorem length_int16 (v : Int16) : (int16 v).length = 2 := length_encode ..

theorem length_flatMap_uint64 (vs : List UInt64) : (vs.flatMap uint64).length = 8 * vs.length := by
  induction vs with
  | nil => rfl
  | cons v vs ih =>
    simp only [List.flatMap_cons, List.length_append, ih, length_uint64, List.length_cons]
    omega

@[simp] theorem ofNat_decode_uint16 (v : UInt16) : UInt16.ofNat (decode (uint16 v)) = v := by
  rw [uint16, decode_encode_of_lt v.toNat_lt, UInt16.ofNat_toNat]

@[simp] theorem ofNat_decode_uint32 (v : UInt32) : UInt32.ofNat (decode (uint32 v)) = v := by
  rw [uint32, decode_encode_of_lt v.toNat_lt, UInt32.ofNat_toNat]

@[simp] theorem ofNat_decode_uint64 (v : UInt64) : UInt64.ofNat (decode (uint64 v)) = v := by
  rw [uint64, decode_encode_of_lt v.toNat_lt, UInt64.ofNat_toNat]

end Mdf.LittleEndian
