import Mdf.Deflate.Decoder
import Mdf.Proofs.Deflate.Format
import Mdf.Proofs.Result

/-!
# Decoders that inflate

What is asked of a decoder at a stream (`Inflates`): it gives the output step by step, and comes to
an end only behind a whole stream of the format.  It need not look further than it is asked to, so a
defect shows only where the decoder reaches it.

Restoring a declared number of bytes asks for one more.  Then either the decoder came to an end, or
there is a byte too many (`stream_of_readToEnd`), and of a stream as much is read as the limit lets
(`readToEnd_of_stream`).
-/

namespace Mdf.Deflate

namespace Decoder

variable {decoder : Decoder} {room : Room} {z d out rest bytes : List UInt8} {limit n : Nat}
  {s : decoder.State} {declared : UInt64}

/-- From the start of a stream, reads lead to the state, and they gave the bytes. -/
inductive Delivers (decoder : Decoder) (z : List UInt8) : decoder.State → List UInt8 → Prop
  | start : Delivers decoder z (decoder.start z) []
  | read {s s' : decoder.State} {d bytes : List UInt8} {n : Nat} (h : Delivers decoder z s d)
      (hn : 0 < n) (hread : decoder.read s n = .ok (bytes, s')) : Delivers decoder z s' (d ++ bytes)

/-- The decoder inflates what the bytes start with. -/
structure Inflates (decoder : Decoder) (z : List UInt8) : Prop where
  /-- A read gives no more than it is asked for. -/
  bounded : ∀ {s s' d n bytes}, Delivers decoder z s d → decoder.read s n = .ok (bytes, s') →
    bytes.length ≤ n
  /-- Of a stream each read gives some more of the output, or nothing behind all of it. -/
  gives : ∀ {out s d n}, Stream z out → Delivers decoder z s d → 0 < n →
    ∃ bytes s', decoder.read s n = .ok (bytes, s') ∧ d ++ bytes <+: out ∧ (bytes = [] → d = out)
  /-- A read gives nothing only behind the whole output of a stream. -/
  ends : ∀ {s s' d n}, Delivers decoder z s d → 0 < n → decoder.read s n = .ok ([], s') →
    Stream z d

/-! ### Reading up to a limit -/

lemma room_pos (room : Room) {count : Nat} (h : ¬limit ≤ count) :
    0 < min (room count : Nat) (limit - count) := by
  have := (room count).property
  omega

lemma readToEnd_of_le (h : limit ≤ n) : decoder.readToEnd room limit n s = .ok [] := by
  rw [readToEnd, if_pos h]
  rfl

/-- What a read gives stands in front of what the reads behind it give. -/
lemma readToEnd_of_read {s' : decoder.State} (hlt : ¬limit ≤ n) (hne : bytes ≠ [])
    (hread : decoder.read s (min (room n) (limit - n)) = .ok (bytes, s')) :
    decoder.readToEnd room limit n s =
      if Buffer.limit ≤ n + bytes.length then .error .outOfMemory
      else decoder.readToEnd room limit (n + bytes.length) s' >>= fun rest =>
        .ok (bytes ++ rest) := by
  obtain ⟨b, bytes, rfl⟩ := List.exists_cons_of_ne_nil hne
  rw [readToEnd, if_neg hlt, hread]
  rfl

lemma readToEnd_of_end {s' : decoder.State} (hlt : ¬limit ≤ n)
    (hread : decoder.read s (min (room n) (limit - n)) = .ok ([], s')) :
    decoder.readToEnd room limit n s = .ok [] := by
  rw [readToEnd, if_neg hlt, hread]
  rfl

/-- Of a stream as much is read as the limit lets, unless memory is exhausted before. -/
lemma readToEnd_of_stream (h : decoder.Inflates z) (hz : Stream z out)
    (hs : decoder.Delivers z s d) (hd : d <+: out) (hmemory : d.length < Buffer.limit)
    (hle : d.length ≤ limit) :
    decoder.readToEnd room limit d.length s =
      if Buffer.limit ≤ min out.length limit then .error .outOfMemory
      else .ok ((out.take limit).drop d.length) := by
  -- each read that gives something leaves less up to the limit
  induction hleft : limit - d.length using Nat.strong_induction_on generalizing d s with
  | _ left ih =>
    have hlength := hd.length_le
    have htaken : (out.take limit).length ≤ out.length ∧ (out.take limit).length ≤ limit := by
      rw [List.length_take]
      omega
    by_cases hlt : limit ≤ d.length
    · rw [readToEnd_of_le hlt, if_neg (by omega), List.drop_eq_nil_of_le (by omega)]
    obtain ⟨bytes, s', hread, hprefix, hend⟩ := h.gives hz hs (room_pos room hlt)
    have hbound := h.bounded hs hread
    have hlength' : (d ++ bytes).length = d.length + bytes.length := List.length_append
    have hmore := hprefix.length_le
    by_cases hne : bytes = []
    · rw [hne] at hread
      have hall := congrArg List.length (hend hne)
      rw [readToEnd_of_end hlt hread, if_neg (by omega), List.drop_eq_nil_of_le (by omega)]
    · have hpos := List.length_pos_iff.mpr hne
      rw [readToEnd_of_read hlt hne hread]
      by_cases hfull : Buffer.limit ≤ d.length + bytes.length
      · rw [if_pos hfull, if_pos (by omega)]
      · have hrest := ih _ (by omega) (hs.read (room_pos room hlt) hread) hprefix (by omega)
          (by omega) rfl
        rw [hlength'] at hrest
        rw [if_neg hfull, hrest]
        split
        · rfl
        · obtain ⟨more, rfl⟩ := hprefix
          have htake : (d ++ bytes ++ more).take limit =
              d ++ (bytes ++ more.take (limit - (d ++ bytes).length)) := by
            rw [List.take_append, List.take_of_length_le (by omega), List.append_assoc]
          rw [ok_bind, htake, List.drop_left, ← hlength', ← List.append_assoc, List.drop_left]

/-- What comes first where reading succeeds: the limit, the end of the stream, or some bytes that
fit the memory. -/
lemma readToEnd_cases (h : decoder.readToEnd room limit n s = .ok rest) :
    limit ≤ n ∧ rest = [] ∨ ¬limit ≤ n ∧ ∃ bytes s',
      decoder.read s (min (room n) (limit - n)) = .ok (bytes, s') ∧
        (bytes = [] ∧ rest = [] ∨ bytes ≠ [] ∧ n + bytes.length < Buffer.limit ∧
          ∃ more, decoder.readToEnd room limit (n + bytes.length) s' = .ok more ∧
            rest = bytes ++ more) := by
  by_cases hlt : limit ≤ n
  · rw [readToEnd_of_le hlt] at h
    cases h
    exact .inl ⟨hlt, rfl⟩
  cases hread : decoder.read s (min (room n) (limit - n)) with
  | error e =>
    rw [readToEnd, if_neg hlt, hread] at h
    cases h
  | ok r =>
    obtain ⟨bytes, s'⟩ := r
    refine .inr ⟨hlt, bytes, s', rfl, ?_⟩
    by_cases hne : bytes = []
    · rw [hne] at hread
      rw [readToEnd_of_end hlt hread] at h
      cases h
      exact .inl ⟨hne, rfl⟩
    · rw [readToEnd_of_read hlt hne hread] at h
      split at h
      · cases h
      · rename_i hmemory
        obtain ⟨more, hmore, h⟩ := bind_eq_ok_iff.mp h
        cases h
        exact .inr ⟨hne, Nat.not_le.mp hmemory, more, hmore, rfl⟩

/-- What is read up to the limit is the whole output of a stream, or reaches the limit. -/
lemma stream_of_readToEnd (h : decoder.Inflates z) (hs : decoder.Delivers z s d)
    (hread : decoder.readToEnd room limit d.length s = .ok rest) :
    Stream z (d ++ rest) ∨ limit ≤ (d ++ rest).length := by
  induction hleft : limit - d.length using Nat.strong_induction_on generalizing d s rest with
  | _ left ih =>
    obtain ⟨hle, rfl⟩ | ⟨hlt, bytes, s', hstep, hstop | ⟨hne, -, more, hmore, rfl⟩⟩ :=
      readToEnd_cases hread
    · rw [List.append_nil]
      exact .inr hle
    · obtain ⟨rfl, rfl⟩ := hstop
      rw [List.append_nil]
      exact .inl (h.ends hs (room_pos room hlt) hstep)
    · have hpos := List.length_pos_iff.mpr hne
      have hlength : (d ++ bytes).length = d.length + bytes.length := List.length_append
      rw [← hlength] at hmore
      rw [← List.append_assoc]
      exact ih _ (by omega) (hs.read (room_pos room hlt) hstep) hmore rfl

/-- What was read fits the memory. -/
lemma length_of_readToEnd (hmemory : n < Buffer.limit)
    (hread : decoder.readToEnd room limit n s = .ok rest) : n + rest.length < Buffer.limit := by
  induction hleft : limit - n using Nat.strong_induction_on generalizing n s rest with
  | _ left ih =>
    obtain ⟨-, rfl⟩ | ⟨hlt, bytes, s', -, ⟨-, rfl⟩ | ⟨hne, hfits, more, hmore, rfl⟩⟩ :=
      readToEnd_cases hread
    · exact hmemory
    · exact hmemory
    · have hpos := List.length_pos_iff.mpr hne
      have hrest := ih _ (by omega) hfits hmore rfl
      rw [List.length_append]
      omega

/-! ### Restoring a declared number of bytes -/

lemma toNat_saturatingAdd (a b : UInt64) :
    (saturatingAdd a b).toNat = min (a.toNat + b.toNat) (UInt64.size - 1) := by
  have hsize : UInt64.size = 2 ^ 64 := rfl
  exact UInt64.toNat_ofNat_of_lt' (by omega)

/-- Behind the declared bytes there is one more to ask for, if memory holds these. -/
lemma toNat_limit (h : declared.toNat < Buffer.limit) :
    (saturatingAdd declared 1).toNat = declared.toNat + 1 := by
  have hmemory : Buffer.limit = 2 ^ 60 := rfl
  have hsize : UInt64.size = 2 ^ 64 := rfl
  have hone : (1 : UInt64).toNat = 1 := rfl
  rw [toNat_saturatingAdd]
  omega

/-- Where bytes are restored there are as many as declared, and they fit the memory. -/
lemma length_of_decompress (h : decoder.decompress room z declared = .ok out) :
    decoder.readToEnd room (saturatingAdd declared 1).toNat 0 (decoder.start z) = .ok out ∧
      out.length = declared.toNat ∧ out.length < Buffer.limit := by
  unfold decompress at h
  split at h
  · rename_i d hread
    split at h
    · rename_i hdeclared
      cases h
      have hmemory := length_of_readToEnd (by decide) hread
      rw [Nat.zero_add] at hmemory
      have hsize : Buffer.limit < UInt64.size := by decide
      refine ⟨hread, ?_, hmemory⟩
      rw [← hdeclared, UInt64.toNat_ofNat_of_lt' (by omega)]
    · cases h
  · cases h

/-- What restoring a declared number of bytes gives of a stream with the given output. -/
def restored (out : List UInt8) (declared : UInt64) : Except Error (List UInt8) :=
  let inflated := min out.length (saturatingAdd declared 1).toNat
  if Buffer.limit ≤ inflated then .error (.decompression .outOfMemory)
  else if out.length = declared.toNat then .ok out
  else .error (.decompression (.wrongLength inflated declared.toNat))

/-- **The output of a stream is restored under its own length**; under any other the error says how
much was inflated. -/
theorem decompress_of_stream (h : decoder.Inflates z) (hz : Stream z out) :
    decoder.decompress room z declared = restored out declared := by
  have hread : decoder.readToEnd room (saturatingAdd declared 1).toNat 0 _ = _ :=
    readToEnd_of_stream h hz .start List.nil_prefix (by decide) (Nat.zero_le _)
  have hmemory : Buffer.limit < UInt64.size := by decide
  have hdeclared := declared.toNat_lt_size
  have hlimit := toNat_saturatingAdd declared 1
  have hone : (1 : UInt64).toNat = 1 := rfl
  unfold decompress restored
  rw [hread]
  dsimp only
  generalize (saturatingAdd declared 1).toNat = limit at hlimit ⊢
  by_cases hfull : Buffer.limit ≤ min out.length limit
  · rw [if_pos hfull, if_pos hfull]
  rw [if_neg hfull, if_neg hfull]
  dsimp only
  have htaken : ((out.take limit).drop ([] : List UInt8).length).length = min out.length limit := by
    rw [List.length_nil, List.drop_zero, List.length_take, Nat.min_comm]
  have hsame : UInt64.ofNat (min out.length limit) = declared ↔ out.length = declared.toNat := by
    rw [← UInt64.toNat_inj, UInt64.toNat_ofNat_of_lt' (by omega)]
    omega
  rw [htaken]
  by_cases hlength : out.length = declared.toNat
  · rw [if_pos (hsame.mpr hlength), if_pos hlength, List.length_nil, List.drop_zero,
      List.take_of_length_le (by omega)]
  · rw [if_neg (mt hsame.mp hlength), if_neg hlength]

/-- **What is restored is the whole output of a stream**, and of the declared length. -/
theorem decompress_eq_ok_iff (h : decoder.Inflates z) :
    decoder.decompress room z declared = .ok out ↔
      Stream z out ∧ out.length = declared.toNat ∧ out.length < Buffer.limit := by
  constructor
  · intro hout
    obtain ⟨hread, hlength, hmemory⟩ := length_of_decompress hout
    have hlimit : (saturatingAdd declared 1).toNat = _ := toNat_limit (by omega)
    obtain hz | hreached := stream_of_readToEnd h .start hread
    · exact ⟨hz, hlength, hmemory⟩
    · -- a byte behind the declared ones was read
      rw [List.nil_append] at hreached
      omega
  · rintro ⟨hz, hlength, hmemory⟩
    have hlimit : (saturatingAdd declared 1).toNat = _ := toNat_limit (by omega)
    rw [decompress_of_stream h hz, restored, if_neg (by omega), if_pos hlength]

end Decoder

end Mdf.Deflate
