import Mdf.Proofs.Block.Placing

/-!
# Placing texts and reading them back

`readsBack_text` is the main statement: a text of either kind is written behind what a buffer holds,
in a block whose data fill whole words and reach beyond the text, and it is read back up to its first
U+0000.  Since the data are longer than the text, a zero byte ends it even where the text fills whole
words itself.
-/

namespace Mdf.TextBlock

open Block Decode

variable {buffer : List UInt8} {id : BlockId}

/-- Reads the number of bytes that the text block at an offset has for its text. -/
def readLength (offset : Nat) : Decode Nat := do
  let h ← Header.readAny .tx [.md] offset
  (h.dataLength : Except Failure Nat)

lemma gives_readLength {file : List UInt8} {o : Nat} {text : String} (hid : id = .tx ∨ id = .md)
    (hb : At file o (block id text)) : Gives file (readLength o) (.ok (data text).length) := by
  have hlength : Reads (liftM (block id text).header.dataLength) [] (data text).length :=
    reads_liftM (by rw [hb.dataLength]; rfl)
  exact hb.gives_bind (run_readAny hid hb) (List.nil_append _).symm hlength

lemma persists_readLength (o : Nat) : Persists (readLength o) (readLength o) :=
  persists_bind (Header.persists_readAny _ _ o) fun _ => persists_liftM _

/-- The data of a text are longer than the text. -/
lemma utf8ByteSize_lt (text : String) : text.utf8ByteSize < (data text).length := by
  obtain ⟨n, hn⟩ := exists_data_eq text
  rw [hn, List.length_append, Utf8.length_encode, List.length_cons]
  omega

/-- **Texts are read back** from where they are written, up to their first U+0000 and whatever follows
them.  Their data fill whole words and end in a zero byte at least. -/
theorem readsBack_text (hid : id = .tx ∨ id = .md) (hbuffer : 0 < buffer.length) (text : String) :
    ReadsBack buffer (block id text) read (.ok (id, Utf8.beforeNul text)) ∧
    ReadsBack buffer (block id text) readLength (.ok (data text).length) ∧
    (data text).length % 8 = 0 ∧ text.utf8ByteSize < (data text).length ∧
    (∃ n, data text = Utf8.encode text ++ 0 :: Buffer.zeros n) ∧
    (Utf8.beforeNul text = text ↔ Utf8.NulFree text) := by
  have hlength : (block id text).id.bytes.length = 4 := by
    rcases hid with rfl | rfl <;> exact BlockId.length_bytes (by simp [block])
  refine ⟨?_, ?_, length_data_mod text, utf8ByteSize_lt text, exists_data_eq text,
    Utf8.beforeNul_eq_self_iff⟩
  · exact readsBack_of_at hbuffer hlength fun hat => (gives_read hid hat).append (persists_read _)
  · exact readsBack_of_at hbuffer hlength fun hat =>
      (gives_readLength hid hat).append (persists_readLength _)

/-- A text of sixteen bytes, which fill two words, and a text with U+0000 within. -/
theorem readsBack_text_words :
    (BlockId.md = .tx ∨ BlockId.md = .md) ∧ 0 < [(0xAA : UInt8)].length ∧
      (∃ o, (block .md "a 12-byte one \u00E4").write.run [0xAA] =
          .ok (o, append [0xAA] (block .md "a 12-byte one \u00E4")) ∧ o.toNat % 8 = 0 ∧
        ∀ more, Gives (append [0xAA] (block .md "a 12-byte one \u00E4") ++ more) (readLength o.toNat)
          (.ok 24)) ∧
      ∃ o, (block .md "cut\x00off").write.run [0xAA] =
          .ok (o, append [0xAA] (block .md "cut\x00off")) ∧ o.toNat % 8 = 0 ∧
        ∀ more, Gives (append [0xAA] (block .md "cut\x00off") ++ more) (read o.toNat)
          (.ok (.md, "cut")) := by
  have hid : BlockId.md = .tx ∨ BlockId.md = .md := .inr rfl
  have hbuffer : 0 < [(0xAA : UInt8)].length := by decide
  obtain ⟨-, hlength, -⟩ := readsBack_text hid hbuffer "a 12-byte one \u00E4"
  obtain ⟨hread, -⟩ := readsBack_text hid hbuffer "cut\x00off"
  have hsize : (data "a 12-byte one \u00E4").length = 24 := by decide +kernel
  have hcut : Utf8.beforeNul "cut\x00off" = "cut" := by decide
  rw [hsize] at hlength
  rw [hcut] at hread
  exact ⟨hid, hbuffer, hlength.of_fits (by decide +kernel), hread.of_fits (by decide +kernel)⟩

end Mdf.TextBlock
