import Mdf.Proofs.Block.Sequence

/-!
# Room for blocks

`Block.extent n sizes` is where blocks of these sizes end that stand behind `n` bytes.  A writer
`Appends` blocks of these sizes if, on every buffer of `n` bytes, it succeeds and makes the buffer
as long as that where memory holds the blocks, and ends for want of memory where it does not.  The
steps of a writer depend on lengths alone: a block is written if there is room for it, and a link is
set if it stands before the end.
-/

namespace Mdf

/-- The failure says that memory does not hold a number of bytes. -/
def Failure.Exhausted (f : Failure) : Prop :=
  ∃ n, Buffer.limit ≤ n ∧ (f = .fault (.capacity n) ∨ f = .fault (.overflow n))

lemma Buffer.allocate_eq_error {bytes : List UInt8} (h : limit ≤ bytes.length) :
    allocate bytes = .error (.capacity bytes.length) :=
  if_neg (Nat.not_lt.mpr h)

namespace Block

/-- Where blocks of the given sizes end that stand behind `n` bytes, each at the next multiple of
eight. -/
def extent (n : Nat) : List Nat → Nat
  | [] => n
  | k :: ks => extent (Buffer.alignUp n + k) ks

lemma extent_singleton (n k : Nat) : extent n [k] = Buffer.alignUp n + k := rfl

lemma extent_append (n : Nat) (ks js : List Nat) :
    extent n (ks ++ js) = extent (extent n ks) js := by
  induction ks generalizing n with
  | nil => rfl
  | cons k ks ih => exact ih _

lemma le_extent (n : Nat) (ks : List Nat) : n ≤ extent n ks := by
  induction ks generalizing n with
  | nil => exact Nat.le_refl n
  | cons k ks ih =>
    have hle := Buffer.le_alignUp n
    have hrest := ih (Buffer.alignUp n + k)
    rw [extent]
    omega

lemma le_extent_of_mem (n : Nat) {ks : List Nat} {k : Nat} (h : k ∈ ks) : k ≤ extent n ks := by
  induction ks generalizing n with
  | nil => simp at h
  | cons j ks ih =>
    rcases List.mem_cons.mp h with rfl | h
    · exact Nat.le_trans (Nat.le_add_left ..) (le_extent ..)
    · exact ih _ h

end Block

open Block

namespace Encode

variable {α β : Type} {n : Nat} {ks js : List Nat} {Q : α → Prop} {R : β → Prop} {m : Encode α}
  {next : α → Encode β} {buffer : List UInt8}

lemma run_bind_of_ok {a : α} {between : List UInt8} (h : m.run buffer = .ok (a, between)) :
    (m >>= next).run buffer = (next a).run between := by
  rw [StateT.run_bind, h]
  rfl

lemma run_bind_of_error {f : Failure} (h : m.run buffer = .error f) :
    (m >>= next).run buffer = .error f := by
  rw [StateT.run_bind, h]
  rfl

/-! ### Writers -/

/-- On a buffer of `n` bytes the writer appends as many bytes as blocks of the given sizes have
there, and gives a value with the property, unless memory does not hold these blocks. -/
def Appends (n : Nat) (sizes : List Nat) (Q : α → Prop) (m : Encode α) : Prop :=
  ∀ buffer, buffer.length = n → n < Buffer.limit →
    (extent n sizes < Buffer.limit →
      ∃ a buffer', m.run buffer = .ok (a, buffer') ∧ buffer'.length = extent n sizes ∧ Q a) ∧
    (Buffer.limit ≤ extent n sizes → ∃ f, m.run buffer = .error f ∧ f.Exhausted)

/-- What appends nothing succeeds on every buffer that memory holds. -/
lemma appends_nil (h : ∀ buffer, buffer.length = n → n < Buffer.limit →
    ∃ a buffer', m.run buffer = .ok (a, buffer') ∧ buffer'.length = n ∧ Q a) : Appends n [] Q m :=
  fun buffer hbuffer hn =>
    ⟨fun _ => h buffer hbuffer hn, fun hlimit => absurd hn (Nat.not_lt.mpr hlimit)⟩

lemma appends_pure {a : α} (h : Q a) : Appends n [] Q (pure a) :=
  appends_nil fun buffer hbuffer _ => ⟨a, buffer, rfl, hbuffer, h⟩

lemma appends_liftM {x : Except Failure α} {a : α} (h : x = .ok a) :
    Appends n [] (· = a) (liftM x : Encode α) := by
  subst h
  exact appends_nil fun buffer hbuffer _ => ⟨a, buffer, rfl, hbuffer, rfl⟩

/-- What ends for want of memory anyway may be taken to append more than memory holds. -/
lemma appends_liftM_error {x : Except Failure α} (h : ∃ f, x = .error f ∧ f.Exhausted) :
    Appends n [Buffer.limit] (fun _ => False) (liftM x : Encode α) := by
  obtain ⟨f, rfl, he⟩ := h
  exact fun buffer _ _ => ⟨fun hlimit => by rw [extent_singleton] at hlimit; omega,
    fun _ => ⟨f, rfl, he⟩⟩

lemma appends_bind (h : Appends n ks Q m) (hn : ∀ a, Q a → Appends (extent n ks) js R (next a)) :
    Appends n (ks ++ js) R (m >>= next) := by
  intro buffer hbuffer hlimit
  obtain ⟨hok, hfail⟩ := h buffer hbuffer hlimit
  rw [extent_append]
  by_cases hks : extent n ks < Buffer.limit
  · obtain ⟨a, between, hm, hbetween, ha⟩ := hok hks
    rw [run_bind_of_ok hm]
    exact hn a ha between hbetween hks
  · have hle := le_extent (extent n ks) js
    obtain ⟨f, hf, he⟩ := hfail (Nat.not_lt.mp hks)
    exact ⟨fun hjs => by omega, fun _ => ⟨f, run_bind_of_error hf, he⟩⟩

lemma appends_bind_nil (h : Appends n [] Q m) (hn : ∀ a, Q a → Appends n js R (next a)) :
    Appends n js R (m >>= next) :=
  appends_bind h hn

lemma appends_bind_cons {k : Nat} (h : Appends n [k] Q m)
    (hn : ∀ a, Q a → Appends (extent n [k]) js R (next a)) : Appends n (k :: js) R (m >>= next) :=
  appends_bind h hn

lemma appends_bind_last (h : Appends n ks Q m)
    (hn : ∀ a, Q a → Appends (extent n ks) [] R (next a)) : Appends n ks R (m >>= next) := by
  have hb := appends_bind h hn
  rwa [List.append_nil] at hb

/-- What follows a step that gives nothing is not written. -/
lemma appends_bind_never (h : Appends n ks (fun _ => False) m) : Appends n ks R (m >>= next) :=
  appends_bind_last h fun _ ha => ha.elim

/-- The sizes count only by where the last block ends. -/
lemma Appends.congr (h : Appends n ks Q m) (hs : extent n ks = extent n js) : Appends n js Q m := by
  unfold Appends at h ⊢
  rwa [← hs]

lemma Appends.mono (h : Appends n ks Q m) {P : α → Prop} (hP : ∀ a, Q a → P a) :
    Appends n ks P m := by
  intro buffer hbuffer hlimit
  refine ⟨fun hks => ?_, (h buffer hbuffer hlimit).2⟩
  obtain ⟨a, buffer', hrun, hlength, ha⟩ := (h buffer hbuffer hlimit).1 hks
  exact ⟨a, buffer', hrun, hlength, hP a ha⟩

/-! ### Steps -/

/-- A step that replaces the buffer by another one. -/
lemma run_replace (f : List UInt8 → Except Fault (List UInt8)) (buffer : List UInt8) :
    (do let next ← f (← get); set next : Encode Unit).run buffer =
      (f buffer).mapError Failure.fault >>= fun next => .ok ((), next) := by
  have hrun : (do let next ← f (← get); set next : Encode Unit).run buffer =
      (liftM (f buffer) : Encode (List UInt8)).run buffer >>= fun p => .ok ((), p.1) := rfl
  rw [hrun]
  cases f buffer <;> rfl

lemma appends_allocate {g : List UInt8 → List UInt8}
    (hg : ∀ buffer, buffer.length = n → (g buffer).length = extent n ks) :
    Appends n ks (fun _ => True)
      (do let next ← Buffer.allocate (g (← get)); set next : Encode Unit) := by
  intro buffer hbuffer _
  have hlength := hg buffer hbuffer
  rw [run_replace fun buffer => Buffer.allocate (g buffer)]
  refine ⟨fun hlimit => ⟨(), g buffer, ?_, hlength, trivial⟩,
    fun hlimit => ⟨.fault (.capacity (g buffer).length), ?_, _, hlength ▸ hlimit, .inl rfl⟩⟩
  · rw [Buffer.allocate_eq_ok_iff.mpr ⟨rfl, hlength ▸ hlimit⟩]
    rfl
  · rw [Buffer.allocate_eq_error (hlength ▸ hlimit)]
    rfl

lemma appends_align : Appends n [0] (fun _ => True) align :=
  appends_allocate fun buffer hbuffer => by rw [Buffer.length_aligned, hbuffer]; rfl

lemma appends_bytes (hn : n % 8 = 0) (bs : List UInt8) :
    Appends n [bs.length] (fun _ => True) (bytes bs) :=
  appends_allocate fun buffer hbuffer => by
    rw [List.length_append, hbuffer, extent_singleton, Buffer.alignUp_of_mod hn]

lemma appends_position : Appends n [] (fun o => o.toNat = n) position := by
  refine appends_nil fun buffer hbuffer hn => ⟨_, buffer, rfl, hbuffer, ?_⟩
  unfold Buffer.limit at hn
  rw [hbuffer]
  exact UInt64.toNat_ofNat_of_lt' (by unfold UInt64.size; omega)

lemma appends_patch {offset : Nat} (h : offset + 8 ≤ n) (v : UInt64) :
    Appends n [] (fun _ => True) (patch offset v) := by
  refine appends_nil fun buffer hbuffer _ => ?_
  obtain ⟨buffer', hpatch⟩ : ∃ buffer', Buffer.patch buffer offset v = .ok buffer' :=
    ⟨_, if_pos (hbuffer ▸ h)⟩
  refine ⟨(), buffer', ?_, (Buffer.length_patch hpatch).trans hbuffer, trivial⟩
  rw [patch, run_replace fun buffer => Buffer.patch buffer offset v, hpatch]
  rfl

end Encode

open Encode

namespace Block

variable {n : Nat}

/-- **A block is written if there is room for it**, at the next multiple of eight. -/
lemma appends_write {b : Block} (hid : b.id.bytes.length = 4) :
    Appends n [b.size] (fun o => o.toNat = Buffer.alignUp n) b.write := by
  have hstart : extent n [0] = Buffer.alignUp n := rfl
  have hmod := Buffer.alignUp_mod n
  have hbytes := appends_bytes (hstart ▸ hmod) b.bytes
  have hwrite : Appends n ([0] ++ [b.bytes.length]) (fun o => o.toNat = Buffer.alignUp n) b.write :=
    appends_bind appends_align fun _ _ => appends_bind_nil appends_position fun o ho =>
      appends_bind_last hbytes fun _ _ => appends_pure ho
  refine hwrite.congr ?_
  rw [extent_append, hstart, extent_singleton, extent_singleton, length_bytes hid,
    Buffer.alignUp_of_mod hmod]

/-- A block that is appended to what a buffer holds stands at the next multiple of eight. -/
lemma at_append {buffer : List UInt8} {b : Block} (hbuffer : 0 < buffer.length) (hid : b.id.bytes.length = 4)
    (hfits : (append buffer b).length < Buffer.limit) :
    At (append buffer b) (Buffer.alignUp buffer.length) b := by
  have hle := Buffer.le_alignUp buffer.length
  exact ⟨by omega, hid, hfits, Buffer.aligned buffer, [], (List.append_nil _).symm,
    Buffer.length_aligned buffer⟩

/-- **A link is set if it stands before the end.** -/
lemma appends_patchLink {o : UInt64} {i : Nat} (h : linkPosition o.toNat i + 8 ≤ n)
    (target : UInt64) : Appends n [] (fun _ => True) (patchLink o i target) :=
  appends_patch h target

end Block

end Mdf
