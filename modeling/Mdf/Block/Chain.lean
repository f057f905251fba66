import Mdf.Bytes.Decode

/-!
# Chains of blocks

Blocks of one kind form a chain: each links to the next one, and a link of zero ends the chain.
`Chain.fold` reads a chain block by block.  A link that leads back to a block of the chain is an
error here; a link that leaves the input is one where the header of the block is read.
-/

namespace Mdf.Chain

variable {σ : Type}

/-- The number of offsets below `size` at which no block of the chain has been read.  The recursion is
on the visited offsets, so that the other ones, which may be as many as there are words, are never
listed. -/
def unread (size : Nat) : List Nat → Nat
  | [] => size
  | offset :: visited =>
    if offset < size ∧ offset ∉ visited then unread size visited - 1 else unread size visited

theorem countP_not_mem_eq {offset : Nat} {visited : List Nat} (hv : offset ∉ visited) (l : List Nat) :
    (l.countP fun i => i ∉ visited) = (l.countP fun i => i ∉ offset :: visited) + l.count offset := by
  induction l with
  | nil => rfl
  | cons i l ih =>
    simp only [List.countP_cons, List.count_cons, ih]
    by_cases hi : i = offset
    · simp [hi, hv]
      omega
    · simp [hi]
      omega

theorem unread_eq_countP (size : Nat) (visited : List Nat) :
    unread size visited = (List.range size).countP fun i => i ∉ visited := by
  induction visited with
  | nil => simp [unread]
  | cons offset visited ih =>
    rw [unread, ih]
    by_cases hv : offset ∈ visited
    · rw [if_neg fun h => h.2 hv]
      refine List.countP_congr fun i _ => ?_
      by_cases hi : i = offset
      · simp [hi, hv]
      · simp [hi]
    · rw [countP_not_mem_eq hv, List.count_range]
      by_cases hs : offset < size
      · simp [hs, hv]
      · simp [hs]

theorem unread_cons_lt {size offset : Nat} {visited : List Nat} (hs : offset < size)
    (hv : offset ∉ visited) : unread size (offset :: visited) < unread size visited := by
  have hpos : 0 < unread size visited := by
    rw [unread_eq_countP]
    exact List.countP_pos_iff.mpr ⟨offset, by simpa using hs, by simpa using hv⟩
  rw [unread, if_pos ⟨hs, hv⟩]
  omega

/-- Reads the rest of a chain from a link on, after the blocks at the visited offsets.  A step takes
the state and the offset of a block to the next state and the link to the next block.  Links are
words, so the walk ends in any case; that no link leaves the input is left to the step. -/
def foldFrom (step : σ → Nat → Decode (σ × UInt64)) (visited : List Nat) (state : σ)
    (link : UInt64) : Decode σ :=
  if link = 0 then return state
  else if _h : link.toNat ∉ visited then do
    let (state, next) ← step state link.toNat
    foldFrom step (link.toNat :: visited) state next
  else Decode.refuse (.invalidLink link.toNat)
termination_by unread UInt64.size visited
decreasing_by exact unread_cons_lt link.toNat_lt_size _h

/-- Reads the chain that a link leads to. -/
def fold (step : σ → Nat → Decode (σ × UInt64)) (state : σ) (link : UInt64) : Decode σ :=
  foldFrom step [] state link

theorem unread_le (size : Nat) (visited : List Nat) : unread size visited ≤ size := by
  simpa [unread_eq_countP] using List.countP_le_length (l := List.range size)

end Mdf.Chain
