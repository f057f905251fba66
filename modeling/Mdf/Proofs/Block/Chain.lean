import Mdf.Block.Chain
import Mdf.Proofs.Bytes.Decode

/-!
# Reading chains

How a chain is read, block by block: it ends at a link of zero, goes on where a block of the input
that was not read before has been read, and fails where a block fails.  What each block keeps of the
state is kept by the chain (`of_run_fold`).
-/

namespace Mdf.Chain

open Decode

variable {σ : Type} {file : List UInt8} {step : σ → Nat → Decode (σ × UInt64)} {visited : List Nat}
  {state next : σ} {link link' : UInt64} {r : Except Failure σ}

lemma gives_foldFrom_zero : Gives file (foldFrom step visited state 0) (.ok state) := by
  unfold foldFrom
  rw [if_pos rfl]
  exact gives_pure state

lemma gives_foldFrom (hlink : link ≠ 0) (hv : link.toNat ∉ visited)
    (hs : Gives file (step state link.toNat) (.ok (next, link')))
    (hr : Gives file (foldFrom step (link.toNat :: visited) next link') r) :
    Gives file (foldFrom step visited state link) r := by
  unfold foldFrom
  rw [if_neg hlink, dif_pos hv]
  exact gives_bind hs hr

lemma gives_foldFrom_error {f : Failure} (hlink : link ≠ 0) (hv : link.toNat ∉ visited)
    (hs : Gives file (step state link.toNat) (.error f)) :
    Gives file (foldFrom step visited state link) (.error f) := by
  unfold foldFrom
  rw [if_neg hlink, dif_pos hv]
  exact gives_bind_error hs

/-- A chain of one block. -/
lemma gives_fold_single (hlink : link ≠ 0)
    (hs : Gives file (step state link.toNat) (.ok (next, 0))) :
    Gives file (fold step state link) (.ok next) :=
  gives_foldFrom hlink List.not_mem_nil hs gives_foldFrom_zero

/-- A chain of which the first block fails. -/
lemma gives_fold_error {f : Failure} (hlink : link ≠ 0)
    (hs : Gives file (step state link.toNat) (.error f)) :
    Gives file (fold step state link) (.error f) :=
  gives_foldFrom_error hlink List.not_mem_nil hs

/-! ### Chains that have been read -/

lemma of_run_foldFrom {I : σ → Prop} {p q : Nat}
    (hs : ∀ state offset p r q, I state → run (step state offset) file p = (.ok r, q) → I r.1)
    (h0 : I state) (h : run (foldFrom step visited state link) file p = (.ok next, q)) :
    I next := by
  induction visited, state, link using foldFrom.induct generalizing p with
  | case1 visited state =>
    rw [foldFrom, if_pos rfl] at h
    cases h
    exact h0
  | case2 visited state link hlink hunread ih =>
    rw [foldFrom, if_neg hlink, dif_pos hunread] at h
    obtain ⟨r, q', hstep, h⟩ := run_bind_eq_ok_iff.mp h
    exact ih r.1 r.2 (hs state link.toNat p r q' h0 hstep) h
  | case3 visited state link hlink hread =>
    rw [foldFrom, if_neg hlink, dif_neg hread] at h
    cases h

lemma of_run_fold {I : σ → Prop} {p q : Nat}
    (hs : ∀ state offset p r q, I state → run (step state offset) file p = (.ok r, q) → I r.1)
    (h0 : I state) (h : run (fold step state link) file p = (.ok next, q)) : I next :=
  of_run_foldFrom hs h0 h

end Mdf.Chain
