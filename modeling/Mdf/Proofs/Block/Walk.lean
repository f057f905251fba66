import Mdf.Proofs.Block.Basic
import Mdf.Proofs.Block.Chain

/-!
# Walks along chains

Reading a chain is a walk along its links.  `Chain.trace` is the walk with a record of the links that
it follows, one in each iteration: it ends as `Chain.foldFrom` does (`trace_snd`).  The loop itself
would stop only when it has seen every word.  That the record is no longer than the file
(`length_trace_le`) comes from the header of a block, which is not read beyond the file (`Guarded`),
so that each block takes an offset of the file that has not been visited.  The offset zero, which no
block has, leaves room for the iteration in which the walk fails.

`Chain.Walk` is a walk as the file has it, without regard to what was visited.  The loop follows it
up to the first link that leads back (`Walk.run_fold_of_mem`).
-/

namespace Mdf

open Decode

/-! ### Blocks within the file -/

lemma Block.Header.lt_of_run_readAny {file : List UInt8} {first : BlockId} {others : List BlockId}
    {o p q : Nat} {h : Block.Header} (hr : run (readAny first others o) file p = (.ok h, q)) :
    o < file.length := by
  obtain ⟨size, q₁, hsize, hr⟩ := run_bind_eq_ok_iff.mp hr
  obtain ⟨_, q₂, hin, -⟩ := run_bind_eq_ok_iff.mp hr
  rw [run_size] at hsize
  cases hsize
  have hin := (of_run_refuseIf hin).1
  omega

lemma Block.Header.lt_of_run_read {file : List UInt8} {id : BlockId} {minLinks minData o p q : Nat}
    {h : Block.Header} (hr : run (read id minLinks minData o) file p = (.ok h, q)) :
    o < file.length := by
  obtain ⟨h', q₁, hany, -⟩ := run_bind_eq_ok_iff.mp hr
  exact lt_of_run_readAny hany

namespace Chain

variable {σ : Type} {file : List UInt8} {step : σ → Nat → Decode (σ × UInt64)}
  {visited os : List Nat}

/-- Where a walk stands. -/
structure Stand (σ : Type) where
  state : σ
  /-- The link that is followed next. -/
  link : UInt64
  /-- The position of the reader. -/
  position : Nat

variable {a b : Stand σ}

/-! ### The record of a walk -/

/-- The links that a walk follows, one in each iteration, and how it ends. -/
def trace (file : List UInt8) (step : σ → Nat → Decode (σ × UInt64)) (visited : List Nat)
    (a : Stand σ) : List UInt64 × (Except Failure σ × Nat) :=
  if a.link = 0 then ([], .ok a.state, a.position)
  else if _h : a.link.toNat ∉ visited then
    match run (step a.state a.link.toNat) file a.position with
    | (.ok (state, next), q) =>
      let rest := trace file step (a.link.toNat :: visited) ⟨state, next, q⟩
      (a.link :: rest.1, rest.2)
    | (.error f, q) => ([a.link], .error f, q)
  else ([a.link], .error (.error (.invalidLink a.link.toNat)), a.position)
termination_by unread UInt64.size visited
decreasing_by exact unread_cons_lt a.link.toNat_lt_size _h

/-- The record is that of the loop: both end with the same result at the same position. -/
theorem trace_snd (visited : List Nat) (a : Stand σ) : (trace file step visited a).2 =
    run (foldFrom step visited a.state a.link) file a.position := by
  induction visited, a using trace.induct file step with
  | case1 visited a h0 =>
    rw [trace, if_pos h0, foldFrom, if_pos h0]
    rfl
  | case2 visited a h0 h state next q hstep ih =>
    rw [trace, if_neg h0, dif_pos h, foldFrom, if_neg h0, dif_pos h, run_bind_of_ok hstep]
    simp only [hstep]
    exact ih
  | case3 visited a h0 h f q hstep =>
    rw [trace, if_neg h0, dif_pos h, foldFrom, if_neg h0, dif_pos h, run_bind, hstep]
  | case4 visited a h0 h =>
    rw [trace, if_neg h0, dif_neg h, foldFrom, if_neg h0, dif_neg h]
    rfl

/-- A step reads no block beyond the file. -/
def Guarded (file : List UInt8) (step : σ → Nat → Decode (σ × UInt64)) : Prop :=
  ∀ state o p r q, run (step state o) file p = (.ok r, q) → o < file.length

lemma toNat_ne_zero {link : UInt64} (h : link ≠ 0) : link.toNat ≠ 0 := by
  intro h0
  exact h (UInt64.toNat_inj.mp h0)

lemma unread_pos {size offset : Nat} (hs : offset < size) (hv : offset ∉ visited) :
    0 < unread size visited :=
  Nat.lt_of_le_of_lt (Nat.zero_le _) (unread_cons_lt hs hv)

/-- A walk that reads no block beyond the file has at most as many iterations as there are offsets in
the file that have not been visited. -/
lemma length_trace_le_unread (hg : Guarded file step) (hfile : 0 < file.length) (hv : 0 ∉ visited)
    (a : Stand σ) : (trace file step visited a).1.length ≤ unread file.length visited := by
  induction visited, a using trace.induct file step with
  | case1 visited a h0 =>
    rw [trace, if_pos h0]
    exact Nat.zero_le _
  | case2 visited a h0 h state next q hstep ih =>
    -- the block has been read, so that its offset is one of the file
    have hlt := unread_cons_lt (hg _ _ _ _ _ hstep) h
    have hih := ih (by
      simp only [List.mem_cons, not_or]
      exact ⟨(toNat_ne_zero h0).symm, hv⟩)
    rw [trace, if_neg h0, dif_pos h]
    simp only [hstep, List.length_cons]
    omega
  | case3 visited a h0 h f q hstep =>
    -- the block may well stand beyond the file: its link takes the place of the offset zero
    rw [trace, if_neg h0, dif_pos h]
    simp only [hstep]
    exact unread_pos hfile hv
  | case4 visited a h0 h =>
    rw [trace, if_neg h0, dif_neg h]
    exact unread_pos hfile hv

theorem length_trace_le (hg : Guarded file step) (hfile : 0 < file.length) (a : Stand σ) :
    (trace file step [] a).1.length ≤ file.length :=
  Nat.le_trans (length_trace_le_unread hg hfile List.not_mem_nil a) (unread_le file.length [])

/-! ### Walks as the file has them -/

/-- From the first stand the blocks at these offsets are read one after the other, each of them
without an error, and the last one leads to the second stand. -/
inductive Walk (file : List UInt8) (step : σ → Nat → Decode (σ × UInt64)) :
    List Nat → Stand σ → Stand σ → Prop
  | nil (a : Stand σ) : Walk file step [] a a
  | cons {a b : Stand σ} {os : List Nat} {state : σ} {next : UInt64} {q : Nat} (hlink : a.link ≠ 0)
      (hstep : run (step a.state a.link.toNat) file a.position = (.ok (state, next), q))
      (h : Walk file step os ⟨state, next, q⟩ b) : Walk file step (a.link.toNat :: os) a b

lemma Walk.pos (h : Walk file step os a b) : ∀ o ∈ os, o ≠ 0 := by
  induction h with
  | nil => simp
  | cons hlink _ _ ih =>
    intro o ho
    rcases List.mem_cons.mp ho with rfl | ho
    · exact toNat_ne_zero hlink
    · exact ih o ho

/-- The offsets behind the first one have not been visited once it has been. -/
lemma not_mem_visited {o : Nat} (hnew : o ∉ os) (hv : ∀ o' ∈ o :: os, o' ∉ visited) :
    ∀ o' ∈ os, o' ∉ o :: visited := by
  intro o' ho' hmem
  rcases List.mem_cons.mp hmem with rfl | hmem
  · exact hnew ho'
  · exact hv o' (List.mem_cons_of_mem _ ho') hmem

/-- The loop follows a walk as long as no offset comes twice. -/
lemma Walk.run_foldFrom (h : Walk file step os a b) (hd : os.Nodup) (hv : ∀ o ∈ os, o ∉ visited) :
    run (foldFrom step visited a.state a.link) file a.position =
      run (foldFrom step (os.reverse ++ visited) b.state b.link) file b.position := by
  induction h generalizing visited with
  | nil => rfl
  | @cons a b os state next q hlink hstep _ ih =>
    obtain ⟨hnew, hd⟩ := List.nodup_cons.mp hd
    have hunread : a.link.toNat ∉ visited := hv _ List.mem_cons_self
    rw [foldFrom, if_neg hlink, dif_pos hunread, run_bind_of_ok hstep,
      ih hd (not_mem_visited hnew hv), List.reverse_cons, List.append_assoc, List.singleton_append]

/-- A chain that has been read is a walk up to the link that leads to no block. -/
lemma exists_walk_of_run_foldFrom {p q : Nat} {state final : σ} {link : UInt64}
    (h : run (foldFrom step visited state link) file p = (.ok final, q)) :
    ∃ os, Walk file step os ⟨state, link, p⟩ ⟨final, 0, q⟩ := by
  induction visited, state, link using foldFrom.induct generalizing p with
  | case1 visited state =>
    rw [foldFrom, if_pos rfl] at h
    cases h
    exact ⟨[], .nil _⟩
  | case2 visited state link hlink hunread ih =>
    rw [foldFrom, if_neg hlink, dif_pos hunread] at h
    obtain ⟨⟨next, link'⟩, q', hstep, h⟩ := run_bind_eq_ok_iff.mp h
    obtain ⟨os, hos⟩ := ih next link' h
    exact ⟨link.toNat :: os, Walk.cons (a := ⟨state, link, p⟩) hlink hstep hos⟩
  | case3 visited state link hlink hread =>
    rw [foldFrom, if_neg hlink, dif_neg hread] at h
    cases h

theorem exists_walk_of_run_fold {p q : Nat} {state final : σ} {link : UInt64}
    (h : run (fold step state link) file p = (.ok final, q)) :
    ∃ os, Walk file step os ⟨state, link, p⟩ ⟨final, 0, q⟩ :=
  exists_walk_of_run_foldFrom h

/-- The first block of a chain that has been read has been read. -/
lemma exists_run_of_run_fold {p q : Nat} {state final : σ} {link : UInt64} (hlink : link ≠ 0)
    (h : run (fold step state link) file p = (.ok final, q)) :
    ∃ r q', run (step state link.toNat) file p = (.ok r, q') := by
  obtain ⟨os, hw⟩ := exists_walk_of_run_fold h
  generalize ha : (⟨state, link, p⟩ : Stand σ) = a at hw
  cases hw with
  | nil =>
    cases ha
    exact absurd rfl hlink
  | cons _ hstep _ =>
    cases ha
    exact ⟨_, _, hstep⟩

/-- **A link that leads back to a block of the walk is refused**, wherever the walk meets itself. -/
theorem Walk.run_fold_of_mem (h : Walk file step os a b) (hd : os.Nodup)
    (hback : b.link.toNat ∈ os) : run (fold step a.state a.link) file a.position =
      (.error (.error (.invalidLink b.link.toNat)), b.position) := by
  have hlink : b.link ≠ 0 := fun h0 => h.pos _ hback (by rw [h0]; rfl)
  have hread : ¬b.link.toNat ∉ os.reverse ++ [] := by simp [hback]
  rw [fold, h.run_foldFrom hd (by simp), foldFrom, if_neg hlink, dif_neg hread, run_refuse]

/-- A walk that comes to a block on which the step fails ends with this failure. -/
lemma Walk.run_fold_of_error (h : Walk file step os a b) (hd : (os ++ [b.link.toNat]).Nodup)
    (hlink : b.link ≠ 0) {f : Failure} {q : Nat}
    (hstep : run (step b.state b.link.toNat) file b.position = (.error f, q)) :
    run (fold step a.state a.link) file a.position = (.error f, q) := by
  obtain ⟨hd, -, hnew⟩ := List.nodup_append.mp hd
  have hunread : b.link.toNat ∉ os.reverse ++ [] := by
    rw [List.append_nil, List.mem_reverse]
    exact fun hmem => hnew _ hmem _ (List.mem_singleton_self _) rfl
  rw [fold, h.run_foldFrom hd (by simp), foldFrom, if_neg hlink, dif_pos hunread, run_bind, hstep]

end Chain

end Mdf
