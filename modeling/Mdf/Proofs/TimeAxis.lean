import Mathlib.Order.Bounds.Basic
import Mdf.Fixture
import Mdf.Proofs.Binary.Order

/-!
# Time axes

A list of times is an axis exactly if none of them is a NaN and each is below all later ones,
although only neighbours are compared; a list that is none is refused at the first place that does
not increase, or at the head if that is a NaN on its own (`ofList_exact`).

The axes that a caller can have are the lists that increase and the counts (`TimeAxis.Built`).  No
time of them is a NaN, so each of them is the same as itself.
-/

namespace Mdf

namespace TimeAxis

variable {values : List Double} {x y : Double} {r : List Double} {i k : Nat} {t : TimeAxis}
  {e : Error}

/-! ### Neighbours -/

lemma lt_iff_below : x.lt y = true ↔ x.Below y := Binary.lt_iff_below (by decide)

/-- The time at a place is not above the one before it. -/
structure StallsAt (values : List Double) (k : Nat) : Prop where
  pos : 0 < k
  lt_length : k < values.length
  not_below : ¬values[k - 1].Below values[k]

lemma stallsAt_one : StallsAt (x :: y :: r) 1 ↔ ¬x.Below y :=
  ⟨fun h => h.not_below, fun h => ⟨Nat.one_pos, Nat.succ_lt_succ (Nat.succ_pos _), h⟩⟩

lemma stallsAt_add_two : StallsAt (x :: y :: r) (k + 2) ↔ StallsAt (y :: r) (k + 1) :=
  ⟨fun h => ⟨k.succ_pos, Nat.lt_of_succ_lt_succ h.lt_length, h.not_below⟩,
    fun h => ⟨k.succ.succ_pos, Nat.succ_lt_succ h.lt_length, h.not_below⟩⟩

/-- Behind a time that is below the next one the places are those of the rest. -/
lemma stallsAt_cons (h : x.Below y) :
    StallsAt (x :: y :: r) k ↔ ∃ j, k = j + 1 ∧ StallsAt (y :: r) j := by
  match k with
  | 0 =>
    refine iff_of_false (fun hk => Nat.lt_irrefl 0 hk.pos) ?_
    rintro ⟨j, hj, -⟩
    cases hj
  | 1 =>
    refine iff_of_false (fun hk => stallsAt_one.mp hk h) ?_
    rintro ⟨j, hj, hstalls⟩
    cases hj
    exact Nat.lt_irrefl 0 hstalls.pos
  | k + 2 =>
    rw [stallsAt_add_two]
    constructor
    · intro hk
      exact ⟨k + 1, rfl, hk⟩
    · rintro ⟨j, hj, hk⟩
      cases hj
      exact hk

lemma isLeast_stallsAt_cons (h : x.Below y) : IsLeast {n | StallsAt (x :: y :: r) n} k ↔
    ∃ j, k = j + 1 ∧ IsLeast {n | StallsAt (y :: r) n} j := by
  constructor
  · rintro ⟨hk, hle⟩
    obtain ⟨j, rfl, hj⟩ := (stallsAt_cons h).mp hk
    refine ⟨j, rfl, hj, fun n hn => Nat.le_of_succ_le_succ (hle ?_)⟩
    exact (stallsAt_cons h).mpr ⟨n, rfl, hn⟩
  · rintro ⟨j, rfl, hj, hle⟩
    refine ⟨(stallsAt_cons h).mpr ⟨j, rfl, hj⟩, fun n hn => ?_⟩
    obtain ⟨m, rfl, hm⟩ := (stallsAt_cons h).mp hn
    exact Nat.succ_le_succ (hle hm)

/-- The index is that of the first place at which the times do not increase. -/
lemma descent?_eq_some_iff :
    descent? i values = some k ↔ ∃ j, k = i + j ∧ IsLeast {n | StallsAt values n} j := by
  induction i, values using descent?.induct with
  | case1 i x y r hlt ih =>
    rw [descent?, if_pos hlt, ih]
    simp only [isLeast_stallsAt_cons (lt_iff_below.mp hlt)]
    constructor
    · rintro ⟨j, rfl, hj⟩
      exact ⟨j + 1, by omega, j, rfl, hj⟩
    · rintro ⟨_, rfl, j, rfl, hj⟩
      exact ⟨j, by omega, hj⟩
  | case2 i x y r hlt =>
    have hleast : IsLeast {n | StallsAt (x :: y :: r) n} 1 :=
      ⟨stallsAt_one.mpr (mt lt_iff_below.mpr hlt), fun n hn => hn.pos⟩
    rw [descent?, if_neg hlt, Option.some_inj]
    constructor
    · rintro rfl
      exact ⟨1, rfl, hleast⟩
    · rintro ⟨j, rfl, hj⟩
      rw [hj.unique hleast]
  | case3 values i hshort =>
    match values with
    | [] =>
      refine iff_of_false (fun h => nomatch h) ?_
      rintro ⟨j, -, hj, -⟩
      exact Nat.not_lt_zero j hj.lt_length
    | [x] =>
      refine iff_of_false (fun h => nomatch h) ?_
      rintro ⟨j, -, hj, -⟩
      exact Nat.not_lt.mpr hj.pos hj.lt_length
    | x :: y :: r => exact (hshort x y r rfl).elim

lemma descent?_eq_none_iff_isChain : descent? i values = none ↔ values.IsChain Binary.Below := by
  induction i, values using descent?.induct with
  | case1 i x y r hlt ih =>
    rw [descent?, if_pos hlt, ih, List.isChain_cons_cons, and_iff_right (lt_iff_below.mp hlt)]
  | case2 i x y r hlt =>
    rw [descent?, if_neg hlt, List.isChain_cons_cons]
    exact iff_of_false (fun h => nomatch h) fun h => hlt (lt_iff_below.mpr h.1)
  | case3 values i hshort =>
    match values with
    | [] => exact iff_of_true rfl .nil
    | [x] => exact iff_of_true rfl (.singleton x)
    | x :: y :: r => exact (hshort x y r rfl).elim

/-- Neighbours are enough, since the order is transitive. -/
lemma descent?_eq_none_iff : descent? i values = none ↔ values.Pairwise Binary.Below := by
  have htrans : Trans (Binary.Below (f := .double)) Binary.Below Binary.Below :=
    ⟨fun hxy hyz => lt_iff_below.mp (Binary.lt_trans (lt_iff_below.mpr hxy) (lt_iff_below.mpr hyz))⟩
  rw [descent?_eq_none_iff_isChain, List.isChain_iff_pairwise]

/-! ### The check of a list -/

/-- The times of an axis: numbers, each below all later ones. -/
structure Increases (values : List Double) : Prop where
  not_isNaN : ∀ x ∈ values, x.isNaN = false
  below : ∀ (i j : Nat) (_ : i < j) (_ : j < values.length), values[i].Below values[j]

lemma increases_iff_pairwise :
    Increases values ↔ (∀ x ∈ values, x.isNaN = false) ∧ values.Pairwise Binary.Below := by
  rw [List.pairwise_iff_getElem]
  exact ⟨fun h => ⟨h.not_isNaN, fun i j _ hj hij => h.below i j hij hj⟩,
    fun h => ⟨h.1, fun i j hij hj => h.2 i j (Nat.lt_trans hij hj) hj hij⟩⟩

/-- Of two times or more that increase each is compared, so none is a NaN. -/
lemma not_isNaN_of_pairwise (h : (x :: y :: r).Pairwise Binary.Below) :
    ∀ z ∈ x :: y :: r, z.isNaN = false := by
  have hx := (List.pairwise_cons.mp h).1
  refine List.forall_mem_cons.mpr ⟨(hx y List.mem_cons_self).not_isNaN.1, fun z hz => ?_⟩
  exact (hx z hz).not_isNaN.2

lemma defect?_eq_none_iff : defect? values = none ↔ Increases values := by
  rw [increases_iff_pairwise, ← descent?_eq_none_iff (i := 0), defect?]
  cases hdescent : descent? 0 values with
  | some k => exact iff_of_false (fun h => nomatch h) fun h => nomatch h.2
  | none =>
    match values with
    | [] => simp
    | [x] => cases hx : x.isNaN <;> simp [hx]
    | x :: y :: r =>
      have hnumbers := not_isNaN_of_pairwise (descent?_eq_none_iff.mp hdescent)
      refine iff_of_true ?_ ⟨hnumbers, rfl⟩
      simp [hnumbers x List.mem_cons_self]

/-- The index of a list that is no axis. -/
lemma defect?_eq_some_iff : defect? values = some k ↔
    IsLeast {n | StallsAt values n} k ∨ k = 0 ∧ ∃ x, values = [x] ∧ x.isNaN = true := by
  have hleast : descent? 0 values = some k ↔ IsLeast {n | StallsAt values n} k := by
    rw [descent?_eq_some_iff]
    simp
  rw [← hleast, defect?]
  cases hdescent : descent? 0 values with
  | some j =>
    refine (or_iff_left ?_).symm
    rintro ⟨-, x, rfl, -⟩
    cases hdescent
  | none =>
    match values with
    | [] => simp
    | [x] =>
      cases hx : x.isNaN with
      | false => simp [hx]
      | true => simp [hx, @eq_comm _ k]
    | x :: y :: r =>
      have hnumbers := not_isNaN_of_pairwise (descent?_eq_none_iff.mp hdescent)
      simp [hnumbers x List.mem_cons_self]

lemma ofList_eq_ok_iff : ofList values = .ok t ↔ Increases values ∧ t.values = values := by
  rw [← defect?_eq_none_iff, ofList]
  cases defect? values with
  | some k => exact iff_of_false (fun h => nomatch h) fun h => nomatch h.1
  | none =>
    obtain ⟨times⟩ := t
    simp [eq_comm]

lemma ofList_eq_error_iff : ofList values = .error e ↔
    ∃ k, defect? values = some k ∧ e = .nonMonotonicTimeAxis k := by
  rw [ofList]
  cases defect? values with
  | some k => simp [eq_comm]
  | none => simp

/-- **Acceptance of a list of times.**  It is an axis exactly if its times are numbers and each is
below all later ones, and then these are the times of the axis.  Otherwise the error has the first
index at which the time is not above the one before it; the index zero stands for a NaN alone. -/
theorem ofList_exact (values : List Double) :
    (∀ t, ofList values = .ok t ↔ Increases values ∧ t.values = values) ∧
      ∀ e, ofList values = .error e ↔ ∃ k, e = .nonMonotonicTimeAxis k ∧
        (IsLeast {n | StallsAt values n} k ∨ k = 0 ∧ ∃ x, values = [x] ∧ x.isNaN = true) := by
  refine ⟨fun t => ofList_eq_ok_iff, fun e => ?_⟩
  simp only [ofList_eq_error_iff, defect?_eq_some_iff, and_comm]

-- The two zeros are one number.
example : ofList [⟨0x8000000000000000⟩, ⟨0⟩] = .error (.nonMonotonicTimeAxis 1) := rfl

/-! ### Axes of a caller -/

/-- An axis that a caller can have: the times are accepted, or they count from zero on. -/
inductive Built : TimeAxis → Prop
  | ofList {values : List Double} {t : TimeAxis} (h : ofList values = .ok t) : Built t
  | sequential {n : Nat} (h : n < Checked.wordBound) : Built (sequential n)

lemma Built.not_isNaN {t : TimeAxis} (h : t.Built) : ∀ x ∈ t.values, x.isNaN = false := by
  cases h with
  | ofList h =>
    obtain ⟨hincreases, hvalues⟩ := ofList_eq_ok_iff.mp h
    rw [hvalues]
    exact hincreases.not_isNaN
  | sequential h =>
    intro x hx
    obtain ⟨i, hi, rfl⟩ := List.mem_map.mp hx
    exact Binary.not_isNaN_ofNat (Nat.lt_trans (List.mem_range.mp hi) h)

/-- **An axis is the same as itself.** -/
theorem Built.same_self {t : TimeAxis} (h : t.Built) : t.same t = true :=
  Binary.ieeeEqAll_self_iff.mpr h.not_isNaN

end TimeAxis

end Mdf
