import Mathlib.Data.List.Forall2
import Mathlib.Tactic.Common
import Mdf.Error

/-!
# Results

How results of the three kinds are lifted, taken apart and collected, and how they end: `Ends P Q x`
says that `x` is a value with the property `Q` or a failure with the property `P`.
-/

namespace Mdf

variable {ε α β : Type}

/-! ### Lifting -/

@[simp] lemma liftM_ok_fault (a : α) :
    (liftM (.ok a : Except Fault α) : Except Failure α) = .ok a := rfl

@[simp] lemma liftM_error_fault (f : Fault) :
    (liftM (.error f : Except Fault α) : Except Failure α) = .error (.fault f) := rfl

@[simp] lemma liftM_ok_error (a : α) :
    (liftM (.ok a : Except Error α) : Except Failure α) = .ok a := rfl

@[simp] lemma liftM_error_error (e : Error) :
    (liftM (.error e : Except Error α) : Except Failure α) = .error (.error e) := rfl

lemma liftM_fault_eq_ok_iff {x : Except Fault α} {a : α} :
    (liftM x : Except Failure α) = .ok a ↔ x = .ok a := by
  cases x <;> simp

lemma liftM_error_eq_ok_iff {x : Except Error α} {a : α} :
    (liftM x : Except Failure α) = .ok a ↔ x = .ok a := by
  cases x <;> simp

/-! ### Sequences of steps -/

@[simp] lemma ok_bind (a : α) (f : α → Except ε β) : (Except.ok a >>= f) = f a := rfl

@[simp] lemma error_bind (e : ε) (f : α → Except ε β) : (Except.error e >>= f) = .error e := rfl

lemma bind_eq_ok_iff {x : Except ε α} {f : α → Except ε β} {b : β} :
    x >>= f = .ok b ↔ ∃ a, x = .ok a ∧ f a = .ok b := by
  cases x <;> simp

lemma exists_eq_ok_of_isOk {x : Except ε α} (h : x.isOk = true) : ∃ a, x = .ok a := by
  cases x with
  | ok a => exact ⟨a, rfl⟩
  | error e => cases h

/-! ### Steps on a state -/

section State

variable {σ : Type} {s t : σ} {x : ExceptT ε (StateM σ) α}

lemma run_bind_of_run_ok {a : α} (h : x.run.run s = (.ok a, t)) (f : α → ExceptT ε (StateM σ) β) :
    (x >>= f).run.run s = (f a).run.run t := by
  have hx : x.run s = (.ok a, t) := h
  rw [ExceptT.run_bind, StateT.run_bind]
  change (x.run s >>= _) = _
  rw [hx]
  rfl

lemma run_bind_of_run_error {e : ε} (h : x.run.run s = (.error e, t))
    (f : α → ExceptT ε (StateM σ) β) : (x >>= f).run.run s = (.error e, t) := by
  have hx : x.run s = (.error e, t) := h
  rw [ExceptT.run_bind, StateT.run_bind]
  change (x.run s >>= _) = _
  rw [hx]
  rfl

end State

/-! ### Lists of results -/

lemma mapM_eq_ok {f : α → Except ε β} {g : α → β} {l : List α} (h : ∀ a ∈ l, f a = .ok (g a)) :
    l.mapM f = .ok (l.map g) := by
  induction l with
  | nil => rfl
  | cons a l ih =>
    rw [List.mapM_cons, h a List.mem_cons_self, ih fun b hb => h b (List.mem_cons_of_mem a hb)]
    rfl

lemma mapM_exists_ok {f : α → Except ε β} {l : List α} (h : ∀ a ∈ l, ∃ b, f a = .ok b) :
    ∃ bs, l.mapM f = .ok bs ∧ bs.length = l.length := by
  induction l with
  | nil => exact ⟨[], rfl, rfl⟩
  | cons a l ih =>
    obtain ⟨ha, hl⟩ := List.forall_mem_cons.mp h
    obtain ⟨b, hb⟩ := ha
    obtain ⟨bs, hbs, hlen⟩ := ih hl
    rw [List.mapM_cons, hb, hbs]
    exact ⟨b :: bs, rfl, by rw [List.length_cons, hlen, List.length_cons]⟩

lemma forall₂_of_mapM_eq_ok {f : α → Except ε β} {l : List α} {bs : List β}
    (h : l.mapM f = .ok bs) : List.Forall₂ (fun a b => f a = .ok b) l bs := by
  induction l generalizing bs with
  | nil =>
    cases h
    exact .nil
  | cons a l ih =>
    rw [List.mapM_cons] at h
    obtain ⟨b, hb, h⟩ := bind_eq_ok_iff.mp h
    obtain ⟨bs, hbs, h⟩ := bind_eq_ok_iff.mp h
    cases h
    exact .cons hb (ih hbs)

lemma exists_of_mem_forall₂ {α β : Type} {R : α → β → Prop} {as : List α} {bs : List β}
    (h : List.Forall₂ R as bs) {a : α} (ha : a ∈ as) : ∃ b ∈ bs, R a b := by
  induction h with
  | nil => simp at ha
  | cons hab _ ih =>
    rcases List.mem_cons.mp ha with rfl | ha
    · exact ⟨_, List.mem_cons_self, hab⟩
    · obtain ⟨b, hb, h⟩ := ih ha
      exact ⟨b, List.mem_cons_of_mem _ hb, h⟩

/-! ### How results end -/

/-- The result is a value with the property `Q`, or a failure with the property `P`. -/
inductive Ends (P : Failure → Prop) (Q : α → Prop) : Except Failure α → Prop
  | ok {a : α} (h : Q a) : Ends P Q (.ok a)
  | error {f : Failure} (h : P f) : Ends P Q (.error f)

section Ends

variable {P : Failure → Prop} {Q : α → Prop} {R : β → Prop}

lemma Ends.of_error {f : Failure} (h : Ends P Q (.error f)) : P f := by
  cases h with
  | error h => exact h

lemma Ends.mono {Q' : α → Prop} {x : Except Failure α} (h : Ends P Q x) (hQ : ∀ a, Q a → Q' a) :
    Ends P Q' x := by
  cases h with
  | ok h => exact .ok (hQ _ h)
  | error h => exact .error h

lemma ends_pure {a : α} (h : Q a) : Ends P Q (pure a) := .ok h

lemma ends_bind {x : Except Failure α} {f : α → Except Failure β} (h : Ends P Q x)
    (hf : ∀ a, Q a → Ends P R (f a)) : Ends P R (x >>= f) := by
  cases h with
  | ok h => exact hf _ h
  | error h => exact .error h

/-- Where every fault is allowed, a check of a precondition is. -/
lemma ends_fault (hP : ∀ f, P (.fault f)) (x : Except Fault α) :
    Ends P (fun _ => True) (liftM x : Except Failure α) := by
  cases x with
  | ok a => exact .ok trivial
  | error f => exact .error (hP f)

/-- A precondition that holds allows for no fault. -/
lemma ends_of_eq_ok {x : Except Fault α} {a : α} (h : x = .ok a) :
    Ends P (· = a) (liftM x : Except Failure α) := by
  rw [h]
  exact .ok rfl

lemma ends_error {x : Except Error α} (hP : ∀ e, x = .error e → P (.error e))
    (hQ : ∀ a, x = .ok a → Q a) : Ends P Q (liftM x : Except Failure α) := by
  cases x with
  | ok a => exact .ok (hQ a rfl)
  | error e => exact .error (hP e rfl)

lemma ends_mapM {f : α → Except Failure β} {l : List α} (h : ∀ a ∈ l, Ends P R (f a)) :
    Ends P (fun bs => bs.length = l.length ∧ ∀ b ∈ bs, R b) (l.mapM f) := by
  induction l with
  | nil => exact ends_pure ⟨rfl, by simp⟩
  | cons a l ih =>
    obtain ⟨ha, hl⟩ := List.forall_mem_cons.mp h
    rw [List.mapM_cons]
    refine ends_bind ha fun b hb => ends_bind (ih hl) fun bs hbs => ends_pure ?_
    exact ⟨by rw [List.length_cons, hbs.1, List.length_cons],
      List.forall_mem_cons.mpr ⟨hb, hbs.2⟩⟩

lemma ends_foldlM {f : β → α → Except Failure β} {l : List α} {b : β} (hb : R b)
    (h : ∀ b, ∀ a ∈ l, R b → Ends P R (f b a)) : Ends P R (l.foldlM f b) := by
  induction l generalizing b with
  | nil => exact ends_pure hb
  | cons a l ih =>
    rw [List.foldlM_cons]
    exact ends_bind (h b a List.mem_cons_self hb) fun c hc =>
      ih hc fun d e he => h d e (List.mem_cons_of_mem a he)

end Ends

end Mdf
