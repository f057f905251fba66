import Mdf.Bytes.LittleEndian
import Mdf.Binary.Format
import Mdf.Checked

/-!
# Reading bytes

`Decode α` reads a value from an input that it cannot change.  Its state is the position, which a
failed step leaves where it was: what was read before the failure stays read.  The input is an
array, so that a step does not depend on how far it is from the start; `run` takes the bytes as a
list, and the laws of the steps speak of that list.
-/

namespace Mdf

/-- A reader of bytes: from the whole input and a position to a result and the next position. -/
def Decode (α : Type) : Type := Array UInt8 → Nat → Except Failure α × Nat

namespace Decode

variable {α β : Type}

/-- The result of reading an input from a position, and the position behind what was read. -/
def run (d : Decode α) (input : List UInt8) (position : Nat) : Except Failure α × Nat :=
  d input.toArray position

def done (a : α) : Decode α := fun _ p => (.ok a, p)

def fail (f : Failure) : Decode α := fun _ p => (.error f, p)

/-- Reads with the second reader from where the first one stopped, unless that failed. -/
def andThen (d : Decode α) (next : α → Decode β) : Decode β := fun input p =>
  match d input p with
  | (.ok a, q) => next a input q
  | (.error f, q) => (.error f, q)

instance : Monad Decode where
  pure := done
  bind := andThen

/-- Fails with an error. -/
def refuse (e : Error) : Decode α := fail (.error e)

/-- Fails with an error if the condition holds. -/
def refuseIf (condition : Prop) [Decidable condition] (e : Error) : Decode Unit :=
  if condition then refuse e else pure ()

/-- The result of a computation that reads nothing. -/
instance : MonadLift (Except Failure) Decode where
  monadLift
    | .ok a => done a
    | .error f => fail f

/-! ### Steps -/

def size : Decode Nat := fun input p => (.ok input.size, p)

def position : Decode Nat := fun _ p => (.ok p, p)

/-- The number of bytes from the position on. -/
def remaining : Decode Nat := fun input p => (liftM (Checked.sub input.size p), p)

/-- Moves to an offset, which may be the end of the input. -/
def seek (offset : Nat) : Decode Unit := fun input p =>
  if offset ≤ input.size then (.ok (), offset) else (.error (.error (.invalidLink offset)), p)

/-- The next `n` bytes. -/
def take (n : Nat) : Decode (List UInt8) := fun input p =>
  if p + n ≤ input.size then (liftM (Checked.extract input p (p + n)), p + n)
  else (.error (.error (.prematureEnd input.size)), p)

def skip (n : Nat) : Decode Unit := do
  let _ ← take n

/-- The next `n` bytes, as they fill a field of `n` bytes. -/
def field (n : Nat) : Decode (List UInt8) := do
  let bytes ← take n
  (Checked.fill n bytes : Except Failure (List UInt8))

/-- The number in the next `n` bytes. -/
def number (n : Nat) : Decode Nat := return LittleEndian.decode (← field n)

def uint8 : Decode UInt8 := return UInt8.ofNat (← number 1)

def uint16 : Decode UInt16 := return UInt16.ofNat (← number 2)

def int16 : Decode Int16 := return (← uint16).toInt16

def uint32 : Decode UInt32 := return UInt32.ofNat (← number 4)

def uint64 : Decode UInt64 := return UInt64.ofNat (← number 8)

def double : Decode Double := return ⟨BitVec.ofNat _ (← number 8)⟩

/-- `n` unsigned numbers of 64 bits. -/
def uint64s : Nat → Decode (List UInt64)
  | 0 => return []
  | n + 1 => return (← uint64) :: (← uint64s n)

/-! ### Laws -/

@[simp] theorem run_pure (a : α) (input : List UInt8) (p : Nat) :
    run (pure a) input p = (.ok a, p) := rfl

@[simp] theorem run_refuse (e : Error) (input : List UInt8) (p : Nat) :
    run (refuse e : Decode α) input p = (.error (.error e), p) := rfl

@[simp] theorem run_liftM (x : Except Failure α) (input : List UInt8) (p : Nat) :
    run (liftM x) input p = (x, p) := by
  cases x <;> rfl

theorem run_bind (d : Decode α) (next : α → Decode β) (input : List UInt8) (p : Nat) :
    run (d >>= next) input p =
      match run d input p with
      | (.ok a, q) => run (next a) input q
      | (.error f, q) => (.error f, q) := rfl

theorem run_bind_of_ok {d : Decode α} {next : α → Decode β} {input : List UInt8} {p q : Nat}
    {a : α} (h : run d input p = (.ok a, q)) :
    run (d >>= next) input p = run (next a) input q := by
  rw [run_bind, h]

theorem run_refuseIf (condition : Prop) [Decidable condition] (e : Error) (input : List UInt8)
    (p : Nat) :
    run (refuseIf condition e) input p = (if condition then .error (.error e) else .ok (), p) := by
  unfold refuseIf
  split <;> rfl

@[simp] theorem run_size (input : List UInt8) (p : Nat) :
    run size input p = (.ok input.length, p) := by
  simp [run, size]

theorem run_take (n : Nat) (input : List UInt8) (p : Nat) :
    run (take n) input p =
      if p + n ≤ input.length then (.ok ((input.drop p).take n), p + n)
      else (.error (.error (.prematureEnd input.length)), p) := by
  unfold run take
  simp only [List.size_toArray]
  split
  · rename_i h
    rw [Checked.extract_of_le (by omega) (by simpa using h)]
    simp [List.extract_eq_take_drop]
    rfl
  · rfl

theorem run_seek (offset : Nat) (input : List UInt8) (p : Nat) :
    run (seek offset) input p =
      if offset ≤ input.length then (.ok (), offset)
      else (.error (.error (.invalidLink offset)), p) := by
  simp [run, seek]

/-- A field takes the bytes that it asks for, so it is always filled. -/
theorem field_eq_take (n : Nat) : field n = take n := by
  have h : ∀ input p, run (field n) input p = run (take n) input p := by
    intro input p
    by_cases hp : p + n ≤ input.length
    · have ht : run (take n) input p = (.ok ((input.drop p).take n), p + n) := by
        rw [run_take, if_pos hp]
      rw [field, run_bind_of_ok ht, ht, Checked.fill_of_length (by simp; omega)]
      rfl
    · rw [field, run_bind, run_take, if_neg hp]
  funext input p
  exact h input.toList p

end Decode

end Mdf
