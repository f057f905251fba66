import Mdf.Error

/-!
# Operations with a precondition

Each operation of this module has a precondition, and ends in a fault where that does not hold.
Beside each one stands its law: under the precondition it gives what it is meant to give.
-/

namespace Mdf.Checked

variable {α : Type}

/-! ### Numbers of 64 bits -/

/-- What no number of 64 bits reaches. -/
def wordBound : Nat := 1 <<< 64

/-- A number that must fit 64 bits. -/
def word (n : Nat) : Except Fault Nat := if n < wordBound then .ok n else .error (.overflow n)

def add (a b : Nat) : Except Fault Nat := word (a + b)

def mul (a b : Nat) : Except Fault Nat := word (a * b)

/-- A difference of unsigned numbers. -/
def sub (a b : Nat) : Except Fault Nat :=
  if b ≤ a then .ok (a - b) else .error (.underflow a b)

theorem add_of_lt {a b : Nat} (h : a + b < wordBound) : add a b = .ok (a + b) := if_pos h

theorem mul_of_lt {a b : Nat} (h : a * b < wordBound) : mul a b = .ok (a * b) := if_pos h

theorem sub_of_le {a b : Nat} (h : b ≤ a) : sub a b = .ok (a - b) := if_pos h

/-! ### Sequences -/

def item (a : Array α) (i : Nat) : Except Fault α :=
  match a[i]? with
  | some x => .ok x
  | none => .error (.index i a.size)

/-- The elements of `l` from `start` up to `stop`, which must lie within it in this order. -/
def slice (l : List α) (start stop : Nat) : Except Fault (List α) :=
  if start ≤ stop ∧ stop ≤ l.length then .ok ((l.take stop).drop start)
  else .error (.slice start stop l.length)

/-- The elements of an array from `start` up to `stop`, as a list. -/
def extract (a : Array α) (start stop : Nat) : Except Fault (List α) :=
  if start ≤ stop ∧ stop ≤ a.size then .ok (a.extract start stop).toList
  else .error (.slice start stop a.size)

/-- The elements for a field of the given width, which they must fill. -/
def fill (width : Nat) (l : List α) : Except Fault (List α) :=
  if l.length = width then .ok l else .error (.width l.length width)

/-- The first `count` pieces of `size` elements. -/
def piecesOf (size : Nat) : Nat → List α → List (List α)
  | 0, _ => []
  | count + 1, l => l.take size :: piecesOf size count (l.drop size)

/-- The pieces of `size` elements; what does not fill a piece is left out. -/
def pieces (size : Nat) (l : List α) : Except Fault (List (List α)) :=
  if size = 0 then .error .emptyPieces else .ok (piecesOf size (l.length / size) l)

theorem item_of_lt {a : Array α} {i : Nat} (h : i < a.size) : item a i = .ok a[i] := by
  rw [item, Array.getElem?_eq_getElem h]

theorem slice_of_le {l : List α} {start stop : Nat} (h : start ≤ stop) (h' : stop ≤ l.length) :
    slice l start stop = .ok ((l.take stop).drop start) := if_pos ⟨h, h'⟩

theorem extract_of_le {a : Array α} {start stop : Nat} (h : start ≤ stop) (h' : stop ≤ a.size) :
    extract a start stop = .ok (a.extract start stop).toList := if_pos ⟨h, h'⟩

@[simp] theorem fill_length (l : List α) : fill l.length l = .ok l := if_pos rfl

theorem fill_of_length {width : Nat} {l : List α} (h : l.length = width) : fill width l = .ok l :=
  if_pos h

theorem pieces_of_pos {size : Nat} (h : 0 < size) (l : List α) :
    pieces size l = .ok (piecesOf size (l.length / size) l) :=
  if_neg (by omega)

@[simp] theorem length_piecesOf (size count : Nat) (l : List α) :
    (piecesOf size count l).length = count := by
  induction count generalizing l with
  | zero => rfl
  | succ n ih => simp [piecesOf, ih]

end Mdf.Checked
