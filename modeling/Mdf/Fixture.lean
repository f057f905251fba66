import Mdf.Sample

/-!
# Fixtures

A fixture is a time axis and channels as long as the axis, of pairwise different names.
`TimeAxis.ofList` accepts the strictly increasing axes and names the first place where another one
does not increase.  `FixtureSet.ofChannels` accepts the fixtures and names the first channel that
spoils another set.
-/

namespace Mdf

structure TimeAxis where
  values : List Double
deriving DecidableEq, Repr

namespace TimeAxis

/-- The index of the first time that is not above the one before it; the head has index `i`. -/
def descent? (i : Nat) : List Double → Option Nat
  | x :: y :: r => if x.lt y then descent? (i + 1) (y :: r) else some (i + 1)
  | _ => none

/-- The index at which a list is no axis: a place where it does not increase, or a lone NaN. -/
def defect? (values : List Double) : Option Nat :=
  match descent? 0 values with
  | some i => some i
  | none => if values.head?.any Binary.isNaN then some 0 else none

/-- The axis of the given times, which must increase strictly. -/
def ofList (values : List Double) : Except Error TimeAxis :=
  match defect? values with
  | some i => .error (.nonMonotonicTimeAxis i)
  | none => .ok ⟨values⟩

/-- The axis 0, 1, … of the given length. -/
def sequential (n : Nat) : TimeAxis := ⟨(List.range n).map (Binary.ofNat .double)⟩

def length (t : TimeAxis) : Nat := t.values.length

def isEmpty (t : TimeAxis) : Bool := t.values.isEmpty

/-- Whether two axes are equal as lists of numbers. -/
def same (a b : TimeAxis) : Bool := Binary.ieeeEqAll a.values b.values

@[simp] theorem length_sequential (n : Nat) : (sequential n).length = n := by
  simp [sequential, length]

end TimeAxis

structure NamedChannel where
  name : String
  samples : Samples
deriving DecidableEq, Repr

def NamedChannel.kind (c : NamedChannel) : Kind := c.samples.kind

namespace FixtureSet

/-- The first reason for which a channel spoils a set, given the names before it.  A repeated name
goes before a wrong length. -/
def defect? (records : Nat) (seen : List String) : List NamedChannel → Option Error
  | [] => none
  | c :: cs =>
    if c.name ∈ seen then some (.duplicateChannel c.name)
    else if c.samples.length ≠ records then
      some (.lengthMismatch c.name records c.samples.length)
    else defect? records (c.name :: seen) cs

end FixtureSet

/-- Channels of pairwise different names on one time axis. -/
structure FixtureSet where
  time : TimeAxis
  channels : List NamedChannel
  channels_ne_nil : channels ≠ []
  /-- No channel repeats a name or is of another length than the axis. -/
  defect?_eq_none : FixtureSet.defect? time.length [] channels = none

namespace FixtureSet

/-- The set of the given channels. -/
def ofChannels (time : TimeAxis) (channels : List NamedChannel) : Except Error FixtureSet :=
  if hne : channels = [] then .error .emptyFixture
  else
    match h : defect? time.length [] channels with
    | some e => .error e
    | none => .ok ⟨time, channels, hne, h⟩

def channel? (s : FixtureSet) (name : String) : Option NamedChannel :=
  s.channels.find? fun c => c.name == name

def recordCount (s : FixtureSet) : Nat := s.time.length

/-- One channel per kind, each with the boundary values of its kind. -/
def primitives : FixtureSet where
  time := .sequential 3
  channels := Kind.all.map fun k => ⟨k.code, .boundary k⟩
  channels_ne_nil := by decide
  defect?_eq_none := by decide

theorem defect?_eq_none_iff {n : Nat} {seen : List String} {cs : List NamedChannel} :
    defect? n seen cs = none ↔
      (cs.map NamedChannel.name).Nodup ∧ (∀ c ∈ cs, c.name ∉ seen) ∧
        ∀ c ∈ cs, c.samples.length = n := by
  induction cs generalizing seen with
  | nil => simp [defect?]
  | cons c cs ih =>
    by_cases hs : c.name ∈ seen
    · simp [defect?, hs]
    by_cases hl : c.samples.length = n
    · simp only [defect?, hs, hl, ih, List.map_cons, List.nodup_cons, List.mem_map,
        List.mem_cons, forall_eq_or_imp, if_false, ne_eq, not_true_eq_false, not_or, true_and,
        not_false_eq_true, not_exists, not_and]
      constructor
      · rintro ⟨hn, hc, hr⟩
        exact ⟨⟨fun x hx => (hc x hx).1, hn⟩, fun x hx => (hc x hx).2, hr⟩
      · rintro ⟨⟨h, hn⟩, hc, hr⟩
        exact ⟨hn, fun x hx => ⟨h x hx, hc x hx⟩, hr⟩
    · simp [defect?, hs, hl]

end FixtureSet

end Mdf
