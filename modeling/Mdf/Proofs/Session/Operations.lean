import Mathlib.Data.List.Nodup
import Mathlib.Tactic.Common
import Mdf.Session.Basic

/-!
# The states of a session

An `Operation` is what a caller can do with a session, and `Session.run` does one after the other.
`appendChannel_cases` says once what adding a channel can do; from it follows what every session
that can be reached keeps (`Consistent`): the names that are taken are those of the channels, each
of them once, none is that of the master channel, and each channel is as long as the time axis.
-/

namespace Mdf

namespace Session

/-! ### Operations -/

/-- What a caller can do with a session. -/
inductive Operation where
  /-- Chooses how records are kept. -/
  | setStorage (mode : Storage)
  /-- Sets the start of the measurement. -/
  | setStartTime (time : UInt64)
  /-- Sets the comment. -/
  | setComment (text : String)
  /-- Adds a channel. -/
  | appendChannel (time : TimeAxis) (c : NamedChannel)
  /-- Adds the channels of a fixture. -/
  | append (set : FixtureSet)

/-- The answer to an operation, and the session afterwards. -/
def apply (s : Session) : Operation → Except Error Unit × Session
  | .setStorage mode => (.ok (), { s with storage := mode })
  | .setStartTime time => (.ok (), { s with startTime := time })
  | .setComment text => (.ok (), { s with comment := text })
  | .appendChannel time c => s.appendChannel time c
  | .append set => s.append set

/-- The answers to operations, and the session after all of them. -/
def run (s : Session) : List Operation → List (Except Error Unit) × Session
  | [] => ([], s)
  | op :: ops =>
    let (answer, next) := s.apply op
    let (answers, last) := next.run ops
    (answer :: answers, last)

/-- The sessions that a caller can reach. -/
def Reachable (s : Session) : Prop := ∃ version ops, s = ((new version).run ops).2

/-- What every operation keeps is kept by all of them together. -/
lemma run_induction {p : Session → Prop} (step : ∀ s op, p s → p (s.apply op).2) {s : Session}
    (h : p s) (ops : List Operation) : p (s.run ops).2 := by
  induction ops generalizing s with
  | nil => exact h
  | cons op ops ih => exact ih (step s op h)

/-- What holds of a new session and is kept by every operation holds of every reachable session. -/
theorem Reachable.induction {p : Session → Prop} (init : ∀ v, p (new v))
    (step : ∀ s op, p s → p (s.apply op).2) {s : Session} (h : s.Reachable) : p s := by
  obtain ⟨v, ops, rfl⟩ := h
  exact run_induction step (init v) ops

/-! ### Adding a channel -/

/-- The session with an axis, unless it has one. -/
def fixAxis (s : Session) (time : TimeAxis) : Session := { s with time := some (s.time.getD time) }

/-- The session with one more channel. -/
def addChannel (s : Session) (c : NamedChannel) : Session :=
  { s with names := s.names ++ [c.name], channels := s.channels ++ [c] }

lemma fixAxis_eq_self_iff {s : Session} {time : TimeAxis} :
    s.fixAxis time = s ↔ s.time ≠ none := by
  obtain ⟨_, _, _, _, t, _, _⟩ := s
  cases t <;> simp [fixAxis]

lemma length_of_axisDefect? {s : Session} {time : TimeAxis} {c : NamedChannel}
    (h : s.axisDefect? time c = none) : (s.time.getD time).length = time.length := by
  unfold axisDefect? at h
  split at h
  · rename_i ht
    rw [ht, Option.getD_none]
  · rename_i ht
    rw [ht, Option.getD_some]
    split at h
    · cases h
    · rename_i hl
      exact not_ne_iff.mp hl

/-- Adding a channel that is refused does nothing but fix the axis, and adding any other one fixes
the axis and adds the channel. -/
theorem appendChannel_cases (s : Session) (time : TimeAxis) (c : NamedChannel) :
    (∃ e, s.appendChannel time c = (.error e, s.fixAxis time)) ∨
      s.appendChannel time c = (.ok (), (s.fixAxis time).addChannel c) ∧
        c.samples.length = (s.time.getD time).length ∧ c.name ≠ masterName ∧ c.name ∉ s.names := by
  unfold appendChannel
  split
  · rename_i e he
    have ht : s.time ≠ none := by
      intro ht
      simp [axisDefect?, ht] at he
    exact .inl ⟨e, by rw [fixAxis_eq_self_iff.mpr ht]⟩
  · rename_i ha
    simp only
    split
    · rename_i e _
      exact .inl ⟨e, rfl⟩
    · rename_i hc
      unfold channelDefect? at hc
      split at hc
      · cases hc
      · rename_i hl
        split at hc
        · cases hc
        · rename_i hn
          rw [not_or] at hn
          exact .inr ⟨rfl, by rw [length_of_axisDefect? ha]; exact not_ne_iff.mp hl, hn⟩

/-! ### The revision -/

lemma version_appendAll (s : Session) (time : TimeAxis) (cs : List NamedChannel) :
    (s.appendAll time cs).2.version = s.version := by
  induction cs generalizing s with
  | nil => rfl
  | cons c cs ih =>
    unfold appendAll
    rcases s.appendChannel_cases time c with ⟨e, he⟩ | ⟨he, -⟩
    · rw [he]
      rfl
    · rw [he]
      exact ih _

/-- No operation changes the revision. -/
lemma version_run (v : Version) (ops : List Operation) : ((new v).run ops).2.version = v := by
  refine run_induction (p := fun s => s.version = v) (fun s op hs => ?_) rfl ops
  cases op with
  | setStorage mode => exact hs
  | setStartTime time => exact hs
  | setComment text => exact hs
  | appendChannel time c =>
    rcases s.appendChannel_cases time c with ⟨e, he⟩ | ⟨he, -⟩
    · rw [apply, he]
      exact hs
    · rw [apply, he]
      exact hs
  | append set => exact (version_appendAll s set.time set.channels).trans hs

/-! ### The channels of a run -/

/-- Which of some channels are added, one after the other: those before the first refused one. -/
def accepted (s : Session) (time : TimeAxis) : List NamedChannel → List NamedChannel
  | [] => []
  | c :: cs =>
    match s.appendChannel time c with
    | (.ok (), next) => c :: next.accepted time cs
    | (.error _, _) => []

/-- The channels that an operation adds. -/
def added (s : Session) : Operation → List NamedChannel
  | .appendChannel time c => s.accepted time [c]
  | .append set => s.accepted set.time set.channels
  | _ => []

/-- The channels that operations add, in order. -/
def addedBy (s : Session) : List Operation → List NamedChannel
  | [] => []
  | op :: ops => s.added op ++ (s.apply op).2.addedBy ops

lemma channels_appendAll (s : Session) (time : TimeAxis) (cs : List NamedChannel) :
    (s.appendAll time cs).2.channels = s.channels ++ s.accepted time cs := by
  induction cs generalizing s with
  | nil => exact (List.append_nil _).symm
  | cons c cs ih =>
    unfold appendAll accepted
    rcases s.appendChannel_cases time c with ⟨e, he⟩ | ⟨he, -⟩
    · rw [he]
      exact (List.append_nil _).symm
    · rw [he]
      exact (ih _).trans (List.append_assoc ..)

lemma appendChannel_eq_appendAll (s : Session) (time : TimeAxis) (c : NamedChannel) :
    s.appendChannel time c = s.appendAll time [c] := by
  unfold appendAll
  split
  · rename_i h
    exact h
  · rename_i h
    exact h

lemma channels_apply (s : Session) (op : Operation) :
    (s.apply op).2.channels = s.channels ++ s.added op := by
  cases op with
  | setStorage mode => exact (List.append_nil _).symm
  | setStartTime time => exact (List.append_nil _).symm
  | setComment text => exact (List.append_nil _).symm
  | appendChannel time c =>
    rw [apply, appendChannel_eq_appendAll]
    exact channels_appendAll s time [c]
  | append set => exact channels_appendAll s set.time set.channels

/-- **A session holds the channels that were added**, in order. -/
theorem channels_run (s : Session) (ops : List Operation) :
    (s.run ops).2.channels = s.channels ++ s.addedBy ops := by
  induction ops generalizing s with
  | nil => exact (List.append_nil _).symm
  | cons op ops ih =>
    rw [addedBy, ← List.append_assoc, ← channels_apply]
    exact ih _

/-! ### What every reachable session keeps -/

/-- The state of a session fits together. -/
structure Consistent (s : Session) : Prop where
  /-- The names that are taken are those of the channels. -/
  names : s.names = s.channels.map NamedChannel.name
  /-- No name is taken twice. -/
  nodup : s.names.Nodup
  /-- The name of the master channel is not among them. -/
  reserved : masterName ∉ s.names
  /-- Each channel has a sample for each time. -/
  lengths : ∀ c ∈ s.channels, ∃ t, s.time = some t ∧ c.samples.length = t.length

theorem consistent_new (v : Version) : (new v).Consistent :=
  ⟨rfl, List.nodup_nil, List.not_mem_nil, fun _ h => absurd h List.not_mem_nil⟩

lemma Consistent.fixAxis {s : Session} (h : s.Consistent) (time : TimeAxis) :
    (s.fixAxis time).Consistent := by
  refine ⟨h.names, h.nodup, h.reserved, fun c hc => ?_⟩
  obtain ⟨t, ht, hl⟩ := h.lengths c hc
  exact ⟨t, by rw [Session.fixAxis, ht]; rfl, hl⟩

theorem Consistent.appendChannel {s : Session} (h : s.Consistent) (time : TimeAxis)
    (c : NamedChannel) : (s.appendChannel time c).2.Consistent := by
  rcases s.appendChannel_cases time c with ⟨e, he⟩ | ⟨he, hl, hm, hn⟩
  · rw [he]
    exact h.fixAxis time
  · rw [he]
    have hf := h.fixAxis time
    refine ⟨?_, ?_, ?_, ?_⟩
    · simp only [addChannel, hf.names, List.map_append, List.map_cons, List.map_nil]
    · refine List.nodup_append.mpr ⟨hf.nodup, List.nodup_singleton _, ?_⟩
      rintro a ha b hb rfl
      rw [List.mem_singleton] at hb
      exact hn (hb ▸ ha)
    · intro hmem
      rcases List.mem_append.mp hmem with hmem | hmem
      · exact hf.reserved hmem
      · exact hm (List.mem_singleton.mp hmem).symm
    · intro d hd
      rcases List.mem_append.mp hd with hd | hd
      · exact hf.lengths d hd
      · rw [List.mem_singleton.mp hd]
        exact ⟨_, rfl, hl⟩

theorem Consistent.appendAll {s : Session} (h : s.Consistent) (time : TimeAxis)
    (cs : List NamedChannel) : (s.appendAll time cs).2.Consistent := by
  induction cs generalizing s with
  | nil => exact h
  | cons c cs ih =>
    have hc := h.appendChannel time c
    unfold Session.appendAll
    split
    · rename_i he
      rw [he] at hc
      exact ih hc
    · rename_i he
      rw [he] at hc
      exact hc

theorem Consistent.apply {s : Session} (h : s.Consistent) (op : Operation) :
    (s.apply op).2.Consistent := by
  cases op with
  | setStorage mode => exact ⟨h.names, h.nodup, h.reserved, h.lengths⟩
  | setStartTime time => exact ⟨h.names, h.nodup, h.reserved, h.lengths⟩
  | setComment text => exact ⟨h.names, h.nodup, h.reserved, h.lengths⟩
  | appendChannel time c => exact h.appendChannel time c
  | append set => exact h.appendAll set.time set.channels

/-- **Every reachable session is consistent.** -/
theorem Reachable.consistent {s : Session} (h : s.Reachable) : s.Consistent :=
  h.induction consistent_new fun _ op hs => hs.apply op

end Session

end Mdf
