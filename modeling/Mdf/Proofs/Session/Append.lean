import Mdf.Proofs.Result
import Mdf.Proofs.Session.Operations
import Mdf.Proofs.TimeAxis

/-!
# Appending a set

The channels of a set are added one after the other, up to the first that is refused, and those
before it stay.  An axis that does not fit refuses the first channel, and nothing changes; on an
axis that fits, the first channel whose name is reserved or taken is refused (`append_cases`).
-/

namespace Mdf

namespace Session

variable {s s' : Session} {time : TimeAxis} {c : NamedChannel} {cs pre post : List NamedChannel}

/-! ### One channel -/

/-- Channels on the axis can be added: the session has no axis yet, or the same one. -/
def Fits (s : Session) (time : TimeAxis) : Prop :=
  ∀ current ∈ s.time, current.length = time.length ∧ current.same time = true

/-- The name of the channel is reserved or taken. -/
def Refuses (s : Session) (c : NamedChannel) : Prop := c.name = masterName ∨ c.name ∈ s.names

instance (s : Session) : DecidablePred s.Refuses := fun c =>
  inferInstanceAs (Decidable (c.name = masterName ∨ c.name ∈ s.names))

instance (s : Session) : DecidablePred s.Fits := fun time =>
  inferInstanceAs (Decidable (∀ current ∈ s.time, current.length = time.length ∧
    current.same time = true))

lemma axisDefect?_eq_none_iff : s.axisDefect? time c = none ↔ s.Fits time := by
  unfold axisDefect? Fits
  cases s.time with
  | none => simp
  | some current =>
    by_cases hl : current.length = time.length
    · by_cases hs : current.same time <;> simp [hl, hs]
    · simp [hl]

/-- The session with more channels. -/
def addChannels (s : Session) (cs : List NamedChannel) : Session :=
  { s with names := s.names ++ cs.map NamedChannel.name, channels := s.channels ++ cs }

@[simp] lemma addChannels_nil (s : Session) : s.addChannels [] = s := by
  simp [addChannels]

lemma addChannels_cons (s : Session) (c : NamedChannel) (cs : List NamedChannel) :
    s.addChannels (c :: cs) = (s.addChannel c).addChannels cs := by
  simp [addChannels, addChannel]

lemma addChannels_eq_self_iff : s.addChannels cs = s ↔ cs = [] := by
  constructor
  · intro h
    simpa [addChannels] using congrArg Session.channels h
  · rintro rfl
    exact addChannels_nil s

lemma refuses_addChannel {d : NamedChannel} (h : d.name ≠ c.name) :
    (s.addChannel c).Refuses d ↔ s.Refuses d := by
  simp [Refuses, addChannel, h]

lemma refuses_addChannels (cs : List NamedChannel) (h : s.Refuses c) :
    (s.addChannels cs).Refuses c :=
  h.imp_right fun hmem => List.mem_append_left _ hmem

/-- On an axis that fits, a channel of its length is added unless its name refuses it. -/
lemma appendChannel_eq (hf : s.Fits time) (hl : c.samples.length = time.length) :
    s.appendChannel time c =
      if s.Refuses c then (.error (.duplicateChannel c.name), s.fixAxis time)
      else (.ok (), (s.fixAxis time).addChannel c) := by
  unfold appendChannel
  rw [axisDefect?_eq_none_iff.mpr hf]
  simp only [channelDefect?, if_neg (not_not_intro hl)]
  by_cases hr : s.Refuses c
  · rw [if_pos hr, if_pos (show c.name = masterName ∨ c.name ∈ s.names from hr)]
    rfl
  · rw [if_neg hr, if_neg (show ¬(c.name = masterName ∨ c.name ∈ s.names) from hr)]
    rfl

/-! ### Several channels -/

lemma fits_fixAxis (hf : s.Fits time) (ht : time.Built) : (s.fixAxis time).Fits time := by
  intro current hc
  rw [← Option.some.inj hc]
  cases hs : s.time with
  | none => exact ⟨rfl, ht.same_self⟩
  | some t => exact hf t hs

/-- To fix the axis first makes no difference to what is appended. -/
lemma appendAll_fixAxis (hf : s.Fits time) (ht : time.Built) (hne : cs ≠ []) :
    (s.fixAxis time).appendAll time cs = s.appendAll time cs := by
  have hfix : { s.fixAxis time with time := some ((s.fixAxis time).time.getD time) } =
      s.fixAxis time := fixAxis_eq_self_iff.mpr (Option.some_ne_none _)
  obtain ⟨c, cs, rfl⟩ := List.exists_cons_of_ne_nil hne
  have hc : (s.fixAxis time).appendChannel time c = s.appendChannel time c := by
    unfold appendChannel
    rw [axisDefect?_eq_none_iff.mpr hf, axisDefect?_eq_none_iff.mpr (fits_fixAxis hf ht)]
    simp only [hfix]
    rfl
  unfold appendAll
  rw [hc]

/-- Channels that no name refuses are added before any others. -/
lemma appendAll_append (hs : s.time ≠ none) (hf : s.Fits time)
    (hl : ∀ c ∈ pre, c.samples.length = time.length) (hn : (pre.map NamedChannel.name).Nodup)
    (hr : ∀ c ∈ pre, ¬s.Refuses c) :
    s.appendAll time (pre ++ post) = (s.addChannels pre).appendAll time post := by
  induction pre generalizing s with
  | nil => rw [List.nil_append, addChannels_nil]
  | cons c pre ih =>
    obtain ⟨hlc, hl⟩ := List.forall_mem_cons.mp hl
    obtain ⟨hrc, hr⟩ := List.forall_mem_cons.mp hr
    rw [List.map_cons, List.nodup_cons] at hn
    have hc : s.appendChannel time c = (.ok (), s.addChannel c) := by
      rw [appendChannel_eq hf hlc, if_neg hrc, fixAxis_eq_self_iff.mpr hs]
    have hrest : ∀ d ∈ pre, ¬(s.addChannel c).Refuses d := by
      intro d hd
      have hne : d.name ≠ c.name := fun h => hn.1 (h ▸ List.mem_map_of_mem hd)
      rw [refuses_addChannel hne]
      exact hr d hd
    rw [List.cons_append, appendAll, hc, addChannels_cons]
    exact ih (s := s.addChannel c) hs hf hl hn.2 hrest

lemma appendAll_of_refuses (hs : s.time ≠ none) (hf : s.Fits time)
    (hl : c.samples.length = time.length) (hr : s.Refuses c) :
    s.appendAll time (c :: cs) = (.error (.duplicateChannel c.name), s) := by
  rw [appendAll, appendChannel_eq hf hl, if_pos hr, fixAxis_eq_self_iff.mpr hs]

/-! ### A set -/

lemma append_of_fits {set : FixtureSet} (hf : s.Fits set.time) (ht : set.time.Built) :
    s.append set = (s.fixAxis set.time).appendAll set.time set.channels :=
  (appendAll_fixAxis hf ht set.channels_ne_nil).symm

/-- An axis that does not fit refuses the first channel, and nothing changes. -/
lemma append_of_not_fits {set : FixtureSet} (hf : ¬s.Fits set.time) :
    ∃ c e, set.channels.head? = some c ∧ s.axisDefect? set.time c = some e ∧
      s.append set = (.error e, s) := by
  obtain ⟨c, cs, hc⟩ := List.exists_cons_of_ne_nil set.channels_ne_nil
  obtain ⟨e, he⟩ := Option.ne_none_iff_exists'.mp (mt axisDefect?_eq_none_iff.mp hf : _ ≠ none)
  refine ⟨c, e, by rw [hc, List.head?_cons], he, ?_⟩
  have hrefused : s.appendChannel set.time c = (.error e, s) := by
    unfold appendChannel
    rw [he]
  rw [append, hc, appendAll, hrefused]

/-- **What becomes of a set that is appended.**  If the axis fits and no name is reserved or taken,
all channels are added behind the others, in order.  If the axis does not fit, nothing changes.
Otherwise the channels before the first of a reserved or taken name are added, and it is refused; in
a session that has an axis nothing changes exactly if that is the first channel of the set. -/
theorem append_cases {set : FixtureSet} {r : Except Error Unit} (ht : set.time.Built)
    (h : s.append set = (r, s')) :
    (r = .ok () ∧ s.Fits set.time ∧ (∀ c ∈ set.channels, ¬s.Refuses c) ∧
        s' = (s.fixAxis set.time).addChannels set.channels) ∨
      (¬s.Fits set.time ∧ s' = s ∧
        ∃ c e, set.channels.head? = some c ∧ s.axisDefect? set.time c = some e ∧ r = .error e) ∨
      (s.Fits set.time ∧ ∃ pre c post, set.channels = pre ++ c :: post ∧
        (∀ d ∈ pre, ¬s.Refuses d) ∧ s.Refuses c ∧ r = .error (.duplicateChannel c.name) ∧
        s'.channels = s.channels ++ pre ∧ s'.names = s.names ++ pre.map NamedChannel.name ∧
        (s.time ≠ none ∨ pre ≠ [] → s' = (s.fixAxis set.time).addChannels pre) ∧
        (s.time ≠ none → (s' = s ↔ pre = []))) := by
  obtain ⟨hnodup, -, hlengths⟩ := FixtureSet.defect?_eq_none_iff.mp set.defect?_eq_none
  by_cases hf : s.Fits set.time
  swap
  · obtain ⟨c, e, hc, he, happend⟩ := append_of_not_fits hf
    cases happend.symm.trans h
    exact .inr (.inl ⟨hf, rfl, c, e, hc, he, rfl⟩)
  have hs : (s.fixAxis set.time).time ≠ none := Option.some_ne_none _
  have hfix := fits_fixAxis hf ht
  rw [append_of_fits hf ht] at h
  cases hfind : set.channels.find? (fun c => decide (s.Refuses c)) with
  | none =>
    have hr : ∀ c ∈ set.channels, ¬s.Refuses c := by
      simpa using List.find?_eq_none.mp hfind
    have hall : (s.fixAxis set.time).appendAll set.time (set.channels ++ []) = _ :=
      appendAll_append hs hfix hlengths hnodup hr
    rw [List.append_nil] at hall
    cases hall.symm.trans h
    exact .inl ⟨rfl, hf, hr, rfl⟩
  | some c =>
    obtain ⟨hc, pre, post, hsplit, hpre⟩ := List.find?_eq_some_iff_append.mp hfind
    have hr : ∀ d ∈ pre, ¬s.Refuses d := by simpa using hpre
    rw [hsplit] at hnodup hlengths h
    rw [List.map_append, List.map_cons] at hnodup
    have hpart : (s.fixAxis set.time).appendAll set.time (pre ++ c :: post) = _ :=
      appendAll_append hs hfix (fun d hd => hlengths d (List.mem_append_left _ hd))
        hnodup.of_append_left hr
    have hrefused : ((s.fixAxis set.time).addChannels pre).Refuses c :=
      refuses_addChannels pre (of_decide_eq_true hc)
    have hlast : ((s.fixAxis set.time).addChannels pre).appendAll set.time (c :: post) = _ :=
      appendAll_of_refuses hs hfix (hlengths c (List.mem_append_right _ List.mem_cons_self))
        hrefused
    cases (hpart.trans hlast).symm.trans h
    refine .inr (.inr ⟨hf, pre, c, post, hsplit, hr, of_decide_eq_true hc, rfl, rfl, rfl,
      fun _ => rfl, fun hne => ?_⟩)
    rw [fixAxis_eq_self_iff.mpr hne]
    exact addChannels_eq_self_iff

/-- A session with a channel `a`. -/
def occupied : Session :=
  ((new .v410).run [.appendChannel (.sequential 1) ⟨"a", ⟨.uint8, [1]⟩⟩]).2

/-- A set in which `a` is the second channel. -/
def clashing : FixtureSet :=
  ⟨.sequential 1, [⟨"b", ⟨.uint8, [2]⟩⟩, ⟨"a", ⟨.uint8, [3]⟩⟩], by decide, by decide⟩

theorem append_cases_clashing :
    ∃ s' : Session, occupied.append clashing = (.error (.duplicateChannel "a"), s') ∧
      s' = occupied.addChannels [⟨"b", ⟨.uint8, [2]⟩⟩] := by
  have hbuilt : clashing.time.Built := .sequential (by decide)
  have hr : occupied.append clashing =
      (.error (.duplicateChannel "a"), (occupied.append clashing).2) := by decide
  refine ⟨_, hr, ?_⟩
  obtain ⟨h, -⟩ | ⟨hf, -⟩ | ⟨-, pre, c, post, hsplit, -, -, he, -, -, hs, -⟩ :=
    append_cases hbuilt hr
  · cases h
  · exact absurd (by decide) hf
  · rw [hs (.inl (by decide)), fixAxis_eq_self_iff.mpr (by decide)]
    -- the channel that is refused is the second one, so one stands before it
    cases pre with
    | nil =>
      cases hsplit
      exact absurd he (by decide)
    | cons d pre =>
      cases pre with
      | nil =>
        cases hsplit
        rfl
      | cons _ _ => simp [clashing] at hsplit

/-- A set of which a channel is refused can change the session: the channels before that one are
kept. -/
theorem append_keeps_earlier :
    ∃ s' : Session, occupied.Reachable ∧ clashing.time.Built ∧
      occupied.append clashing = (.error (.duplicateChannel "a"), s') ∧
      occupied.channelCount = 1 ∧ s'.channelCount = 2 ∧ "b" ∈ s'.names ∧ s' ≠ occupied :=
  ⟨occupied.addChannels [⟨"b", ⟨.uint8, [2]⟩⟩], ⟨_, _, rfl⟩, .sequential (by decide), by decide,
    by decide, by decide, by decide, by decide⟩

end Session

end Mdf
