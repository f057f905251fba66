import Mdf.Proofs.Session.Append

/-!
# Fixtures and the sessions that take them

The check of a set and that of a session agree.  A list of channels is a set exactly if it is not
empty, no two names are equal, and each channel is as long as the axis; otherwise the first channel
that breaks a rule is named (`ofChannels_eq_error_iff`).  A session to which no channel has been
offered takes every set in which no channel is named as the master channel, and holds it then as it is
(`taken_ofChannels`).
-/

namespace Mdf

namespace FixtureSet

variable {n : Nat} {seen : List String} {c : NamedChannel} {cs : List NamedChannel} {e : Error}
  {time : TimeAxis}

/-! ### The channel that spoils a set -/

/-- The error that a channel brings about behind channels of the given names, in a set of `n` records.
A repeated name goes before a wrong length. -/
def Spoils (n : Nat) (names : List String) (c : NamedChannel) (e : Error) : Prop :=
  c.name ∈ names ∧ e = .duplicateChannel c.name ∨
    c.name ∉ names ∧ c.samples.length ≠ n ∧ e = .lengthMismatch c.name n c.samples.length

lemma defect?_cons_eq_some_iff : defect? n seen (c :: cs) = some e ↔ Spoils n seen c e ∨
    (c.name ∉ seen ∧ c.samples.length = n) ∧ defect? n (c.name :: seen) cs = some e := by
  by_cases hs : c.name ∈ seen
  · simp [defect?, Spoils, hs, eq_comm]
  by_cases hl : c.samples.length = n
  · simp [defect?, Spoils, hs, hl]
  · simp [defect?, Spoils, hs, hl, eq_comm]

/-- **The first channel that spoils a list** is the one that the error is about: nothing spoils what
stands before it. -/
theorem defect?_eq_some_iff : defect? n seen cs = some e ↔ ∃ pre c post, cs = pre ++ c :: post ∧
    defect? n seen pre = none ∧ Spoils n ((pre.map NamedChannel.name).reverse ++ seen) c e := by
  induction cs generalizing seen with
  | nil => simp [defect?]
  | cons d cs ih =>
    rw [defect?_cons_eq_some_iff]
    constructor
    · rintro (hd | ⟨⟨hs, hl⟩, h⟩)
      · exact ⟨[], d, cs, rfl, rfl, hd⟩
      · obtain ⟨pre, c, post, rfl, hpre, hc⟩ := ih.mp h
        refine ⟨d :: pre, c, post, rfl, ?_, ?_⟩
        · rw [defect?, if_neg hs, if_neg (not_not_intro hl), hpre]
        · simpa using hc
    · rintro ⟨pre, c, post, hsplit, hpre, hc⟩
      cases pre with
      | nil =>
        cases hsplit
        exact .inl hc
      | cons d' pre =>
        cases hsplit
        rw [defect?] at hpre
        split_ifs at hpre with hs hl
        refine .inr ⟨⟨hs, not_not.mp hl⟩, ih.mpr ⟨pre, c, post, rfl, hpre, ?_⟩⟩
        simpa using hc

/-! ### The check of a set -/

/-- The channels of a set: not none, of different names, each as long as the axis. -/
structure Proper (time : TimeAxis) (cs : List NamedChannel) : Prop where
  ne_nil : cs ≠ []
  nodup : (cs.map NamedChannel.name).Nodup
  lengths : ∀ c ∈ cs, c.samples.length = time.length

lemma defect?_nil_eq_none_iff : defect? n [] cs = none ↔
    (cs.map NamedChannel.name).Nodup ∧ ∀ c ∈ cs, c.samples.length = n := by
  rw [defect?_eq_none_iff]
  simp

lemma ofChannels_eq_ok_iff {set : FixtureSet} : ofChannels time cs = .ok set ↔
    Proper time cs ∧ set.time = time ∧ set.channels = cs := by
  unfold ofChannels
  split
  · rename_i hnil
    exact iff_of_false (by simp) fun h => h.1.ne_nil hnil
  rename_i hne
  split
  · rename_i e he
    refine iff_of_false (by simp) fun h => ?_
    rw [defect?_nil_eq_none_iff.mpr ⟨h.1.nodup, h.1.lengths⟩] at he
    cases he
  · rename_i hnone
    obtain ⟨hnodup, hlengths⟩ := defect?_nil_eq_none_iff.mp hnone
    obtain ⟨time', channels', _, _⟩ := set
    simp only [Except.ok.injEq, FixtureSet.mk.injEq]
    exact ⟨fun h => ⟨⟨hne, hnodup, hlengths⟩, h.1.symm, h.2.symm⟩,
      fun h => ⟨h.2.1.symm, h.2.2.symm⟩⟩

/-- **A list that is no set** is empty, or has a first channel that spoils it. -/
theorem ofChannels_eq_error_iff : ofChannels time cs = .error e ↔
    cs = [] ∧ e = .emptyFixture ∨ ∃ pre c post, cs = pre ++ c :: post ∧
      ((pre.map NamedChannel.name).Nodup ∧ ∀ d ∈ pre, d.samples.length = time.length) ∧
      Spoils time.length (pre.map NamedChannel.name) c e := by
  have hdefect : defect? time.length [] cs = some e ↔ _ := defect?_eq_some_iff
  simp only [defect?_nil_eq_none_iff, List.append_nil, Spoils, List.mem_reverse] at hdefect
  simp only [Spoils]
  rw [← hdefect]
  unfold ofChannels
  split
  · rename_i hnil
    rw [hnil]
    simp [defect?, eq_comm]
  rename_i hne
  split
  · rename_i e' he
    rw [he]
    simp [hne]
  · rename_i hnone
    simp [hne, hnone]

end FixtureSet

namespace Session

variable {s : Session} {time : TimeAxis} {cs : List NamedChannel}

/-! ### The check of a session -/

/-- No channel has been offered to the session. -/
structure Fresh (s : Session) : Prop where
  time : s.time = none
  channels : s.channels = []
  names : s.names = []

lemma fresh_new (v : Version) : (new v).Fresh := ⟨rfl, rfl, rfl⟩

/-- The session with the axis and the channels of a set, and nothing else of them. -/
def holding (s : Session) (set : FixtureSet) : Session :=
  { s with time := some set.time, channels := set.channels
           names := set.channels.map NamedChannel.name }

/-- No channel that is added is named as the master channel. -/
lemma name_ne_of_appendAll (h : (s.appendAll time cs).1 = .ok ()) :
    ∀ c ∈ cs, c.name ≠ masterName := by
  induction cs generalizing s with
  | nil => simp
  | cons c cs ih =>
    rw [appendAll] at h
    rcases s.appendChannel_cases time c with ⟨e, he⟩ | ⟨hok, -, hname, -⟩
    · rw [he] at h
      cases h
    · rw [hok] at h
      exact List.forall_mem_cons.mpr ⟨hname, ih h⟩

/-- A fresh session takes a set in which no channel is named as the master channel. -/
lemma Fresh.append_eq (hs : s.Fresh) {set : FixtureSet} (ht : set.time.Built)
    (hn : ∀ c ∈ set.channels, c.name ≠ masterName) : s.append set = (.ok (), s.holding set) := by
  obtain ⟨hnodup, hlengths⟩ := FixtureSet.defect?_nil_eq_none_iff.mp set.defect?_eq_none
  have hf : s.Fits set.time := by
    intro current hc
    rw [hs.time] at hc
    cases hc
  have hr : ∀ c ∈ set.channels, ¬(s.fixAxis set.time).Refuses c := by
    rintro c hc (hname | hname)
    · exact hn c hc hname
    · have hnone : (s.fixAxis set.time).names = [] := hs.names
      rw [hnone] at hname
      cases hname
  have hall : (s.fixAxis set.time).appendAll set.time (set.channels ++ []) = _ :=
    appendAll_append (Option.some_ne_none _) (fits_fixAxis hf ht) hlengths hnodup hr
  rw [List.append_nil] at hall
  rw [append_of_fits hf ht, hall]
  simp [appendAll, addChannels, fixAxis, holding, hs.time, hs.channels, hs.names]

/-- **The check of a set is exact, and a fresh session agrees with it.**  The channels are accepted as
a set exactly if they are proper, the set then holds them as they are, and otherwise the list is empty
or the error is about its first channel that repeats a name or has a wrong length.  A fresh session
takes a set exactly if none of its channels is named as the master channel, and then holds the axis
and the channels of the set. -/
theorem taken_ofChannels (time : TimeAxis) (cs : List NamedChannel) :
    ((∃ set, FixtureSet.ofChannels time cs = .ok set) ↔ cs ≠ [] ∧
        (cs.map NamedChannel.name).Nodup ∧ ∀ c ∈ cs, c.samples.length = time.length) ∧
      (∀ set, FixtureSet.ofChannels time cs = .ok set → set.time = time ∧ set.channels = cs) ∧
      (∀ e, FixtureSet.ofChannels time cs = .error e ↔
        cs = [] ∧ e = .emptyFixture ∨ ∃ pre c post, cs = pre ++ c :: post ∧
          ((pre.map NamedChannel.name).Nodup ∧ ∀ d ∈ pre, d.samples.length = time.length) ∧
          FixtureSet.Spoils time.length (pre.map NamedChannel.name) c e) ∧
      ∀ (set : FixtureSet) (s : Session), set.time.Built → s.Fresh →
        ((s.append set).1 = .ok () ↔ ∀ c ∈ set.channels, c.name ≠ masterName) ∧
        ((s.append set).1 = .ok () → (s.append set).2 = s.holding set) := by
  refine ⟨⟨?_, ?_⟩, fun set h => (FixtureSet.ofChannels_eq_ok_iff.mp h).2,
    fun e => FixtureSet.ofChannels_eq_error_iff, fun set s ht hs => ?_⟩
  · rintro ⟨set, h⟩
    obtain ⟨hproper, -⟩ := FixtureSet.ofChannels_eq_ok_iff.mp h
    exact ⟨hproper.ne_nil, hproper.nodup, hproper.lengths⟩
  · rintro ⟨hne, hnodup, hlengths⟩
    exact ⟨⟨time, cs, hne, FixtureSet.defect?_nil_eq_none_iff.mpr ⟨hnodup, hlengths⟩⟩,
      FixtureSet.ofChannels_eq_ok_iff.mpr ⟨⟨hne, hnodup, hlengths⟩, rfl, rfl⟩⟩
  · have happend : (s.append set).1 = .ok () → ∀ c ∈ set.channels, c.name ≠ masterName :=
      name_ne_of_appendAll
    refine ⟨⟨happend, fun hn => ?_⟩, fun h => ?_⟩
    · rw [hs.append_eq ht hn]
    · rw [hs.append_eq ht (happend h)]

/-- A set with a channel named as the master channel, behind another one. -/
def reserved : FixtureSet :=
  ⟨.sequential 1, [⟨"b", ⟨.uint8, [2]⟩⟩, ⟨"time", ⟨.uint8, [3]⟩⟩], by decide, by decide⟩

/-- A new session takes one set, and another one not. -/
theorem taken_ofChannels_reserved :
    (clashing.time.Built ∧ reserved.time.Built) ∧ (new .v410).Fresh ∧
      (new .v410).append clashing = (.ok (), (new .v410).holding clashing) ∧
      ((new .v410).append reserved).1 ≠ .ok () := by
  have hclashing : clashing.time.Built := .sequential (by decide)
  have hreserved : reserved.time.Built := .sequential (by decide)
  obtain ⟨-, -, -, htakes⟩ := taken_ofChannels clashing.time clashing.channels
  obtain ⟨hok, hholds⟩ := htakes clashing (new .v410) hclashing (fresh_new .v410)
  obtain ⟨hok', -⟩ := htakes reserved (new .v410) hreserved (fresh_new .v410)
  have htaken := hok.mpr (by decide)
  refine ⟨⟨hclashing, hreserved⟩, fresh_new .v410, Prod.ext htaken (hholds htaken), fun h => ?_⟩
  exact absurd rfl (hok'.mp h ⟨"time", ⟨.uint8, [3]⟩⟩ (by decide))

end Session

end Mdf
