import Mdf.Proofs.FileSystem.Output

/-!
# Making directories on a tree

`Makes` says how making a directory and the ones above it can go.  Whether or not it succeeds,
everything that was there stays, and what is new is a directory on the way to the path
(`prepares_makeDirectories`).  On success there is a directory at the path
(`get?_of_makeDirectories`), and where there is one nothing is made (`makeDirectories_of_get?`).
-/

namespace Mdf

/-! ### Paths above a path -/

namespace Path

variable {p a q : Path}

lemma length_skipTail_le (r : List Char) : (skipTail r).length ≤ r.length := by
  induction r using skipTail.induct with
  | case1 r ih =>
    rw [skipTail, List.length_cons]
    omega
  | case2 r ih =>
    rw [skipTail, List.length_cons, List.length_cons]
    omega
  | case3 r hslash hdot => exact Nat.le_of_eq (congrArg List.length (skipTail.eq_3 r hslash hdot))

lemma skipTail_ne_slash (r s : List Char) : skipTail r ≠ '/' :: s := by
  induction r using skipTail.induct with
  | case1 r ih => rwa [skipTail]
  | case2 r ih => rwa [skipTail]
  | case3 r hslash hdot =>
    rw [skipTail.eq_3 r hslash hdot]
    exact hslash s

/-- The parent of a path is shorter. -/
lemma length_lt_of_parent? (h : p.parent? = some a) : a.text.length < p.text.length := by
  rw [← String.length_toList, ← String.length_toList]
  have hlength := length_skipTail_le p.text.toList.reverse
  rw [List.length_reverse] at hlength
  unfold parent? at h
  cases hr : skipTail p.text.toList.reverse with
  | nil =>
    rw [hr] at h
    cases h
  | cons c r =>
    have hc : c ≠ '/' := fun hc => skipTail_ne_slash _ r (hc ▸ hr)
    have hfirst : (c :: r).dropWhile (· ≠ '/') = r.dropWhile (· ≠ '/') :=
      List.dropWhile_cons_of_pos (by simpa using hc)
    rw [hr] at h hlength
    simp only [hfirst] at h
    rw [List.length_cons] at hlength
    split at h
    · cases h
      split
      · rename_i hroot
        -- the text `/` alone has no parts
        obtain ⟨s, hs⟩ := List.head?_eq_some_iff.mp hroot
        cases s with
        | nil =>
          rw [hs] at hr
          cases hr
        | cons d s =>
          rw [hs]
          simp
      · exact Nat.lt_of_lt_of_le (Nat.succ_pos r.length) hlength
    · cases h
      have hrest := length_skipTail_le (r.dropWhile (· ≠ '/'))
      have hdrop := (List.dropWhile_suffix (l := r) (· ≠ '/')).length_le
      rw [String.toList_ofList, List.length_reverse]
      omega

/-- The path itself, its parent, and what is above that one. -/
inductive Above : Path → Path → Prop
  | refl (p : Path) : Above p p
  | parent {p a q : Path} (h : p.parent? = some a) (ha : Above q a) : Above q p

end Path

namespace Tree

variable {t t' t'' : Tree} {p a : Path} {l k : Location} {r : Except FileError Unit × Tree}

/-! ### New directories on the way to a path -/

/-- The path, or a path above it, leads to the location. -/
def OnTheWay (t : Tree) (p : Path) (k : Location) : Prop := ∃ q, q.Above p ∧ t.location? q = some k

/-- Everything is as before, but for new directories on the way to a path. -/
def Prepares (t t' : Tree) (p : Path) : Prop :=
  ∀ k, t'.entry? k = t.entry? k ∨
    t.entry? k = none ∧ t'.entry? k = some .directory ∧ t'.OnTheWay p k

lemma OnTheWay.of_keepsDirectories (h : t.OnTheWay p k) (ht : t.KeepsDirectories t') :
    t'.OnTheWay p k := by
  obtain ⟨q, hq, hk⟩ := h
  exact ⟨q, hq, ht.location? hk⟩

namespace Prepares

lemma refl (t : Tree) (p : Path) : Prepares t t p := fun _ => .inl rfl

lemma keepsDirectories (h : Prepares t t' p) : t.KeepsDirectories t' := by
  intro k hk
  rcases h k with heq | ⟨hnone, -, -⟩
  · rw [heq, hk]
  · rw [hk] at hnone
    cases hnone

lemma trans (h : Prepares t t' p) (h' : Prepares t' t'' p) : Prepares t t'' p := by
  intro k
  rcases h k with heq | ⟨hnone, hdir, hway⟩
  · rw [← heq]
    exact h' k
  · rw [h'.keepsDirectories k hdir]
    exact .inr ⟨hnone, rfl, hway.of_keepsDirectories h'.keepsDirectories⟩

/-- What is on the way to the parent of a path is on the way to the path. -/
lemma of_parent? (hp : p.parent? = some a) (h : Prepares t t' a) : Prepares t t' p := by
  intro k
  rcases h k with heq | ⟨hnone, hdir, q, hq, hk⟩
  · exact .inl heq
  · exact .inr ⟨hnone, hdir, q, .parent hp hq, hk⟩

end Prepares

lemma ne_nil_of_missing (h : t.entry? l = none) : l ≠ [] :=
  ne_nil_of_not_directory (by rw [h]; simp)

lemma prepares_insert (hl : t.location? p = some l) (he : t.entry? l = none) :
    Prepares t (t.insert l .directory) p := by
  have hlookup := entry?_insert (t := t) (ne_nil_of_missing he) .directory
  have hkeep : t.KeepsDirectories (t.insert l .directory) := by
    intro k hk
    rw [hlookup]
    split
    · rfl
    · exact hk
  intro k
  by_cases hk : k = l
  · subst hk
    exact .inr ⟨he, by rw [hlookup, if_pos rfl], p, .refl p, hkeep.location? hl⟩
  · exact .inl (by rw [hlookup, if_neg hk])

/-! ### Making one directory -/

/-- How making a directory in one that exists can go. -/
inductive MakesOne (t : Tree) (p : Path) : Except FileError Unit × Tree → Prop
  | made {l : Location} (hl : t.location? p = some l) (he : t.entry? l = none) :
      MakesOne t p (.ok (), t.insert l .directory)
  /-- It was there before. -/
  | present (h : t.get? p = some .directory) : MakesOne t p (.ok (), t)
  | failed (e : FileError) : MakesOne t p (.error e, t)

lemma makeDirectory_eq_ok_iff : t.makeDirectory p = .ok t' ↔
    ∃ l, t.location? p = some l ∧ t.entry? l = none ∧ t' = t.insert l .directory := by
  unfold makeDirectory
  cases hl : t.location? p with
  | none =>
    obtain ⟨_, hr⟩ := resolve_of_location?_eq_none hl
    simp [hr]
  | some l =>
    rw [resolve_of_location? hl]
    cases he : t.entry? l with
    | none => simp [he, eq_comm]
    | some e => cases e <;> grind

lemma makesOne_of_ok (h : t.makeDirectory p = .ok t') : MakesOne t p (.ok (), t') := by
  obtain ⟨l, hl, he, rfl⟩ := makeDirectory_eq_ok_iff.mp h
  exact .made hl he

lemma makesOne_isDirectory (t : Tree) (p : Path) (e : FileError) :
    MakesOne t p (if t.get? p == some .directory then .ok () else .error e, t) := by
  split
  · rename_i h
    exact .present (eq_of_beq h)
  · exact .failed e

/-! ### Running the actions -/

lemma makeDirectory_of_ok (h : t.makeDirectory p = .ok t') :
    (FileSystem.makeDirectory p : StateM Tree (Except FileError Unit)) t = (.ok (), t') :=
  commit_of_ok h

lemma makeDirectory_of_error {e : FileError} (h : t.makeDirectory p = .error e) :
    (FileSystem.makeDirectory p : StateM Tree (Except FileError Unit)) t = (.error e, t) :=
  commit_of_error h

lemma isDirectory_apply :
    (FileSystem.isDirectory p : StateM Tree Bool) t = (t.get? p == some .directory, t) := rfl

lemma makesOne_ensureDirectory (t : Tree) (p : Path) :
    MakesOne t p ((FileSystem.ensureDirectory p : StateM Tree (Except FileError Unit)) t) := by
  unfold FileSystem.ensureDirectory
  cases h : t.makeDirectory p with
  | ok t' =>
    rw [bind_apply (makeDirectory_of_ok h)]
    exact makesOne_of_ok h
  | error e =>
    rw [bind_apply (makeDirectory_of_error h)]
    dsimp only
    rw [bind_apply isDirectory_apply]
    exact makesOne_isDirectory t p e

/-- How making a directory and the ones above it can go. -/
inductive Makes : Tree → Path → Except FileError Unit × Tree → Prop
  /-- The empty path needs no directory. -/
  | empty {t : Tree} {p : Path} (hp : p.text = "") : Makes t p (.ok (), t)
  | atOnce {t : Tree} {p : Path} {r : Except FileError Unit × Tree} (h : MakesOne t p r) : Makes t p r
  /-- The directory above cannot be made. -/
  | blocked {t t' : Tree} {p a : Path} {e : FileError} (hp : p.parent? = some a)
      (ha : Makes t a (.error e, t')) : Makes t p (.error e, t')
  /-- The directory above is made first. -/
  | afterParent {t t' : Tree} {p a : Path} {r : Except FileError Unit × Tree} (hp : p.parent? = some a)
      (ha : Makes t a (.ok (), t')) (h : MakesOne t' p r) : Makes t p r

/-- **Making directories goes one of these ways.** -/
theorem makes_makeDirectoriesWithin {n : Nat} (hn : p.text.length ≤ n) (t : Tree) :
    Makes t p
      ((FileSystem.makeDirectoriesWithin n p : StateM Tree (Except FileError Unit)) t) := by
  induction n generalizing p t with
  | zero => exact .empty (String.length_eq_zero_iff.mp (Nat.le_zero.mp hn))
  | succ n ih =>
    rw [FileSystem.makeDirectoriesWithin]
    split
    · rename_i hp
      exact .empty hp
    cases h : t.makeDirectory p with
    | ok t' =>
      rw [bind_apply (makeDirectory_of_ok h)]
      exact .atOnce (makesOne_of_ok h)
    | error e =>
      rw [bind_apply (makeDirectory_of_error h)]
      cases e with
      | notFound =>
        cases hp : p.parent? with
        | none => exact .atOnce (.failed .notFound)
        | some above =>
          dsimp only
          have hshorter := Path.length_lt_of_parent? hp
          have ha := ih (p := above) (by omega) t
          cases hr : (FileSystem.makeDirectoriesWithin n above :
              StateM Tree (Except FileError Unit)) t with
          | mk r t' =>
            rw [hr] at ha
            rw [bind_apply hr]
            cases r with
            | ok _ => exact .afterParent hp ha (makesOne_ensureDirectory t' p)
            | error e => exact .blocked hp ha
      | _ =>
        dsimp only
        rw [bind_apply isDirectory_apply]
        exact .atOnce (makesOne_isDirectory t p _)

lemma makes_makeDirectories (t : Tree) (p : Path) :
    Makes t p ((FileSystem.makeDirectories p : StateM Tree (Except FileError Unit)) t) :=
  makes_makeDirectoriesWithin (Nat.le_refl _) t

/-! ### What is there afterwards -/

lemma MakesOne.prepares (h : MakesOne t p r) : Prepares t r.2 p := by
  cases h with
  | made hl he => exact prepares_insert hl he
  | present _ => exact .refl t p
  | failed _ => exact .refl t p

lemma Makes.prepares (h : Makes t p r) : Prepares t r.2 p := by
  induction h with
  | empty _ => exact .refl _ _
  | atOnce h => exact h.prepares
  | blocked hp _ ih => exact ih.of_parent? hp
  | afterParent hp _ h ih => exact (ih.of_parent? hp).trans h.prepares

lemma MakesOne.get?_of_ok (h : MakesOne t p r) (hr : r.1 = .ok ()) :
    r.2.get? p = some .directory := by
  cases h with
  | made hl he =>
    have hlocation := (prepares_insert hl he).keepsDirectories.location? hl
    refine get?_eq_some_iff.mpr ⟨_, hlocation, ?_, .inl rfl⟩
    rw [entry?_insert (ne_nil_of_missing he), if_pos rfl]
  | present h => exact h
  | failed _ => cases hr

lemma Makes.get?_of_ok (h : Makes t p r) (hr : r.1 = .ok ()) :
    p.text = "" ∨ r.2.get? p = some .directory := by
  cases h with
  | empty hp => exact .inl hp
  | atOnce h => exact .inr (h.get?_of_ok hr)
  | blocked _ _ => cases hr
  | afterParent _ _ h => exact .inr (h.get?_of_ok hr)

/-- **Making directories keeps everything that is there**, and makes new directories on the way to
the path only, whether or not it succeeds. -/
theorem prepares_makeDirectories (t : Tree) (p : Path) :
    Prepares t ((FileSystem.makeDirectories p : StateM Tree (Except FileError Unit)) t).2 p :=
  (makes_makeDirectories t p).prepares

/-- On success there is a directory at the path. -/
theorem get?_of_makeDirectories
    (h : (FileSystem.makeDirectories p : StateM Tree (Except FileError Unit)) t = (.ok (), t')) :
    p.text = "" ∨ t'.get? p = some .directory := by
  have hmakes := makes_makeDirectories t p
  rw [h] at hmakes
  exact hmakes.get?_of_ok rfl

lemma exists_makeDirectories_eq (hp : p.text ≠ "") : ∃ n,
    (FileSystem.makeDirectories p : StateM Tree (Except FileError Unit)) =
      FileSystem.makeDirectoriesWithin (n + 1) p := by
  have hlength : p.text.length ≠ 0 := fun hzero => hp (String.length_eq_zero_iff.mp hzero)
  obtain ⟨n, hn⟩ := Nat.exists_eq_succ_of_ne_zero hlength
  exact ⟨n, by rw [FileSystem.makeDirectories, hn]⟩

/-- In a directory that exists, one directory is made. -/
theorem makeDirectories_of_missing (hl : t.location? p = some l) (he : t.entry? l = none) :
    (FileSystem.makeDirectories p : StateM Tree (Except FileError Unit)) t =
      (.ok (), t.insert l .directory) := by
  have hp := (location?_eq_some_iff.mp hl).2.1
  have hmade := makeDirectory_eq_ok_iff.mpr ⟨l, hl, he, rfl⟩
  obtain ⟨n, hn⟩ := exists_makeDirectories_eq hp
  rw [hn, FileSystem.makeDirectoriesWithin, if_neg hp, bind_apply (makeDirectory_of_ok hmade)]
  rfl

/-- Where there is a directory, nothing is to be made. -/
theorem makeDirectories_of_get? (h : p.text = "" ∨ t.get? p = some .directory) :
    (FileSystem.makeDirectories p : StateM Tree (Except FileError Unit)) t = (.ok (), t) := by
  by_cases hp : p.text = ""
  · rw [FileSystem.makeDirectories, hp]
    rfl
  have hdir := h.resolve_left hp
  have hexists : t.makeDirectory p = .error .alreadyExists := by
    obtain ⟨l, hl, he, -⟩ := get?_eq_some_iff.mp hdir
    rw [makeDirectory, resolve_of_location? hl, he]
  obtain ⟨n, hn⟩ := exists_makeDirectories_eq hp
  rw [hn, FileSystem.makeDirectoriesWithin, if_neg hp, bind_apply (makeDirectory_of_error hexists)]
  dsimp only
  rw [bind_apply isDirectory_apply, hdir]
  rfl

end Tree

end Mdf
