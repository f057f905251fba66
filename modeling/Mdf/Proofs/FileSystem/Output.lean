import Mdf.Proofs.FileSystem.Tree
import Mdf.Proofs.Result

/-!
# Writing a target on a tree

`outcome_write` says once how writing a target can end, whatever its content is and whatever the
medium takes of it, `Stored` what a success leaves, and `Outcome.settled` what each end means for the
target, for the temporary file and for everything else.  The temporary file is removed if there is no
content or the medium does not take it.  It stays where it could be made and written but not moved:
beside a target that is a directory, or that has no name.
-/

namespace Mdf

open Mdf.Tree

namespace Tree

variable {t t' : Tree} {p : Path} {l : Location} {e : FileError} {d : List UInt8}

lemma commit_of_ok {change : Tree → Except FileError Tree} (h : change t = .ok t') :
    commit change t = (.ok (), t') := by
  unfold commit
  rw [h]

lemma commit_of_error {change : Tree → Except FileError Tree} (h : change t = .error e) :
    commit change t = (.error e, t) := by
  unfold commit
  rw [h]

lemma bind_apply {α β : Type} {x : StateM Tree α} {f : α → StateM Tree β} {b : α}
    (h : x t = (b, t')) : (x >>= f) t = f b t' := by
  change (x t >>= fun r => f r.1 r.2) = _
  rw [h]
  rfl

lemma put_of_ok (h : t.fileLocation p = .ok l) (d : List UInt8) :
    t.put p d = .ok (t.insert l (.file d)) := by
  rw [put, h]
  rfl

lemma put_of_error (h : t.fileLocation p = .error e) (d : List UInt8) : t.put p d = .error e := by
  rw [put, h]
  rfl

section Operations

variable {medium : Medium}

lemma create_of_ok (h : t.fileLocation p = .ok l) :
    @FileSystem.create (StateM Tree) (fileSystem medium) p t = (.ok (), t.insert l (.file [])) :=
  commit_of_ok (put_of_ok h [])

lemma create_of_error (h : t.fileLocation p = .error e) :
    @FileSystem.create (StateM Tree) (fileSystem medium) p t = (.error e, t) :=
  commit_of_error (put_of_error h [])

lemma write_of_taken (h : t.fileLocation p = .ok l) (hm : medium p d = none) :
    @FileSystem.write (StateM Tree) (fileSystem medium) p d t = (.ok (), t.insert l (.file d)) := by
  change writeOn medium p d t = _
  rw [writeOn, hm]
  exact commit_of_ok (put_of_ok h d)

/-- A medium that stops before the end leaves what it has taken. -/
lemma write_of_shortage {s : Shortage} (h : t.fileLocation p = .ok l) (hm : medium p d = some s) :
    @FileSystem.write (StateM Tree) (fileSystem medium) p d t =
      (.error s.error, t.insert l (.file (d.take s.taken))) := by
  have hput : commit (fun t => t.put p (d.take s.taken)) t =
      (.ok (), t.insert l (.file (d.take s.taken))) := commit_of_ok (put_of_ok h _)
  change writeOn medium p d t = _
  rw [writeOn, hm]
  exact bind_apply hput

lemma remove_of_ok (h : t.locationOfFile p = .ok (l, d)) :
    @FileSystem.remove (StateM Tree) (fileSystem medium) p t = (.ok (), t.erase l) := by
  refine commit_of_ok ?_
  rw [remove, h]
  rfl

lemma rename_of_ok {q : Path} {l' : Location} (h : t.locationOfFile p = .ok (l, d))
    (h' : t.fileLocation q = .ok l') :
    @FileSystem.rename (StateM Tree) (fileSystem medium) p q t =
      (.ok (), (t.erase l).insert l' (.file d)) := by
  refine commit_of_ok ?_
  rw [rename, h]
  change (do let l' ← t.fileLocation q; _) = _
  rw [h']
  rfl

lemma rename_of_error {q : Path} (h : t.locationOfFile p = .ok (l, d))
    (h' : t.fileLocation q = .error e) :
    @FileSystem.rename (StateM Tree) (fileSystem medium) p q t = (.error e, t) := by
  refine commit_of_error ?_
  rw [rename, h]
  change (do let l' ← t.fileLocation q; _) = _
  rw [h']
  rfl

end Operations

end Tree

namespace FileAction

variable {α β : Type}

/-- What an action gives on a tree, and the tree afterwards. -/
def onTree (x : FileAction (StateM Tree) α) (t : Tree) : Except Failure α × Tree :=
  (ExceptT.run x).run t

variable {x : FileAction (StateM Tree) α} {f : α → FileAction (StateM Tree) β} {t t' : Tree}
  {wording : FileError → String} {action : StateM Tree (Except FileError α)}

lemma onTree_bind_of_ok {a : α} (h : x.onTree t = (.ok a, t')) :
    (x >>= f).onTree t = (f a).onTree t' := run_bind_of_run_ok h f

lemma onTree_bind_of_error {e : Failure} (h : x.onTree t = (.error e, t')) :
    (x >>= f).onTree t = (.error e, t') := run_bind_of_run_error h f

lemma onTree_bind_eq_ok_iff {b : β} : (x >>= f).onTree t = (.ok b, t') ↔
    ∃ a t₁, x.onTree t = (.ok a, t₁) ∧ (f a).onTree t₁ = (.ok b, t') := by
  constructor
  · intro h
    cases hx : x.onTree t with
    | mk r t₁ =>
      cases r with
      | error e =>
        rw [onTree_bind_of_error hx] at h
        cases h
      | ok a => exact ⟨a, t₁, rfl, (onTree_bind_of_ok hx).symm.trans h⟩
  · rintro ⟨a, t₁, hx, hf⟩
    exact (onTree_bind_of_ok hx).trans hf

lemma onTree_ofExcept (r : Except Failure α) : (ofExcept r).onTree t = (r, t) := rfl

lemma onTree_lift (action : StateM Tree α) :
    (liftM action : FileAction (StateM Tree) α).onTree t = (.ok (action t).1, (action t).2) := rfl

lemma onTree_ofFile_of_ok {a : α} (h : action t = (.ok a, t')) :
    (ofFile wording action).onTree t = (.ok a, t') := by
  have hlift := onTree_lift (t := t) action
  rw [h] at hlift
  exact onTree_bind_of_ok hlift

lemma onTree_ofFile_of_error {e : FileError} (h : action t = (.error e, t')) :
    (ofFile wording action).onTree t =
      (.error (.error (.file (wording e))), t') := by
  have hlift := onTree_lift (t := t) action
  rw [h] at hlift
  exact onTree_bind_of_ok hlift

lemma onTree_ofFile_eq_ok_iff {a : α} :
    (ofFile wording action).onTree t = (.ok a, t') ↔ action t = (.ok a, t') := by
  refine ⟨fun h => ?_, onTree_ofFile_of_ok⟩
  cases hr : action t with
  | mk r t₁ =>
    cases r with
    | error e =>
      rw [onTree_ofFile_of_error hr] at h
      cases h
    | ok b =>
      rw [onTree_ofFile_of_ok hr] at h
      cases h
      rfl

lemma onTree_tryCatch_of_ok {a : α} {handler : Failure → FileAction (StateM Tree) α}
    (h : x.onTree t = (.ok a, t')) : (tryCatch x handler).onTree t = (.ok a, t') := by
  have h' : (ExceptT.run x) t = (.ok a, t') := h
  simp only [onTree, ExceptT.run_tryCatch, StateT.run_bind]
  change ((ExceptT.run x) t >>= _) = _
  rw [h']
  rfl

lemma onTree_tryCatch_of_error {e : Failure} {handler : Failure → FileAction (StateM Tree) α}
    (h : x.onTree t = (.error e, t')) :
    (tryCatch x handler).onTree t = (handler e).onTree t' := by
  have h' : (ExceptT.run x) t = (.error e, t') := h
  simp only [onTree, ExceptT.run_tryCatch, StateT.run_bind]
  change ((ExceptT.run x) t >>= _) = _
  rw [h']
  rfl

end FileAction

namespace Output

open FileAction

variable {medium : Medium} {t : Tree} {p : Path} {overwrite : Bool}

/-- There is something at a target that may not be replaced. -/
def Refused (t : Tree) (p : Path) (overwrite : Bool) : Prop := overwrite = false ∧ t.get? p ≠ none

lemma isPresent_apply : @FileSystem.isPresent (StateM Tree) (fileSystem medium) p t =
    ((t.get? p).isSome, t) := rfl

lemma onTree_checkTarget_of_refused (h : Refused t p overwrite) :
    (@checkTarget (StateM Tree) _ (fileSystem medium) p overwrite).onTree t =
      (.error (.error (.outputExists p.text)), t) := by
  obtain ⟨rfl, hp⟩ := h
  obtain ⟨e, he⟩ := Option.ne_none_iff_exists'.mp hp
  have hpresent := onTree_lift (t := t) (@FileSystem.isPresent (StateM Tree) (fileSystem medium) p)
  rw [isPresent_apply, he] at hpresent
  exact onTree_bind_of_ok hpresent

lemma onTree_checkTarget (h : ¬Refused t p overwrite) :
    (@checkTarget (StateM Tree) _ (fileSystem medium) p overwrite).onTree t = (.ok (), t) := by
  cases overwrite with
  | true => rfl
  | false =>
    have hnone : t.get? p = none := by
      by_contra hp
      exact h ⟨rfl, hp⟩
    have hpresent := onTree_lift (t := t)
      (@FileSystem.isPresent (StateM Tree) (fileSystem medium) p)
    rw [isPresent_apply, hnone] at hpresent
    exact onTree_bind_of_ok hpresent

/-- How writing a target can end. -/
inductive Outcome (medium : Medium) (t : Tree) (p : Path) (overwrite : Bool)
    (content : Except Failure (List UInt8)) : Except Failure Unit × Tree → Prop
  /-- The target may not be replaced. -/
  | refused (h : Refused t p overwrite) :
      Outcome medium t p overwrite content (.error (.error (.outputExists p.text)), t)
  /-- There is no content. -/
  | failed {f : Failure} (h : content = .error f) :
      Outcome medium t p overwrite content (.error f, t)
  /-- The temporary file cannot be made. -/
  | uncreated {e : FileError} (h : t.fileLocation (temporary p) = .error e) :
      Outcome medium t p overwrite content
        (.error (.error (.file (context "create" (temporary p) e))), t)
  /-- There is no content, and the temporary file is removed. -/
  | removed {f : Failure} {l : Location} {t' : Tree} (hl : t.fileLocation (temporary p) = .ok l)
      (h : content = .error f) (hc : Changes t t' l none) :
      Outcome medium t p overwrite content (.error f, t')
  /-- The medium does not take the content, and the temporary file is removed. -/
  | unwritten {l : Location} {bytes : List UInt8} {s : Shortage} {wording : String} {t' : Tree}
      (hl : t.fileLocation (temporary p) = .ok l) (h : content = .ok bytes)
      (hm : medium (temporary p) bytes = some s) (hc : Changes t t' l none) :
      Outcome medium t p overwrite content (.error (.error (.file wording)), t')
  /-- The temporary file cannot be moved, and stays. -/
  | left {l : Location} {bytes : List UInt8} {t' : Tree} {e : FileError}
      (ha : ¬Refused t p overwrite) (hl : t.fileLocation (temporary p) = .ok l)
      (h : content = .ok bytes) (hm : medium (temporary p) bytes = none)
      (hp : p.text = "" ∨ t.get? p = some .directory) (he : t'.fileLocation p = .error e)
      (hc : Changes t t' l (some (.file bytes))) :
      Outcome medium t p overwrite content (.error (.error (.file (context "rename to" p e))), t')
  /-- The temporary file becomes the target. -/
  | moved {l l' : Location} {bytes : List UInt8} {t' t'' : Tree} (ha : ¬Refused t p overwrite)
      (hl : t.fileLocation (temporary p) = .ok l) (h : content = .ok bytes)
      (hm : medium (temporary p) bytes = none) (hl' : t.fileLocation p = .ok l') (hne : l' ≠ l)
      (hc : Changes t t' l none) (hc' : Changes t' t'' l' (some (.file bytes))) :
      Outcome medium t p overwrite content (.ok (), t'')

variable {content : Except Failure (List UInt8)} {wording : FileError → String} {l l' : Location}
  {bytes : List UInt8} {f : Failure} {e : FileError}

/-! ### Filling the temporary file -/

/-- Where a file has been put at a path, another one can be put. -/
lemma fileLocation_insert (hl : t.fileLocation p = .ok l) (d : List UInt8) :
    (t.insert l (.file d)).fileLocation p = .ok l := by
  obtain ⟨hlocation, hfile, hslash⟩ := fileLocation_eq_ok_iff.mp hl
  have hc := changes_insert hfile d
  exact fileLocation_eq_ok_iff.mpr
    ⟨by rw [hc.location?_eq, hlocation], by rw [hc.self]; exact hc.after, hslash⟩

lemma locationOfFile_insert (hl : t.fileLocation p = .ok l) (d : List UInt8) :
    (t.insert l (.file d)).locationOfFile p = .ok (l, d) := by
  obtain ⟨hlocation, hfile, hslash⟩ := fileLocation_eq_ok_iff.mp hl
  have hc := changes_insert hfile d
  exact locationOfFile_eq_ok_iff.mpr ⟨by rw [hc.location?_eq, hlocation], hc.self, hslash⟩

/-- A temporary file that cannot be filled is removed. -/
lemma onTree_fill_of_failed {t' : Tree} {d : List UInt8}
    (h : (do
      let bytes ← FileAction.ofExcept content
      ofFile (unwritten p bytes wording)
        (@FileSystem.write (StateM Tree) (fileSystem medium) (temporary p) bytes) :
      FileAction (StateM Tree) Unit).onTree t = (.error f, t'))
    (ht : t'.locationOfFile (temporary p) = .ok (l, d)) :
    (@fill (StateM Tree) _ (fileSystem medium) p content wording).onTree t =
      (.error f, t'.erase l) := by
  have hremove := onTree_lift (t := t')
    (@FileSystem.remove (StateM Tree) (fileSystem medium) (temporary p))
  rw [remove_of_ok ht] at hremove
  exact (onTree_tryCatch_of_error h).trans (onTree_bind_of_ok hremove)

lemma onTree_fill_of_error {d : List UInt8} (h : t.locationOfFile (temporary p) = .ok (l, d)) :
    (@fill (StateM Tree) _ (fileSystem medium) p (.error f) wording).onTree t =
      (.error f, t.erase l) :=
  onTree_fill_of_failed (onTree_bind_of_error (onTree_ofExcept _)) h

lemma onTree_fill_of_shortage {s : Shortage} (hl : t.fileLocation (temporary p) = .ok l)
    (hm : medium (temporary p) bytes = some s) :
    (@fill (StateM Tree) _ (fileSystem medium) p (.ok bytes) wording).onTree t =
      (.error (.error (.file (unwritten p bytes wording s.error))),
        (t.insert l (.file (bytes.take s.taken))).erase l) := by
  refine onTree_fill_of_failed ((onTree_bind_of_ok (onTree_ofExcept _)).trans ?_)
    (locationOfFile_insert hl _)
  exact onTree_ofFile_of_error (write_of_shortage hl hm)

lemma onTree_fill_of_taken (hl : t.fileLocation (temporary p) = .ok l)
    (hm : medium (temporary p) bytes = none) :
    (@fill (StateM Tree) _ (fileSystem medium) p (.ok bytes) wording).onTree t =
      (.ok (), t.insert l (.file bytes)) := by
  refine onTree_tryCatch_of_ok ((onTree_bind_of_ok (onTree_ofExcept _)).trans ?_)
  exact onTree_ofFile_of_ok (write_of_taken hl hm)

/-! ### Writing the target -/

lemma onTree_write_of_refused (h : Refused t p overwrite) :
    (@write (StateM Tree) _ (fileSystem medium) p overwrite content wording).onTree t =
      (.error (.error (.outputExists p.text)), t) :=
  onTree_bind_of_error (onTree_checkTarget_of_refused h)

lemma onTree_write_of_uncreated (ha : ¬Refused t p overwrite)
    (hl : t.fileLocation (temporary p) = .error e) :
    (@write (StateM Tree) _ (fileSystem medium) p overwrite content wording).onTree t =
      (.error (.error (.file (context "create" (temporary p) e))), t) := by
  refine (onTree_bind_of_ok (onTree_checkTarget ha)).trans ?_
  exact onTree_bind_of_error (onTree_ofFile_of_error (create_of_error hl))

section Created

variable (ha : ¬Refused t p overwrite) (hl : t.fileLocation (temporary p) = .ok l)

include ha hl

lemma onTree_write_of_unfilled {t' : Tree}
    (h : (@fill (StateM Tree) _ (fileSystem medium) p content wording).onTree
      (t.insert l (.file [])) = (.error f, t')) :
    (@write (StateM Tree) _ (fileSystem medium) p overwrite content wording).onTree t =
      (.error f, t') := by
  refine (onTree_bind_of_ok (onTree_checkTarget ha)).trans ?_
  refine (onTree_bind_of_ok (onTree_ofFile_of_ok (create_of_ok hl))).trans ?_
  exact onTree_bind_of_error h

/-- A temporary file that has been filled is to be moved. -/
lemma onTree_write_of_filled {t' : Tree}
    (h : (@fill (StateM Tree) _ (fileSystem medium) p content wording).onTree
      (t.insert l (.file [])) = (.ok (), t')) :
    (@write (StateM Tree) _ (fileSystem medium) p overwrite content wording).onTree t =
      (ofFile (context "rename to" p)
        (@FileSystem.rename (StateM Tree) (fileSystem medium) (temporary p) p)).onTree t' := by
  refine (onTree_bind_of_ok (onTree_checkTarget ha)).trans ?_
  refine (onTree_bind_of_ok (onTree_ofFile_of_ok (create_of_ok hl))).trans ?_
  exact onTree_bind_of_ok h

end Created

/-- **Writing a target ends in one of these ways**, on any medium and for any content. -/
theorem outcome_write (medium : Medium) (t : Tree) (p : Path) (overwrite : Bool)
    (content : Except Failure (List UInt8)) (wording : FileError → String) :
    Outcome medium t p overwrite content
      ((@write (StateM Tree) _ (fileSystem medium) p overwrite content wording).onTree t) := by
  by_cases ha : Refused t p overwrite
  · rw [onTree_write_of_refused ha]
    exact .refused ha
  cases hl : t.fileLocation (temporary p) with
  | error e =>
    rw [onTree_write_of_uncreated ha hl]
    exact .uncreated hl
  | ok l =>
    obtain ⟨hlocation, hfile, hslash⟩ := fileLocation_eq_ok_iff.mp hl
    have hempty := changes_insert hfile []
    have hfilled : ∀ d, Changes t ((t.insert l (.file [])).insert l (.file d)) l
        (some (.file d)) := by
      intro d
      refine hempty.trans (changes_insert ?_ d)
      rw [hempty.self]
      exact hempty.after
    have hl₁ := fileLocation_insert hl []
    cases content with
    | error f =>
      rw [onTree_write_of_unfilled ha hl (onTree_fill_of_error (locationOfFile_insert hl []))]
      refine .removed hl rfl (hempty.trans (changes_erase ?_))
      rw [hempty.self]
      exact hempty.after
    | ok bytes =>
      cases hm : medium (temporary p) bytes with
      | some s =>
        rw [onTree_write_of_unfilled ha hl (onTree_fill_of_shortage hl₁ hm)]
        refine .unwritten hl rfl hm ((hfilled _).trans (changes_erase ?_))
        rw [(hfilled _).self]
        exact (hfilled _).after
      | none =>
        have hwritten := hfilled bytes
        rw [onTree_write_of_filled ha hl (onTree_fill_of_taken hl₁ hm)]
        have htmp := locationOfFile_insert hl₁ bytes
        generalize (t.insert l (.file [])).insert l (.file bytes) = t' at hwritten htmp ⊢
        rcases target_cases hl with ⟨l', hl'⟩ | htarget
        · have hne : l' ≠ l := by
            rintro rfl
            exact location?_ne_of_temporary hl (fileLocation_eq_ok_iff.mp hl').1
          rw [onTree_ofFile_of_ok (rename_of_ok htmp (hwritten.fileLocation_eq_ok_iff.mpr hl'))]
          have herased : Changes t (t'.erase l) l none := by
            refine hwritten.trans (changes_erase ?_)
            rw [hwritten.self]
            exact hwritten.after
          refine .moved ha hl rfl hm hl' hne herased (changes_insert ?_ bytes)
          rw [herased.of_ne hne]
          exact (fileLocation_eq_ok_iff.mp hl').2.1
        · have hget : t'.get? p = t.get? p :=
            hwritten.get?_of_ne (location?_ne_of_temporary hl)
          obtain ⟨e, he⟩ := exists_fileLocation_eq_error (t := t') (p := p) (by rwa [hget])
          rw [onTree_ofFile_of_error (rename_of_error htmp he)]
          exact .left ha hl rfl hm htarget he hwritten

/-- The target holds bytes at its location, nothing stands any more at that of the temporary file, and
all else is as it was. -/
structure Stored (t t' : Tree) (p : Path) (bytes : List UInt8) (l l' : Location) : Prop where
  target : t.fileLocation p = .ok l
  created : t.fileLocation (temporary p) = .ok l'
  ne : l ≠ l'
  lookup : ∀ k, t'.entry? k =
    if k = l then some (.file bytes) else if k = l' then none else t.entry? k

namespace Stored

variable {t' : Tree} {k : Location} (h : Stored t t' p bytes l l')

include h

lemma entry?_target : t'.entry? l = some (.file bytes) := by
  rw [h.lookup, if_pos rfl]

lemma entry?_temporary : t'.entry? l' = none := by
  rw [h.lookup, if_neg h.ne.symm, if_pos rfl]

lemma entry?_of_ne (hk : k ≠ l) (hk' : k ≠ l') : t'.entry? k = t.entry? k := by
  rw [h.lookup, if_neg hk, if_neg hk']

lemma sameDirectories : t.SameDirectories t' := by
  intro k
  by_cases hk : k = l
  · subst hk
    rw [h.entry?_target]
    exact iff_of_false (by simp) (fileLocation_eq_ok_iff.mp h.target).2.1
  by_cases hk' : k = l'
  · subst hk'
    rw [h.entry?_temporary]
    exact iff_of_false (by simp) (fileLocation_eq_ok_iff.mp h.created).2.1
  · rw [h.entry?_of_ne hk hk']

lemma locationOfFile : t'.locationOfFile p = .ok (l, bytes) := by
  obtain ⟨hlocation, -, hslash⟩ := fileLocation_eq_ok_iff.mp h.target
  exact locationOfFile_eq_ok_iff.mpr
    ⟨by rw [h.sameDirectories.location?_eq, hlocation], h.entry?_target, hslash⟩

lemma get?_target : t'.get? p = some (.file bytes) := by
  obtain ⟨hlocation, hentry, hslash⟩ := locationOfFile_eq_ok_iff.mp h.locationOfFile
  exact get?_eq_some_iff.mpr ⟨l, hlocation, hentry, .inr hslash⟩

lemma get?_temporary : t'.get? (temporary p) = none := by
  refine get?_eq_none ?_ h.entry?_temporary
  rw [h.sameDirectories.location?_eq]
  exact (fileLocation_eq_ok_iff.mp h.created).1

lemma read_target : t'.read p = .ok bytes := read_of_locationOfFile h.locationOfFile

end Stored

/-- There is a content, and the medium takes it as a whole. -/
def Complete (medium : Medium) (p : Path) (content : Except Failure (List UInt8)) : Prop :=
  ∃ bytes, content = .ok bytes ∧ medium (temporary p) bytes = none

/-- What makes the temporary file stay: it can be made and written, but not moved to the target. -/
structure Leaves (medium : Medium) (t : Tree) (p : Path) (overwrite : Bool)
    (content : Except Failure (List UInt8)) : Prop where
  accepted : ¬Refused t p overwrite
  complete : Complete medium p content
  created : ∃ l, t.fileLocation (temporary p) = .ok l
  unmovable : p.text = "" ∨ t.get? p = some .directory

/-- What became of a target and of its temporary file. -/
structure Settled (medium : Medium) (t : Tree) (p : Path) (overwrite : Bool)
    (content : Except Failure (List UInt8)) (r : Except Failure Unit × Tree) : Prop where
  succeeds : r.1 = .ok () ↔ ¬Refused t p overwrite ∧ Complete medium p content ∧
    (∃ l, t.fileLocation (temporary p) = .ok l) ∧ ∃ l, t.fileLocation p = .ok l
  /-- On success the target holds the content, and the temporary file is gone. -/
  written : r.1 = .ok () → ∃ bytes, content = .ok bytes ∧ r.2.get? p = some (.file bytes) ∧
    r.2.get? (temporary p) = none
  /-- On a failure the target is as it was. -/
  kept : ∀ f, r.1 = .error f → r.2.get? p = t.get? p
  /-- On a failure a temporary file is new exactly if it could not be moved. -/
  left : ∀ f, r.1 = .error f → t.get? (temporary p) = none →
    (r.2.get? (temporary p) ≠ none ↔ Leaves medium t p overwrite content)
  /-- All else is as it was. -/
  others : ∀ l, t.location? p ≠ some l → t.location? (temporary p) ≠ some l →
    Tree.entry? r.2 l = t.entry? l

variable {r : Except Failure Unit × Tree}

lemma not_complete_of_error (h : content = .error f) : ¬Complete medium p content := by
  rintro ⟨bytes, hc, -⟩
  cases hc.symm.trans h

lemma not_complete_of_some {s : Shortage} (h : content = .ok bytes)
    (hm : medium (temporary p) bytes = some s) : ¬Complete medium p content := by
  rintro ⟨bytes', hc, hn⟩
  cases hc.symm.trans h
  cases hn.symm.trans hm

lemma Outcome.eq_ok_iff (h : Outcome medium t p overwrite content r) :
    r.1 = .ok () ↔ ¬Refused t p overwrite ∧ Complete medium p content ∧
      (∃ l, t.fileLocation (temporary p) = .ok l) ∧ ∃ l, t.fileLocation p = .ok l := by
  cases h with
  | refused h => exact iff_of_false (by simp) fun hok => hok.1 h
  | failed h => exact iff_of_false (by simp) fun hok => not_complete_of_error h hok.2.1
  | uncreated h => exact iff_of_false (by simp) fun ⟨_, _, ⟨_, hok⟩, _⟩ => by simp [h] at hok
  | removed _ h _ => exact iff_of_false (by simp) fun hok => not_complete_of_error h hok.2.1
  | unwritten _ h hm _ => exact iff_of_false (by simp) fun hok => not_complete_of_some h hm hok.2.1
  | left _ _ _ _ hp _ _ =>
    obtain ⟨e, he⟩ := exists_fileLocation_eq_error hp
    exact iff_of_false (by simp) fun ⟨_, _, _, _, hok⟩ => by simp [he] at hok
  | moved ha hl h hm hl' _ _ _ => exact iff_of_true rfl ⟨ha, ⟨_, h, hm⟩, ⟨_, hl⟩, _, hl'⟩

lemma Outcome.stored (h : Outcome medium t p overwrite content r) (hr : r.1 = .ok ()) :
    ∃ bytes l l', content = .ok bytes ∧ Stored t r.2 p bytes l l' := by
  cases h with
  | refused _ => cases hr
  | failed _ => cases hr
  | uncreated _ => cases hr
  | removed _ _ _ => cases hr
  | unwritten _ _ _ _ => cases hr
  | left _ _ _ _ _ _ _ => cases hr
  | @moved l l' bytes t' t'' ha hl h _ hl' hne hc hc' =>
    refine ⟨bytes, l', l, h, hl', hl, hne, fun k => ?_⟩
    rw [hc'.lookup, hc.lookup]

/-- A target that may be replaced is stored if its content is complete and both files can be made. -/
lemma Outcome.exists_stored (h : Outcome medium t p true content r) (hc : content = .ok bytes)
    (hm : medium (temporary p) bytes = none) (hl : t.fileLocation p = .ok l)
    (hl' : t.fileLocation (temporary p) = .ok l') :
    ∃ t', r = (.ok (), t') ∧ Stored t t' p bytes l l' := by
  have haccepted : ¬Refused t p true := fun hr => by cases hr.1
  have hr := h.eq_ok_iff.mpr ⟨haccepted, ⟨bytes, hc, hm⟩, ⟨l', hl'⟩, l, hl⟩
  obtain ⟨b, k, k', hb, hs⟩ := h.stored hr
  cases hb.symm.trans hc
  cases hs.target.symm.trans hl
  cases hs.created.symm.trans hl'
  exact ⟨r.2, Prod.ext hr rfl, hs⟩

lemma Outcome.get?_of_ok (h : Outcome medium t p overwrite content r) (hr : r.1 = .ok ()) :
    ∃ bytes, content = .ok bytes ∧ r.2.get? p = some (.file bytes) ∧
      r.2.get? (temporary p) = none := by
  obtain ⟨bytes, l, l', hc, hs⟩ := h.stored hr
  exact ⟨bytes, hc, hs.get?_target, hs.get?_temporary⟩

lemma Outcome.get?_of_error (h : Outcome medium t p overwrite content r) {f : Failure}
    (hr : r.1 = .error f) : r.2.get? p = t.get? p := by
  cases h with
  | refused _ => rfl
  | failed _ => rfl
  | uncreated _ => rfl
  | removed hl _ hc => exact hc.get?_of_ne (location?_ne_of_temporary hl)
  | unwritten hl _ _ hc => exact hc.get?_of_ne (location?_ne_of_temporary hl)
  | left _ hl _ _ _ _ hc => exact hc.get?_of_ne (location?_ne_of_temporary hl)
  | moved _ _ _ _ _ _ _ _ => cases hr

lemma Outcome.temporary_ne_none_iff (h : Outcome medium t p overwrite content r) {f : Failure}
    (hr : r.1 = .error f) (hnone : t.get? (temporary p) = none) :
    r.2.get? (temporary p) ≠ none ↔ Leaves medium t p overwrite content := by
  -- what has been removed is not found any more
  have hgone : ∀ {l t'}, t.fileLocation (temporary p) = .ok l → Changes t t' l none →
      ¬t'.get? (temporary p) ≠ none := by
    intro l t' hl hc hne
    obtain ⟨hlocation, -, hslash⟩ := fileLocation_eq_ok_iff.mp hl
    exact hne (hc.get?_of_location? hlocation hslash)
  cases h with
  | refused h => exact iff_of_false (fun hne => hne hnone) fun hleaves => hleaves.accepted h
  | failed h =>
    exact iff_of_false (fun hne => hne hnone) fun hleaves =>
      not_complete_of_error h hleaves.complete
  | uncreated h =>
    refine iff_of_false (fun hne => hne hnone) fun hleaves => ?_
    obtain ⟨_, hok⟩ := hleaves.created
    simp [h] at hok
  | removed hl h hc =>
    exact iff_of_false (hgone hl hc) fun hleaves => not_complete_of_error h hleaves.complete
  | unwritten hl h hm hc =>
    exact iff_of_false (hgone hl hc) fun hleaves => not_complete_of_some h hm hleaves.complete
  | left ha hl h hm hp _ hc =>
    obtain ⟨hlocation, -, hslash⟩ := fileLocation_eq_ok_iff.mp hl
    refine iff_of_true ?_ ⟨ha, ⟨_, h, hm⟩, ⟨_, hl⟩, hp⟩
    rw [hc.get?_of_location? hlocation hslash]
    simp
  | moved _ _ _ _ _ _ _ _ => cases hr

lemma Outcome.entry?_eq (h : Outcome medium t p overwrite content r) {k : Location}
    (hp : t.location? p ≠ some k) (htmp : t.location? (temporary p) ≠ some k) :
    Tree.entry? r.2 k = t.entry? k := by
  have hne : ∀ l, t.fileLocation (temporary p) = .ok l → k ≠ l := by
    rintro l hl rfl
    exact htmp (fileLocation_eq_ok_iff.mp hl).1
  have hne' : ∀ l, t.fileLocation p = .ok l → k ≠ l := by
    rintro l hl rfl
    exact hp (fileLocation_eq_ok_iff.mp hl).1
  cases h with
  | refused _ => rfl
  | failed _ => rfl
  | uncreated _ => rfl
  | removed hl _ hc => exact hc.of_ne (hne _ hl)
  | unwritten hl _ _ hc => exact hc.of_ne (hne _ hl)
  | left _ hl _ _ _ _ hc => exact hc.of_ne (hne _ hl)
  | moved _ hl _ _ hl' _ hc hc' => exact (hc'.of_ne (hne' _ hl')).trans (hc.of_ne (hne _ hl))

lemma Outcome.sameDirectories (h : Outcome medium t p overwrite content r) :
    t.SameDirectories r.2 := by
  cases h with
  | refused _ => exact fun _ => Iff.rfl
  | failed _ => exact fun _ => Iff.rfl
  | uncreated _ => exact fun _ => Iff.rfl
  | removed _ _ hc => exact hc.sameDirectories
  | unwritten _ _ _ hc => exact hc.sameDirectories
  | left _ _ _ _ _ _ hc => exact hc.sameDirectories
  | moved _ _ _ _ _ _ hc hc' => exact hc.sameDirectories.trans hc'.sameDirectories

/-- A path that leads neither to the target nor to the temporary file finds what it found before. -/
lemma Outcome.get?_of_ne (h : Outcome medium t p overwrite content r) {q : Path}
    (hq : ∀ k, t.location? q = some k →
      t.location? p ≠ some k ∧ t.location? (temporary p) ≠ some k) :
    r.2.get? q = t.get? q := by
  refine Option.ext fun e => ?_
  rw [get?_eq_some_iff, get?_eq_some_iff, h.sameDirectories.location?_eq]
  refine exists_congr fun k => and_congr_right fun hk => ?_
  obtain ⟨hp, htmp⟩ := hq k hk
  rw [h.entry?_eq hp htmp]

lemma Outcome.settled (h : Outcome medium t p overwrite content r) :
    Settled medium t p overwrite content r where
  succeeds := h.eq_ok_iff
  written := h.get?_of_ok
  kept _ := h.get?_of_error
  left _ := h.temporary_ne_none_iff
  others _ := h.entry?_eq

end Output

end Mdf
