import FileRouter.Disk.Provider
import FileRouter.Proofs.Disk.Handle
import FileRouter.Proofs.Disk.Lookup
import FileRouter.Proofs.Text
/-!
Opening the files of the disk.

`bodyAt?` is the file that a path names. Reading opens it (`outcome_openInput`); writing opens it emptied
(`outcome_openOutput_of_bodyAt`), and is no harm to any other file (`kept_openOutput`).
-/

namespace FileRouter.Disk

variable {disk : Disk} {path : Text} {body : Nat}

/-- The body of the file that a path names. -/
def bodyAt? (disk : Disk) (path : Text) : Option Nat :=
  if hasBadUser path ∨ '\x00' ∈ nativePath disk.fs path then none
  else (disk.fs.openBody (nativePath disk.fs path)).toOption

theorem bodyAt?_eq_some_iff :
    disk.bodyAt? path = some body ↔ hasBadUser path = false ∧ '\x00' ∉ nativePath disk.fs path ∧
      disk.fs.openBody (nativePath disk.fs path) = .ok body := by
  rw [bodyAt?]
  split_ifs with hbad
  · rcases hbad with huser | hnul
    · simp [huser]
    · simp [hnul]
  · obtain ⟨huser, hnul⟩ := not_or.mp hbad
    simp only [Bool.not_eq_true] at huser
    cases disk.fs.openBody (nativePath disk.fs path) <;> simp [Except.toOption, huser, hnul]

theorem outcome_tested (path : Text) (disk : Disk) :
    (tested path).outcome disk =
      if hasBadUser path then (.error nulFault, disk) else (.ok (nativePath disk.fs path), disk) := by
  rw [tested]
  split_ifs <;> rfl

theorem outcome_native (path : Text) (disk : Disk) :
    (native path).outcome disk =
      if hasBadUser path ∨ '\x00' ∈ nativePath disk.fs path then (.error nulFault, disk)
      else (.ok (nativePath disk.fs path), disk) := by
  rw [native, Call.outcome_bind, outcome_tested]
  by_cases huser : hasBadUser path = true
  · simp [huser]
  · rw [if_neg huser]
    by_cases hnul : '\x00' ∈ nativePath disk.fs path
    · rw [if_pos (Or.inr hnul)]
      simp [hnul]
    · rw [if_neg (not_or.mpr ⟨huser, hnul⟩)]
      simp [hnul]

theorem outcome_addFile (body : Nat) (access : Access) (position : Nat) (disk : Disk) :
    (addFile body access position).outcome disk =
      (.ok disk.files.length,
        { disk with files := disk.files ++ [⟨body, access, position, .idle, none, false⟩] }) :=
  rfl

theorem outcome_reported_ask {α : Type} (paths : List Text) (f : FileSystem → Except Fault α)
    (disk : Disk) :
    (reported path (ask paths f)).outcome disk =
      ((f disk.fs).mapError fun fault => (fault.failure paths).reportedAt path, disk) := by
  rw [reported, Call.outcome_mapFailure, ask, Call.outcome_ofOutcome]
  cases f disk.fs <;> rfl

theorem outcome_reported_alter (paths : List Text) (f : FileSystem → Except Fault FileSystem) (disk : Disk) :
    (reported path (alter paths f)).outcome disk =
      match f disk.fs with
      | .error fault => (.error ((fault.failure paths).reportedAt path), disk)
      | .ok fs => (.ok (), { disk with fs }) := by
  rw [reported, Call.outcome_mapFailure, alter, Call.outcome_ofOutcome]
  cases f disk.fs <;> rfl

/-- A file that can be opened is opened for reading from its start. -/
theorem outcome_openInput (h : disk.bodyAt? path = some body) :
    (openInput path).outcome disk =
      (.ok disk.files.length,
        { disk with files := disk.files ++ [⟨body, .reader, 0, .idle, none, false⟩] }) := by
  obtain ⟨huser, hnul, hopen⟩ := bodyAt?_eq_some_iff.mp h
  rw [openInput, Call.outcome_bind, outcome_native, if_neg (by simp [huser, hnul])]
  simp only
  rw [Call.outcome_bind, outcome_reported_ask, hopen]
  exact outcome_addFile body .reader 0 disk

theorem outcome_bodyForWriting (path : Text) (disk : Disk) :
    (bodyForWriting path).outcome disk =
      if hasBadUser path ∨ '\x00' ∈ nativePath disk.fs path then (.error nulFault, disk)
      else
        match disk.fs.openOrMake (nativePath disk.fs path) with
        | .error fault => (.error ((fault.failure [nativePath disk.fs path]).reportedAt path), disk)
        | .ok (body, fs) => (.ok body, { disk with fs }) := by
  rw [bodyForWriting, Call.outcome_bind, outcome_native]
  split_ifs
  · rfl
  · simp only
    rw [Call.outcome_bind, outcome_reported_ask]
    rcases disk.fs.openOrMake (nativePath disk.fs path) with fault | ⟨body, fs⟩ <;> rfl

theorem outcome_openOutput (path : Text) (disk : Disk) :
    (openOutput path false).outcome disk =
      match (bodyForWriting path).outcome disk with
      | (.error failure, disk) => (.error failure, disk)
      | (.ok body, disk) =>
        (.ok disk.files.length,
          { disk with
            fs := disk.fs.changeBody body fun b => { b with bytes := [] }
            files := disk.files ++ [⟨body, .writer false, 0, .idle, none, false⟩] }) := by
  rw [openOutput, Call.outcome_bind]
  rcases (bodyForWriting path).outcome disk with ⟨failure | body, disk'⟩
  · rfl
  · simp only [Bool.false_eq_true, if_false]
    rw [Call.outcome_bind, Call.outcome_change]
    rfl

/-- A file that a path names is opened for writing as it is, but emptied. -/
theorem outcome_openOutput_of_bodyAt (hw : disk.fs.WellFormed) (h : disk.bodyAt? path = some body) :
    (openOutput path false).outcome disk =
      (.ok disk.files.length,
        { disk with
          fs := disk.fs.changeBody body fun b => { b with bytes := [] }
          files := disk.files ++ [⟨body, .writer false, 0, .idle, none, false⟩] }) := by
  obtain ⟨huser, hnul, hopen⟩ := bodyAt?_eq_some_iff.mp h
  rw [outcome_openOutput, outcome_bodyForWriting, if_neg (by simp [huser, hnul]),
    FileSystem.openOrMake_of_openBody hw hopen]

theorem kept_addFile {disk' : Disk} (file : OpenFile) (h : disk'.fs.bytesOf body = disk.fs.bytesOf body)
    (hfiles : disk'.files = disk.files ++ [file]) : Kept body disk disk' := by
  refine ⟨h, fun {index old} hold => ⟨old, ?_, .refl old⟩⟩
  rw [hfiles, List.getElem?_append_left (List.getElem?_eq_some_iff.mp hold).1, hold]

/-- Opening for writing does no harm to a file that the path does not name, and neither can the handle. -/
theorem kept_openOutput (hbody : body < disk.fs.bodies.length) (h : disk.bodyAt? path ≠ some body) :
    Kept body disk ((openOutput path false).outcome disk).2 ∧
      ∀ {index : Nat}, ((openOutput path false).outcome disk).1 = .ok index →
        ∃ file, ((openOutput path false).outcome disk).2.files[index]? = some file ∧
          Harmless body file := by
  rw [outcome_openOutput, outcome_bodyForWriting]
  split_ifs with hbad
  · exact ⟨.refl disk, fun hr => by simp at hr⟩
  · cases hmade : disk.fs.openOrMake (nativePath disk.fs path) with
    | error fault => exact ⟨.refl disk, fun hr => by simp at hr⟩
    | ok made =>
      obtain ⟨other, fs⟩ := made
      obtain ⟨huser, hnul⟩ := not_or.mp hbad
      rw [Bool.not_eq_true] at huser
      -- what is opened is a file that the path names already, or a new one
      have hother : other ≠ body ∧ fs.bytesOf body = disk.fs.bytesOf body := by
        rcases FileSystem.openOrMake_cases hmade with ⟨rfl, hopen⟩ | ⟨key, -, hnew⟩
        · refine ⟨?_, rfl⟩
          rintro rfl
          exact h (bodyAt?_eq_some_iff.mpr ⟨huser, hnul, hopen⟩)
        · obtain ⟨rfl, rfl⟩ := Prod.mk.inj hnew
          exact ⟨Nat.ne_of_gt hbody, FileSystem.bytesOf_addFile_of_lt hbody _ _⟩
      refine ⟨kept_addFile _ ?_ rfl, fun {index} hr => ?_⟩
      · rw [FileSystem.bytesOf_changeBody, if_neg hother.1, hother.2]
      · obtain rfl := Except.ok.inj hr
        exact ⟨_, List.getElem?_concat_length, Or.inl hother.1⟩

/-- A path that leads to a file is not stranded. -/
theorem isStranded_of_openBody {native : Text} (h : disk.fs.openBody native = .ok body) :
    isStranded disk.fs native = false := by
  obtain ⟨hcheck, key, left, hfollow, -⟩ := FileSystem.openBody_eq_ok_iff.mp h
  rw [isStranded]
  by_cases hhead : native.head? = some '/'
  · simp [hhead]
  · have hne : native ≠ [] := by
      rintro rfl
      simp [FileSystem.checkPath] at hcheck
    rw [FileSystem.origin, if_neg hhead] at hfollow
    rw [FileSystem.isDirectory_of_follow hfollow (FileSystem.steps_ne_nil hne hhead)]
    simp

/-- A path that the operating system takes has a canonical path, unless it is stranded. -/
theorem outcome_canonicalPath_of_taken (huser : hasBadUser path = false)
    (hnul : '\x00' ∉ nativePath disk.fs path)
    (hstranded : isStranded disk.fs (nativePath disk.fs path) = false) :
    (canonicalPath path).outcome disk = (.ok (disk.fs.canonical (nativePath disk.fs path)), disk) := by
  have hseen : ((disk.fs.segmentsSeen (nativePath disk.fs path)).any
      fun segment => segment.contains '\x00') = false := by
    rw [List.any_eq_false]
    intro segment hs hc
    exact hnul (Text.mem_of_mem_parts (List.mem_of_mem_take hs) (List.contains_iff_mem.mp hc))
  rw [canonicalPath, Call.outcome_bind, outcome_tested, if_neg (by simp [huser])]
  simp only
  rw [Call.outcome_bind, Call.outcome_get]
  simp only [hseen, hstranded, Bool.false_eq_true, if_false]
  rfl

/-- A path that names a file has a canonical path. -/
theorem outcome_canonicalPath (h : disk.bodyAt? path = some body) :
    (canonicalPath path).outcome disk = (.ok (disk.fs.canonical (nativePath disk.fs path)), disk) := by
  obtain ⟨huser, hnul, hopen⟩ := bodyAt?_eq_some_iff.mp h
  exact outcome_canonicalPath_of_taken huser hnul (isStranded_of_openBody hopen)

/-- What is answered for a canonical path is the canonical path. -/
theorem eq_canonical {canonical : Text} (h : ((canonicalPath path).outcome disk).1 = .ok canonical) :
    canonical = disk.fs.canonical (nativePath disk.fs path) := by
  rw [canonicalPath, Call.outcome_bind, outcome_tested] at h
  by_cases huser : hasBadUser path = true
  · rw [if_pos huser] at h
    simp at h
  · rw [if_neg huser] at h
    simp only at h
    rw [Call.outcome_bind, Call.outcome_get] at h
    simp only at h
    split_ifs at h
    · simp at h
    · simp at h
    · exact (Except.ok.inj h).symm

/-- Asking for a canonical path changes nothing. -/
theorem canonicalPath_unchanged (path : Text) (disk : Disk) :
    ((canonicalPath path).outcome disk).2 = disk := by
  rw [canonicalPath, Call.outcome_bind, outcome_tested]
  split_ifs with huser
  · rfl
  · simp only
    rw [Call.outcome_bind, Call.outcome_get]
    simp only
    split_ifs <;> rfl

end FileRouter.Disk
