import FileRouter.Proofs.Disk.Lookup
/-!
What the operations of the operating system come down to.

Each of them is one step or leaves the file system as it is. Whatever makes an entry puts it at a free place
(`IsFree`): under a name that a directory does not have yet. What is removed is no directory, or an empty one, and
what is renamed goes to a place outside of itself that holds nothing or is replaced.
-/

namespace FileRouter.Disk.FileSystem

variable {fs fs' : FileSystem} {path : Text}

/-! ### Making entries -/

theorem step_makeDirectory (h : fs.makeDirectory path = .ok fs') : fs.Step fs' := by
  rw [makeDirectory] at h
  obtain ⟨⟨directory, last⟩, hparent, h⟩ := exists_of_bind_eq_ok h
  cases last with
  | name name slash =>
    obtain ⟨answer, hc, h⟩ := exists_of_bind_eq_ok h
    cases answer with
    | none =>
      obtain rfl := Except.ok.inj h
      exact .made (isFree_of_child hc (isName_of_parentOf hparent)) (by simp)
    | some entry => simp at h
  | _ => simp at h

theorem step_makeLink {target : Text} (h : fs.makeLink target path = .ok fs') : fs.Step fs' := by
  rw [makeLink] at h
  obtain ⟨-, -, h⟩ := exists_of_bind_eq_ok h
  obtain ⟨⟨directory, last⟩, hparent, h⟩ := exists_of_bind_eq_ok h
  cases last with
  | name name slash =>
    obtain ⟨answer, hc, h⟩ := exists_of_bind_eq_ok h
    -- it is made only where nothing is, and at a path that does not end in a slash
    cases answer with
    | none =>
      cases slash with
      | true => simp at h
      | false =>
        obtain rfl := Except.ok.inj h
        exact .made (isFree_of_child hc (isName_of_parentOf hparent)) (by simp)
    | some entry => simp at h
  | _ => simp at h

theorem step_makeFile {mode body : Nat} (h : fs.makeFile path mode = .ok (body, fs')) : fs.Step fs' := by
  rw [makeFile] at h
  obtain ⟨⟨directory, last⟩, hparent, h⟩ := exists_of_bind_eq_ok h
  cases last with
  | name name slash =>
    cases slash with
    | true => simp at h
    | false =>
      obtain ⟨answer, hc, h⟩ := exists_of_bind_eq_ok h
      cases answer with
      | none =>
        obtain ⟨-, rfl⟩ := Prod.mk.inj (Except.ok.inj h)
        exact .madeFile mode (isFree_of_child hc (isName_of_parentOf hparent))
      | some entry => simp at h
  | _ => simp at h

theorem step_openOrMake {body : Nat} (h : fs.openOrMake path = .ok (body, fs')) : fs.Step fs' := by
  rcases openOrMake_cases h with ⟨rfl, -⟩ | ⟨key, hfree, hadd⟩
  · exact .idle
  · obtain ⟨-, rfl⟩ := Prod.mk.inj hadd
    exact .madeFile fileMode hfree

/-! ### Removing and renaming entries -/

theorem removeDirectory_cases (h : fs.removeDirectory path = .ok fs') :
    ∃ directory name slash, fs.parentOf path = .ok (directory, .name name slash) ∧
      fs.entries.isEmptyAt (directory ++ [name]) = true ∧ fs' = fs.remove (directory ++ [name]) := by
  rw [removeDirectory] at h
  obtain ⟨⟨directory, last⟩, hparent, h⟩ := exists_of_bind_eq_ok h
  cases last with
  | name name slash =>
    obtain ⟨answer, -, h⟩ := exists_of_bind_eq_ok h
    rcases answer with - | ⟨mode, modified⟩ | target | body
    · simp at h
    · simp only at h
      split_ifs at h with hempty
      exact ⟨directory, name, slash, hparent, hempty, (Except.ok.inj h).symm⟩
    · simp at h
    · simp at h
  | _ => simp at h

theorem removeFile_cases (h : fs.removeFile path = .ok fs') :
    ∃ directory name, fs.parentOf path = .ok (directory, .name name false) ∧
      fs.isDirectory (directory ++ [name]) = false ∧ fs' = fs.remove (directory ++ [name]) := by
  rw [removeFile] at h
  obtain ⟨⟨directory, last⟩, hparent, h⟩ := exists_of_bind_eq_ok h
  cases last with
  | name name slash =>
    obtain ⟨answer, hc, h⟩ := exists_of_bind_eq_ok h
    obtain ⟨-, hentry⟩ := isDirectory_of_child hc
    cases slash with
    | true => rcases answer with - | ⟨mode, modified⟩ | target | body <;> simp at h
    | false =>
      refine ⟨directory, name, hparent, ?_⟩
      rw [isDirectory, ← hentry]
      rcases answer with - | ⟨mode, modified⟩ | target | body
      · -- nothing and a directory are refused, a link and a file are removed
        simp at h
      · simp at h
      · exact ⟨rfl, (Except.ok.inj h).symm⟩
      · exact ⟨rfl, (Except.ok.inj h).symm⟩
  | _ => simp at h

theorem step_removeDirectory (h : fs.removeDirectory path = .ok fs') : fs.Step fs' := by
  obtain ⟨directory, name, slash, -, hempty, rfl⟩ := removeDirectory_cases h
  exact .removed (by simp) fun _ => hempty

theorem step_removeFile (h : fs.removeFile path = .ok fs') : fs.Step fs' := by
  obtain ⟨directory, name, -, hfile, rfl⟩ := removeFile_cases h
  exact .removed (by simp) fun hdir => by simp [hfile] at hdir

theorem isEmptyAt_of_replaceFault {source target : Key} (h : fs.replaceFault? source target = none)
    (ht : fs.isDirectory target = true) : fs.entries.isEmptyAt target = true := by
  obtain ⟨mode, modified, hentry⟩ := entry?_of_isDirectory ht
  rw [replaceFault?, hentry] at h
  by_contra hempty
  split_ifs at h

theorem step_rename {old new : Text} (h : fs.rename old new = .ok fs') : fs.Step fs' := by
  rw [rename] at h
  obtain ⟨⟨oldDirectory, oldLast⟩, -, h⟩ := exists_of_bind_eq_ok h
  obtain ⟨⟨newDirectory, newLast⟩, hparent, h⟩ := exists_of_bind_eq_ok h
  cases oldLast with
  | name oldName oldSlash =>
    cases newLast with
    | name newName newSlash =>
      obtain ⟨answer, hold, h⟩ := exists_of_bind_eq_ok h
      cases answer with
      | none => simp at h
      | some entry =>
        obtain ⟨other, hnew, h⟩ := exists_of_bind_eq_ok h
        -- the checks before the move: a slash behind a file, a target inside the source, and the other way round
        split_ifs at h with _ hinside _ hsame
        · exact Except.ok.inj h ▸ .idle
        · split at h
          next => simp at h
          next hreplace =>
            obtain rfl := Except.ok.inj h
            have hplace := isPlace_of_child hnew (isName_of_parentOf hparent)
            refine .moved (isDirectory_of_child hold).2.symm (by simp) (fun hp => ?_) hplace
              (isEmptyAt_of_replaceFault hreplace)
            rcases List.prefix_concat_iff.mp hp with heq | hp
            · exact hsame heq
            · exact hinside (List.isPrefixOf_iff_prefix.mpr hp)
    | _ => simp at h
  | _ => simp at h

/-! ### Permission bits and times -/

theorem step_setMode {mode : Nat} (h : fs.setMode path mode = .ok fs') : fs.Step fs' := by
  rw [setMode] at h
  obtain ⟨key, -, h⟩ := exists_of_bind_eq_ok h
  split at h
  next old modified hentry => exact Except.ok.inj h ▸ .marked mode modified hentry
  next body hentry => exact Except.ok.inj h ▸ .written body _
  next => simp at h

theorem step_setModified {modified : Int} (h : fs.setModified path modified = .ok fs') : fs.Step fs' := by
  rw [setModified] at h
  obtain ⟨key, -, h⟩ := exists_of_bind_eq_ok h
  split at h
  next mode old hentry => exact Except.ok.inj h ▸ .marked mode modified hentry
  next body hentry => exact Except.ok.inj h ▸ .written body _
  next => simp at h

end FileRouter.Disk.FileSystem
