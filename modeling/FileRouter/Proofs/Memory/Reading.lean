import FileRouter.Proofs.Memory.Handle
import FileRouter.Proofs.Request
/-!
Reading from a drive.

A request that reads leaves the tree of a drive as it is, and so does everything that is asked of a handle that
was opened for reading. Such a handle never has anything to store: it refuses to write before it looks at
anything else (`undisturbed_onFile`).
-/

namespace FileRouter.Drive

variable {drive drive' drive'' : Drive} {index : Nat}

/-- The handle with an index was opened for reading and has nothing to store. -/
def OnlyReads (drive : Drive) (index : Nat) : Prop :=
  ∃ file, drive.files[index]? = some file ∧ file.canWrite = false ∧ file.dirty = false

/-- What reading leaves of a drive: its scheme, its tree, and handles that can only read. -/
structure Undisturbed (drive drive' : Drive) : Prop where
  scheme : drive'.scheme = drive.scheme
  tree : drive'.tree = drive.tree
  files : ∀ {index : Nat}, OnlyReads drive index → OnlyReads drive' index

theorem Undisturbed.refl (drive : Drive) : Undisturbed drive drive := ⟨rfl, rfl, fun h => h⟩

theorem Undisturbed.trans (h : Undisturbed drive drive') (h' : Undisturbed drive' drive'') :
    Undisturbed drive drive'' :=
  ⟨h'.scheme.trans h.scheme, h'.tree.trans h.tree, fun hf => h'.files (h.files hf)⟩

/-! ### Requests -/

theorem undisturbed_addFile (file : DriveFile) (drive : Drive) :
    Undisturbed drive { drive with files := drive.files ++ [file] } := by
  refine ⟨rfl, rfl, fun {index} h => ?_⟩
  obtain ⟨old, hold, hwrite, hclean⟩ := h
  refine ⟨old, ?_, hwrite, hclean⟩
  rw [List.getElem?_append_left (List.getElem?_eq_some_iff.mp hold).1, hold]

/-- What a request that reads does to a drive and answers: the drive is undisturbed, and a handle can only
read. -/
def Quiet (drive : Drive) (out : Except Failure Nat × Drive) : Prop :=
  Undisturbed drive out.2 ∧ ∀ {index : Nat}, out.1 = .ok index → OnlyReads out.2 index

theorem quiet_openForReading (path : Text) (drive : Drive) :
    Quiet drive ((openForReading path).outcome drive) := by
  rw [outcome_openForReading]
  cases drive.tree.get? (drive.keyOf path) with
  | none => exact ⟨.refl drive, fun h => by simp at h⟩
  | some node =>
    by_cases hdir : node.isDirectory = true
    · simp only [hdir, if_true]
      exact ⟨.refl drive, fun h => by simp at h⟩
    · simp only [hdir]
      refine ⟨undisturbed_addFile _ drive, fun {index} h => ?_⟩
      obtain rfl := Except.ok.inj h
      exact ⟨_, List.getElem?_concat_length, rfl, rfl⟩

theorem quiet_openHandle (now : Int) {path mode : Text} (h : (Request.openHandle path mode).Reads)
    (drive : Drive) : Quiet drive ((openHandle now path mode).outcome drive) := by
  rw [openHandle, Call.outcome_bind, Call.outcome_ofExcept]
  cases hp : HandleMode.parse mode path with
  | error failure => exact ⟨.refl drive, fun h => by simp at h⟩
  | ok parsed =>
    have hreads : parsed.writes = false := h hp
    simp only [hreads, Bool.false_eq_true, if_false]
    exact quiet_openForReading path drive

/-- **A request that reads** leaves the tree and the tokens as they are, and opens a handle that can only read,
if it opens any. -/
theorem undisturbed_perform (now : Int) {request : Request} (h : request.Reads) (s : Drive × TokenSource) :
    Undisturbed s.1 ((perform now request).outcome s).2.1 ∧
      ((perform now request).outcome s).2.2 = s.2 ∧
      ∀ {reply : request.Reply Nat} {index : Nat}, ((perform now request).outcome s).1 = .ok reply →
        request.handle? reply = some index → OnlyReads ((perform now request).outcome s).2.1 index := by
  -- what reads opens handles that only read, or changes nothing at all
  cases request with
  | createDirectory | createFile | delete | move | openOutput | setReadOnly | createTemp =>
    exact h.elim
  | openHandle path mode =>
    obtain ⟨hsame, hhandle⟩ := quiet_openHandle now h s.1
    exact ⟨hsame, rfl, fun hr hi => hhandle (hr.trans (congrArg Except.ok (Option.some.inj hi)))⟩
  | openInput path =>
    obtain ⟨hsame, hhandle⟩ := quiet_openForReading path s.1
    exact ⟨hsame, rfl, fun hr hi => hhandle (hr.trans (congrArg Except.ok (Option.some.inj hi)))⟩
  | listFiles path =>
    have hsame := listFiles_unchanged path s.1
    refine ⟨?_, rfl, fun _ hi => by simp [Request.handle?] at hi⟩
    exact hsame.symm ▸ Undisturbed.refl s.1
  | lastModified path | size path =>
    have hsame := node_unchanged path s.1
    refine ⟨?_, rfl, fun _ hi => by simp [Request.handle?] at hi⟩
    rw [perform, outcome_plain, Call.outcome_map, hsame]
    exact .refl s.1
  | _ => exact ⟨.refl s.1, rfl, fun _ hi => by simp [Request.handle?] at hi⟩

/-! ### Handles -/

/-- A change of a handle that lets it neither write nor store anything disturbs nothing. -/
theorem undisturbed_changeFile (index : Nat) {f : DriveFile → DriveFile}
    (hf : ∀ file, (f file).canWrite = file.canWrite ∧ (f file).dirty = file.dirty) (drive : Drive) :
    Undisturbed drive ((changeFile index f).outcome drive).2 := by
  refine ⟨rfl, rfl, fun {other} h => ?_⟩
  obtain ⟨old, hold, hwrite, hclean⟩ := h
  change ∃ file, (drive.files.modify index f)[other]? = some file ∧ _
  rw [List.getElem?_modify, hold]
  by_cases he : index = other
  · exact ⟨f old, by simp [he], (hf old).1.trans hwrite, (hf old).2.trans hclean⟩
  · exact ⟨old, by simp [he], hwrite, hclean⟩

theorem undisturbed_openFile (index : Nat) (drive : Drive) :
    Undisturbed drive ((openFile index).outcome drive).2 := by
  rw [openFile_unchanged]
  exact .refl drive

theorem undisturbed_take {α : Type} (index : Nat) (f : Cursor → α × Cursor) (drive : Drive) :
    Undisturbed drive ((take index f).outcome drive).2 := by
  rw [take]
  refine Call.inv_bind (undisturbed_openFile index drive) fun {file drive'} _ h => ?_
  have hmoved := undisturbed_changeFile index
    (f := fun old => { old with cursor := (f file.cursor).2 }) (fun _ => ⟨rfl, rfl⟩) drive'
  exact h.trans hmoved

theorem undisturbed_takeCounted {α : Type} (index : Nat) (count : Option Int)
    (f : Option Count → Cursor → α × Cursor) (drive : Drive) :
    Undisturbed drive ((takeCounted index count f).outcome drive).2 :=
  Call.inv_ofExcept (.refl drive) fun {n} _ => undisturbed_take index (f n) drive

theorem undisturbed_seek (index : Nat) (offset whence : Int) (drive : Drive) :
    Undisturbed drive ((seek index offset whence).outcome drive).2 := by
  rw [seek]
  refine Call.inv_bind (undisturbed_openFile index drive) fun {file drive'} _ h => ?_
  rw [Call.outcome_bind, Call.outcome_ofExcept]
  cases file.cursor.seek offset whence with
  | error failure => exact h
  | ok cursor =>
    have hmoved := undisturbed_changeFile index (f := fun old => { old with cursor })
      (fun _ => ⟨rfl, rfl⟩) drive'
    exact h.trans hmoved

/-- A handle that has nothing to store stores nothing. -/
theorem flush_unchanged (now : Int) (h : OnlyReads drive index) : ((flush now index).outcome drive).2 = drive := by
  obtain ⟨file, hfile, -, hclean⟩ := h
  by_cases hclosed : file.closed = true
  · rw [flush, Call.outcome_bind, outcome_openFile, hfile]
    simp [hclosed]
  · rw [outcome_flush_clean now hfile (Bool.eq_false_iff.mpr hclosed) hclean]

theorem undisturbed_close (now : Int) (h : OnlyReads drive index) :
    Undisturbed drive ((close now index).outcome drive).2 := by
  obtain ⟨file, hfile, -, hclean⟩ := h
  by_cases hclosed : file.closed = true
  · rw [outcome_close_of_found now hfile, if_pos hclosed]
    exact .refl drive
  · have hout := outcome_close_clean now hfile (Bool.eq_false_iff.mpr hclosed) hclean
    have hchange := undisturbed_changeFile index (f := fun file => { file with closed := true })
      (fun _ => ⟨rfl, rfl⟩) drive
    rw [outcome_changeFile hfile] at hchange
    rw [hout]
    exact hchange

/-- A handle that cannot write refuses to. -/
theorem write_refused (now : Int) (h : OnlyReads drive index) (data : Bytes) :
    (write now index data).outcome drive = (.error (.unsupported "write".toList), drive) := by
  obtain ⟨file, hfile, hwrite, -⟩ := h
  rw [outcome_write_of_found now hfile, if_neg (by simp [hwrite])]

theorem truncate_refused (now : Int) (h : OnlyReads drive index) (size : Option Int) :
    (truncate now index size).outcome drive = (.error (.unsupported "truncate".toList), drive) := by
  obtain ⟨file, hfile, hwrite, -⟩ := h
  rw [outcome_truncate_of_found now hfile, if_neg (by simp [hwrite])]

/-- **Whatever is asked** of a handle that can only read, the tree stays as it is. -/
theorem undisturbed_onFile (now : Int) (h : OnlyReads drive index) (request : StreamRequest) :
    Undisturbed drive ((onFile now index request).outcome drive).2 := by
  -- what would change the file is refused, since the handle does not write
  cases request with
  | read count => exact undisturbed_takeCounted index count Cursor.read drive
  | readLine limit => exact undisturbed_takeCounted index limit Cursor.readLine drive
  | readLines => exact undisturbed_take index Cursor.readLines drive
  | seek offset whence => exact undisturbed_seek index offset whence drive
  | write data =>
    show Undisturbed drive ((write now index data).outcome drive).2
    rw [write_refused now h]
    exact .refl drive
  | truncate size =>
    show Undisturbed drive ((truncate now index size).outcome drive).2
    rw [truncate_refused now h]
    exact .refl drive
  | flush =>
    show Undisturbed drive ((flush now index).outcome drive).2
    rw [flush_unchanged now h]
    exact .refl drive
  | close => exact undisturbed_close now h
  | tell | readable | seekable =>
    rw [onFile, Call.outcome_map]
    exact undisturbed_openFile index drive
  | writable =>
    obtain ⟨file, hfile, hwrite, -⟩ := h
    rw [onFile, Call.outcome_bind, outcome_file, hfile]
    simp only [hwrite]
    exact .refl drive
  | closed =>
    obtain ⟨file, hfile, -, -⟩ := h
    rw [onFile, Call.outcome_map, outcome_file, hfile]
    exact .refl drive

end FileRouter.Drive
