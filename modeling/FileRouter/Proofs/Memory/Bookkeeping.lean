import FileRouter.Proofs.Call
import FileRouter.Proofs.Memory.Handle
import FileRouter.Proofs.Memory.Reading
import FileRouter.Proofs.Memory.StaleHandle
import FileRouter.Proofs.Stream
/-!
What requests leave of the handles of a drive.

A request to a handle changes that handle alone, in a way that depends on nothing but the handle
(`DriveFile.after`, `files_onFile`): whether the buffer can be stored makes no difference to it. Requests for
paths add a handle at most, so every handle that is there stays as it is (`grown_perform`).
-/

namespace FileRouter

namespace DriveFile

/-- The cursor with which a handle meets a request: a handle that appends writes at the end. -/
def start (file : DriveFile) : StreamRequest → Cursor
  | .write _ => if file.appends then file.cursor.toEnd else file.cursor
  | _ => file.cursor

/-- The cursor that a write or a truncation makes of the one in the handle, if the handle accepts it. It has
to be open for writing, and a size must not be negative. -/
def accepted? (file : DriveFile) (request : StreamRequest) : Option Cursor :=
  if file.canWrite && !file.closed then
    match request with
    | .write data => some ((file.start request).write data)
    | .truncate size => (file.cursor.truncate size).toOption.map Prod.snd
    | _ => none
  else none

/-- Whether a request leaves a handle without changes to store: flushing it and closing it do while it is
open, and so does each change that a synchronous handle accepts. -/
def settles (file : DriveFile) (request : StreamRequest) : Bool :=
  match request with
  | .flush | .close => !file.closed
  | _ => file.isSync && (file.accepted? request).isSome

/-- What a request leaves of a handle. -/
def after (file : DriveFile) (request : StreamRequest) : DriveFile :=
  if file.closed then file
  else
    match request with
    | .flush => { file with dirty := false }
    | .close => { file with dirty := false, closed := true }
    | .write _ | .truncate _ =>
      match file.accepted? request with
      | some cursor => { file with cursor, dirty := !file.isSync }
      | none => file
    | _ => { file with cursor := (file.cursor.respond request).2 }

variable {file : DriveFile} {request : StreamRequest}

theorem after_of_closed (h : file.closed = true) (request : StreamRequest) : file.after request = file := by
  unfold after
  exact if_pos h

theorem after_flush (h : file.closed = false) : file.after .flush = { file with dirty := false } := by
  unfold after
  exact if_neg (by simp [h])

theorem accepted?_of_closed (h : file.closed = true) (request : StreamRequest) :
    file.accepted? request = none := by
  simp [accepted?, h]

/-- A handle has changes to store after a request exactly when the request has not settled it and it had
changes before or has accepted one. -/
theorem dirty_after (hclosed : file.closed = true → file.dirty = false) :
    (file.after request).dirty = true ↔
      file.settles request = false ∧ (file.dirty = true ∨ (file.accepted? request).isSome = true) := by
  by_cases hc : file.closed = true
  · rw [after_of_closed hc, accepted?_of_closed hc, hclosed hc]
    simp
  · rw [Bool.not_eq_true] at hc
    cases request with
    | flush | close => simp [after, settles, hc]
    -- what the cursor refuses leaves the mark as it was
    | write data | truncate size =>
      simp only [after, settles, hc, Bool.false_eq_true, if_false]
      cases file.accepted? _ with
      | some cursor => simp
      | none => simp
    | _ => simp [after, settles, accepted?, hc]

theorem closed_after : (file.after request).closed = (file.closed || request == .close) := by
  by_cases hc : file.closed = true
  · rw [after_of_closed hc, hc, Bool.true_or]
  · rw [Bool.not_eq_true] at hc
    cases request with
    | write data | truncate size =>
      simp only [after, hc, Bool.false_eq_true, if_false]
      cases file.accepted? _ <;> simp [hc]
    | _ => simp [after, hc]

/-- Closing a handle leaves no changes in it. -/
theorem clean_after (hclosed : file.closed = true → file.dirty = false) (h : (file.after request).closed = true) :
    (file.after request).dirty = false := by
  by_cases hc : file.closed = true
  · rw [after_of_closed hc]
    exact hclosed hc
  · obtain rfl : request = .close := by simpa [closed_after, hc] using h
    simp [after, hc]

/-- What a request stores is the whole buffer that it leaves in the handle. -/
theorem bytes_after {bytes : Bytes} (h : file.pending request = some bytes) :
    (file.after request).cursor.bytes = bytes := by
  cases request with
  | flush | close =>
    simp only [pending, Bool.and_eq_true, Bool.not_eq_true', Option.ite_none_right_eq_some,
      Option.some.injEq] at h
    simp [after, h.1.1, h.2]
  | write data =>
    simp only [pending, Bool.and_eq_true, Bool.not_eq_true', Option.ite_none_right_eq_some,
      Option.some.injEq] at h
    simp [after, accepted?, start, h.1.1, h.2]
  | truncate size =>
    simp only [pending, Bool.and_eq_true, Bool.not_eq_true', Option.ite_none_right_eq_some] at h
    -- what is pending then is what the cut has left
    obtain ⟨⟨⟨hwrite, hopen⟩, -⟩, h⟩ := h
    cases hcut : file.cursor.truncate size with
    | error failure => simp [hcut] at h
    | ok cut =>
      rw [hcut] at h
      simpa [after, accepted?, hwrite, hopen, hcut, Except.toOption] using h
  | _ => simp [pending] at h

/-- A request has something to store exactly when it settles a handle that has changes or accepts one. -/
theorem isSome_pending : (file.pending request).isSome = true ↔
    file.settles request = true ∧ (file.dirty = true ∨ (file.accepted? request).isSome = true) := by
  cases request with
  | flush | close =>
    by_cases hc : file.closed = true <;> simp [pending, settles, accepted?, hc]
  | write data =>
    by_cases hc : file.closed = true <;> by_cases hw : file.canWrite = true <;>
      simp [pending, settles, accepted?, hc, hw]
  | truncate size =>
    by_cases hc : file.closed = true <;> by_cases hw : file.canWrite = true <;>
      cases hcut : file.cursor.truncate size <;>
      simp [pending, settles, accepted?, hc, hw, hcut, Except.toOption]
  | _ => simp [pending, settles, accepted?]

end DriveFile

namespace Drive

open KeyMap Call

variable {index : Nat} {drive : Drive} {file : DriveFile}

/-! ### Requests to handles -/

theorem set_self (h : drive.files[index]? = some file) : drive.files.set index file = drive.files := by
  obtain ⟨hlt, rfl⟩ := List.getElem?_eq_some_iff.mp h
  exact List.set_getElem_self hlt

theorem files_commit (now : Int) (key : Key) (bytes : Bytes) (drive : Drive) :
    ((commit now key bytes).outcome drive).2.files = drive.files := by
  rw [outcome_commit]
  cases drive.tree.get? key with
  | none => rfl
  | some node =>
    simp only
    split_ifs <;> rfl

/-- A handle has no changes after it has been flushed, also when they could not be stored. -/
theorem files_flush (now : Int) (h : drive.files[index]? = some file) :
    ((flush now index).outcome drive).2.files = drive.files.set index (file.after .flush) := by
  by_cases hc : file.closed = true
  · rw [DriveFile.after_of_closed hc, set_self h, flush, outcome_bind, outcome_openFile_of_closed h hc]
  · rw [Bool.not_eq_true] at hc
    rw [DriveFile.after_flush hc]
    by_cases hd : file.dirty = true
    · rw [outcome_flush_dirty now h hc hd, files_commit]
    · rw [Bool.not_eq_true] at hd
      have hsame : { file with dirty := false } = file := by rw [← hd]
      rw [hsame, set_self h, outcome_flush_clean now h hc hd]

theorem files_accept (now : Int) (h : drive.files[index]? = some file) (hopen : file.closed = false)
    (cursor : Cursor) :
    ((accept now index cursor).outcome drive).2.files =
      drive.files.set index { file with cursor, dirty := !file.isSync } := by
  have hlt := (List.getElem?_eq_some_iff.mp h).1
  let changed : Drive := { drive with files := drive.files.set index { file with cursor, dirty := true } }
  have hget : changed.files[index]? = some { file with cursor, dirty := true } := List.getElem?_set_self hlt
  rw [outcome_accept_of_found now h]
  by_cases hsync : file.isSync = true
  · rw [if_pos hsync, files_flush now hget, DriveFile.after_flush (by exact hopen), List.set_set, hsync]
    rfl
  · rw [if_neg hsync, Bool.eq_false_iff.mpr hsync]
    rfl

theorem files_write (now : Int) (h : drive.files[index]? = some file) (data : Bytes) :
    ((write now index data).outcome drive).2.files = drive.files.set index (file.after (.write data)) := by
  rw [outcome_write_of_found now h]
  by_cases hw : file.canWrite = true
  · rw [if_pos hw]
    by_cases hc : file.closed = true
    · rw [if_pos hc, DriveFile.after_of_closed hc, set_self h]
    · rw [if_neg hc, outcome_bind_pure_snd, files_accept now h (Bool.eq_false_iff.mpr hc)]
      simp [DriveFile.after, DriveFile.accepted?, DriveFile.start, hw, hc]
  · have hsame : file.after (.write data) = file := by simp [DriveFile.after, DriveFile.accepted?, hw]
    rw [if_neg hw, hsame, set_self h]

theorem files_truncate (now : Int) (h : drive.files[index]? = some file) (size : Option Int) :
    ((truncate now index size).outcome drive).2.files =
      drive.files.set index (file.after (.truncate size)) := by
  rw [outcome_truncate_of_found now h]
  split_ifs with hw hc
  · rw [DriveFile.after_of_closed hc, set_self h]
  · rw [Bool.not_eq_true] at hc
    -- a size that is refused leaves the handle alone
    cases hcut : file.cursor.truncate size with
    | error failure =>
      have hsame : file.after (.truncate size) = file := by
        simp [DriveFile.after, DriveFile.accepted?, hcut, Except.toOption]
      rw [hsame, set_self h]
    | ok cut =>
      simp only
      rw [outcome_bind_pure_snd, files_accept now h hc]
      simp [DriveFile.after, DriveFile.accepted?, hw, hc, hcut, Except.toOption]
  · have hsame : file.after (.truncate size) = file := by simp [DriveFile.after, DriveFile.accepted?, hw]
    rw [hsame, set_self h]

theorem files_close (now : Int) (h : drive.files[index]? = some file) :
    ((close now index).outcome drive).2.files = drive.files.set index (file.after .close) := by
  rw [outcome_close_of_found now h]
  split_ifs with hc
  · rw [DriveFile.after_of_closed hc, set_self h]
  · have hlt := (List.getElem?_eq_some_iff.mp h).1
    rw [outcome_ensuring_snd]
    -- the handle that has been flushed is closed, whatever came of storing its buffer
    have hflushed : ((flush now index).outcome drive).2.files[index]? = some (file.after .flush) := by
      rw [files_flush now h, List.getElem?_set_self hlt]
    rw [outcome_changeFile hflushed]
    simp only
    rw [files_flush now h, List.set_set]
    simp [DriveFile.after, hc]

theorem files_take {α : Type} (h : drive.files[index]? = some file) (f : Cursor → α × Cursor) :
    ((take index f).outcome drive).2.files =
      drive.files.set index (if file.closed then file else { file with cursor := (f file.cursor).2 }) := by
  by_cases hc : file.closed = true
  · rw [if_pos hc, set_self h, take, outcome_bind, outcome_openFile, h]
    simp [hc]
  · rw [if_neg hc, outcome_take h (by simpa using hc)]

theorem files_takeCounted (h : drive.files[index]? = some file) (count : Option Int)
    (f : Option Count → Cursor → Bytes × Cursor) :
    ((takeCounted index count f).outcome drive).2.files =
      drive.files.set index (if file.closed then file else { file with cursor := (file.cursor.counted count f).2 }) := by
  rw [takeCounted, outcome_bind, outcome_ofExcept, Cursor.counted]
  cases Count.ofOption count with
  | error failure =>
    simp only [ite_self]
    rw [set_self h]
  | ok n => exact files_take h (f n)

theorem files_seek (h : drive.files[index]? = some file) (offset whence : Int) :
    ((seek index offset whence).outcome drive).2.files =
      drive.files.set index (file.after (.seek offset whence)) := by
  rw [seek, outcome_bind, outcome_openFile, h]
  by_cases hc : file.closed = true
  · rw [DriveFile.after_of_closed hc, set_self h]
    simp [hc]
  · simp only [hc, Bool.false_eq_true, if_false]
    rw [outcome_bind, outcome_ofExcept]
    -- a place that is refused leaves the handle where it is
    cases hmoved : file.cursor.seek offset whence with
    | error failure =>
      have hsame : file.after (.seek offset whence) = file := by
        simp [DriveFile.after, Cursor.respond, hmoved]
      rw [hsame, set_self h]
    | ok moved =>
      simp only
      rw [outcome_bind_pure_snd, outcome_changeFile h]
      simp [DriveFile.after, Cursor.respond, hmoved, hc]

/-- A request that only looks at a handle leaves it as it is. -/
theorem files_looking {request : StreamRequest} (h : drive.files[index]? = some file)
    (hlook : (file.cursor.respond request).2 = file.cursor)
    (hafter : file.after request =
      if file.closed then file else { file with cursor := (file.cursor.respond request).2 }) :
    drive.files = drive.files.set index (file.after request) := by
  rw [hafter, hlook, ite_self, set_self h]

/-- A request to a handle changes that handle and no other. -/
theorem files_onFile (now : Int) (h : drive.files[index]? = some file) (request : StreamRequest) :
    ((onFile now index request).outcome drive).2.files = drive.files.set index (file.after request) := by
  cases request <;> rw [onFile]
  case write data => exact files_write now h data
  case truncate size => exact files_truncate now h size
  case flush => exact files_flush now h
  case close => exact files_close now h
  case seek offset whence => exact files_seek h offset whence
  case read count => exact files_takeCounted h count Cursor.read
  case readLine limit => exact files_takeCounted h limit Cursor.readLine
  case readLines => exact files_take h Cursor.readLines
  -- the others only look at the handle
  case tell | readable | seekable =>
    rw [outcome_map, openFile_unchanged]
    exact files_looking h rfl rfl
  case closed =>
    rw [outcome_map, file_unchanged]
    exact files_looking h rfl rfl
  case writable =>
    rw [outcome_bind, outcome_file, h]
    simp only
    split_ifs
    · rw [outcome_map, openFile_unchanged]
      exact files_looking h rfl rfl
    · exact files_looking h rfl rfl

/-! ### Requests for paths -/

/-- The handles of a drive are those of a list, and behind them perhaps new ones, which are open and have no
changes. -/
def Grown (files : List DriveFile) (drive : Drive) : Prop :=
  ∃ opened, drive.files = files ++ opened ∧ ∀ file ∈ opened, file.dirty = false ∧ file.closed = false

variable {files : List DriveFile}

theorem grown_self (drive : Drive) : Grown drive.files drive := ⟨[], by simp, by simp⟩

theorem Grown.of_files {drive' : Drive} (h : Grown files drive) (hf : drive'.files = drive.files) :
    Grown files drive' := by
  obtain ⟨opened, ho, hclean⟩ := h
  exact ⟨opened, hf.trans ho, hclean⟩

/-- A handle that is there stays as it is. -/
theorem Grown.getElem? (h : Grown files drive) (hf : files[index]? = some file) :
    drive.files[index]? = some file := by
  obtain ⟨opened, ho, -⟩ := h
  rw [ho, List.getElem?_append_left (List.getElem?_eq_some_iff.mp hf).1, hf]

/-- A handle that was not there has no changes, and is open. -/
theorem Grown.clean (h : Grown files drive) (hf : files[index]? = none) (hg : drive.files[index]? = some file) :
    file.dirty = false ∧ file.closed = false := by
  obtain ⟨opened, ho, hclean⟩ := h
  rw [ho, List.getElem?_append_right (List.getElem?_eq_none_iff.mp hf)] at hg
  exact hclean file (List.mem_of_getElem? hg)

theorem grown_addFile {new : DriveFile} (hdirty : new.dirty = false) (hclosed : new.closed = false) :
    Keeps (Grown files) (addFile new) := by
  rintro drive ⟨opened, ho, hclean⟩
  refine ⟨opened ++ [new], ?_, ?_⟩
  · show drive.files ++ [new] = files ++ (opened ++ [new])
    rw [ho, List.append_assoc]
  · intro file hm
    rcases List.mem_append.mp hm with hm | hm
    · exact hclean file hm
    · rw [List.mem_singleton.mp hm]
      exact ⟨hdirty, hclosed⟩

theorem grown_of_spares {α : Type} {call : Call Drive α} (h : Spares Drive.files call) :
    Keeps (Grown files) call :=
  fun drive hgrown => hgrown.of_files (h drive)

theorem spares_files_store (key : Key) (node : Node) : Spares Drive.files (store key node) := fun _ => rfl

theorem spares_files_create (key : Key) (node : Node) (path : Text) :
    Spares Drive.files (create key node path) := by
  rw [create]
  refine spares_bind spares_get fun drive => ?_
  cases drive.parentFault? key path with
  | some failure => exact spares_throw failure
  | none => exact spares_files_store key node

theorem spares_files_createDirectory (now : Int) (path : Text) :
    Spares Drive.files (createDirectory now path) := by
  rw [createDirectory]
  refine spares_bind spares_get fun drive => ?_
  cases drive.node? path with
  | none => exact spares_files_create _ _ path
  | some node =>
    simp only
    split_ifs
    · exact spares_pure _
    · exact spares_throw _

theorem spares_files_createFile (now : Int) (path : Text) : Spares Drive.files (createFile now path) := by
  rw [createFile]
  refine spares_bind spares_get fun drive => ?_
  cases drive.node? path with
  | some node => exact spares_pure false
  | none => exact spares_bind (spares_files_create _ _ path) fun _ => spares_pure true

theorem spares_files_delete (path : Text) : Spares Drive.files (delete path) := by
  intro drive
  rw [outcome_delete]
  cases drive.tree.get? (drive.keyOf path) with
  | none => rfl
  | some node =>
    simp only
    split_ifs <;> rfl

theorem spares_files_move (old new : Text) (replace : Bool) : Spares Drive.files (move old new replace) := by
  intro drive
  rw [outcome_move]
  cases drive.tree.get? (drive.keyOf old) with
  | none => rfl
  | some node =>
    simp only
    split_ifs
    · rfl
    · cases drive.moveFault? old new replace <;> rfl

theorem spares_files_setReadOnly (path : Text) : Spares Drive.files (setReadOnly path) := by
  intro drive
  rw [outcome_setReadOnly]
  cases drive.tree.get? (drive.keyOf path) <;> rfl

theorem spares_files_prepareForWriting (now : Int) (path : Text) :
    Spares Drive.files (prepareForWriting now path) := by
  rw [prepareForWriting]
  refine spares_bind spares_get fun drive => ?_
  cases drive.node? path with
  | none => exact spares_bind (spares_files_create _ _ path) fun _ => spares_pure _
  | some node =>
    simp only
    split_ifs
    · exact spares_throw _
    · exact spares_throw _
    · exact spares_pure _

theorem spares_files_clear (now : Int) (key : Key) : Spares Drive.files (clear now key) := by
  intro drive
  rw [outcome_clear]
  cases drive.tree.get? key <;> rfl

/-! Opening a file adds a handle. -/

theorem grown_openForReading (path : Text) : Keeps (Grown files) (openForReading path) := by
  intro drive h
  rw [outcome_openForReading]
  cases drive.tree.get? (drive.keyOf path) with
  | none => exact h
  | some node =>
    simp only
    split_ifs
    · exact h
    · exact grown_addFile rfl rfl drive h

theorem grown_openForUpdate (now : Int) (path : Text) (isSync : Bool) :
    Keeps (Grown files) (openForUpdate now path isSync) := by
  rw [openForUpdate]
  refine keeps_bind (grown_of_spares (spares_files_prepareForWriting now path)) fun bytes => ?_
  exact keeps_get fun drive h => grown_addFile rfl rfl drive h

theorem grown_openOutput (now : Int) (path : Text) (append : Bool) :
    Keeps (Grown files) (openOutput now path append) := by
  rw [openOutput]
  refine keeps_bind (grown_of_spares (spares_files_prepareForWriting now path)) fun bytes => ?_
  refine keeps_get fun drive h => ?_
  split_ifs
  · exact grown_addFile rfl rfl drive h
  · exact keeps_bind (grown_of_spares (spares_files_clear now _)) (fun _ => grown_addFile rfl rfl) drive h

theorem grown_openHandle (now : Int) (path mode : Text) : Keeps (Grown files) (openHandle now path mode) := by
  rw [openHandle]
  refine keeps_bind (keeps_of_unchanged fun _ => rfl) fun mode => ?_
  split_ifs
  · exact grown_openForUpdate now path _
  · exact grown_openForReading path

theorem files_createTempWithin (limit : Nat) (now : Int) (start ending : Text) (s : Drive × TokenSource) :
    ((createTempWithin limit now start ending).outcome s).2.1.files = s.1.files := by
  obtain ⟨drive, tokens⟩ := s
  rw [createTempWithin, outcome_bind, outcome_get]
  simp only
  cases tokens.search (fun token => drive.isUnused (drive.candidateText start ending token)) limit with
  | mk token? rest =>
    simp only
    rw [outcome_bind, outcome_set]
    -- what is looked for and what is made are entries, so no handle is touched
    cases token? with
    | none => rfl
    | some token =>
      simp only
      split_ifs
      · rfl
      · rw [outcome_bind_pure_snd]
        exact spares_files_create _ _ start drive

/-- A request for a path adds a handle at most. -/
theorem grown_perform (now : Int) (request : Request) (s : Drive × TokenSource) :
    Grown s.1.files ((perform now request).outcome s).2.1 := by
  have h := grown_self s.1
  -- only opening adds a handle, and it adds it behind the others
  cases request with
  | createDirectory path => exact h.of_files (spares_files_createDirectory now path s.1)
  | createFile path => exact h.of_files (spares_files_createFile now path s.1)
  | delete path => exact h.of_files (spares_files_delete path s.1)
  | move old new replace => exact h.of_files (spares_files_move old new replace s.1)
  | setReadOnly path => exact h.of_files (spares_files_setReadOnly path s.1)
  | openHandle path mode => exact grown_openHandle now path mode s.1 h
  | openInput path => exact grown_openForReading path s.1 h
  | openOutput path append => exact grown_openOutput now path append s.1 h
  | createTemp start ending deleteOnExit inTempDir =>
    rw [perform, createTemp, outcome_bind, outcome_get]
    exact h.of_files (files_createTempWithin _ now start ending s)
  | listFiles path => exact h.of_files (congrArg Drive.files (listFiles_unchanged path s.1))
  | lastModified path | size path =>
    rw [perform, outcome_plain, outcome_map]
    exact h.of_files (congrArg Drive.files (node_unchanged path s.1))
  | _ => exact h

end Drive

end FileRouter
