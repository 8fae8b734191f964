import FileRouter.Proofs.Cursor
import FileRouter.Proofs.Memory.Drive
/-!
What opening a file of a drive does, and what requests to an open handle do.

Where a file can be written, opening it for writing leaves it empty and every other entry as it was
(`outcome_openOutput_of_writable`). A request that changes a handle is told by the handle that it finds
(`outcome_write_of_found`, `outcome_close_of_found`). For a handle that is open, each equation says what one request
answers and what it leaves of the drive: reading moves its position, writing changes its buffer, and closing it stores
the buffer if there is something to store.
-/

namespace FileRouter

namespace Drive

variable {index : Nat} {drive : Drive} {file : DriveFile}

/-! ### Opening -/

theorem outcome_openForReading_of_file {path : Text} {node : Node}
    (hg : drive.tree.get? (drive.keyOf path) = some node) (hfile : node.isDirectory = false) :
    (openForReading path).outcome drive =
      (.ok drive.files.length,
        { drive with
          files := drive.files ++
            [⟨drive.keyOf path, ⟨node.bytes, 0⟩, false, false, false, false, false⟩] }) := by
  rw [outcome_openForReading, hg]
  simp only [hfile, Bool.false_eq_true, if_false]
  rfl

/-- The bytes of the file that a path names. -/
def contentAt? (drive : Drive) (path : Text) : Option Bytes :=
  (drive.node? path).bind fun node => if node.isDirectory then none else some node.bytes

theorem contentAt?_eq_some_iff {path : Text} {bytes : Bytes} :
    drive.contentAt? path = some bytes ↔
      ∃ node, drive.node? path = some node ∧ node.isDirectory = false ∧ node.bytes = bytes := by
  rw [contentAt?, Option.bind_eq_some_iff]
  refine exists_congr fun node => and_congr_right fun _ => ?_
  cases node.isDirectory <;> simp

/-- A file can be written at a key: one is there and not protected, or nothing is there yet, in a directory. -/
def Writable (drive : Drive) (key : Key) : Prop :=
  match drive.tree.get? key with
  | none => drive.tree.HasDirectory key.parent
  | some node => node.isDirectory = false ∧ node.readOnly = false

theorem prepareForWriting_of_writable (now : Int) {path : Text} (h : drive.Writable (drive.keyOf path)) :
    ∃ tree node, (prepareForWriting now path).outcome drive = (.ok node.bytes, { drive with tree }) ∧
      tree.get? (drive.keyOf path) = some node ∧ node.isDirectory = false ∧ node.readOnly = false ∧
      node.bytes = (drive.contentAt? path).getD [] ∧
      ∀ value, tree.put (drive.keyOf path) value = drive.tree.put (drive.keyOf path) value := by
  rw [outcome_prepareForWriting, contentAt?, node?]
  cases hg : drive.tree.get? (drive.keyOf path) with
  -- nothing there: `create` puts an empty file below the parent, and a later `put` overrides it
  | none =>
    rw [Writable, hg] at h
    refine ⟨drive.tree.put (drive.keyOf path) (.newFile now), .newFile now, ?_, ?_, rfl, rfl, rfl, fun value => ?_⟩
    · simp only
      rw [outcome_create, parentFault?_eq_none_iff.mpr h]
      rfl
    · rw [KeyMap.get?_put, if_pos rfl]
    · exact KeyMap.put_put _ _ _ _
  | some node =>
    rw [Writable, hg] at h
    obtain ⟨hfile, hunlocked⟩ := h
    refine ⟨drive.tree, node, ?_, hg, hfile, hunlocked, ?_, fun _ => rfl⟩
    · simp [hfile, hunlocked]
    · simp [hfile]

/-- Where a file can be written, opening it for writing leaves it empty, and nothing else is touched. -/
theorem outcome_openOutput_of_writable (now : Int) {path : Text} (h : drive.Writable (drive.keyOf path)) :
    (openOutput now path false).outcome drive =
      (.ok drive.files.length,
        { drive with
          tree := drive.tree.put (drive.keyOf path) ⟨false, [], now, false⟩
          files := drive.files ++ [⟨drive.keyOf path, ⟨[], 0⟩, true, false, false, false, false⟩] }) := by
  obtain ⟨tree, node, hprepare, hnode, hfile, hunlocked, -, hput⟩ := prepareForWriting_of_writable now h
  have hemptied : node.written [] now = ⟨false, [], now, false⟩ := by rw [Node.written, hfile, hunlocked]
  have hclear : (clear now (drive.keyOf path)).outcome { drive with tree } =
      (.ok (), { drive with tree := drive.tree.put (drive.keyOf path) ⟨false, [], now, false⟩ }) := by
    rw [outcome_clear, hnode]
    simp only [hemptied, hput]
  rw [openOutput, Call.outcome_bind, hprepare]
  simp only [Bool.false_eq_true, if_false]
  rw [Call.outcome_bind, Call.outcome_get]
  simp only
  have hkey : ({ drive with tree } : Drive).keyOf path = drive.keyOf path := rfl
  rw [Call.outcome_bind, hkey, hclear]
  rfl

/-- Where no file can be written, opening one for writing fails without a trace. -/
theorem outcome_openOutput_of_not_writable (now : Int) {path : Text} (h : ¬ drive.Writable (drive.keyOf path)) :
    ∃ failure, (openOutput now path false).outcome drive = (.error failure, drive) := by
  -- It fails before a handle is made: either `create` has a fault, or the node is a directory or locked.
  have hprepare : ∃ failure, (prepareForWriting now path).outcome drive = (.error failure, drive) := by
    rw [outcome_prepareForWriting]
    rw [Writable] at h
    cases hg : drive.tree.get? (drive.keyOf path) with
    | none =>
      rw [hg] at h
      obtain ⟨failure, hfault⟩ := Option.ne_none_iff_exists'.mp (mt parentFault?_eq_none_iff.mp h)
      exact ⟨failure, by simp only; rw [outcome_create, hfault]; rfl⟩
    | some node =>
      rw [hg] at h
      simp only
      split_ifs with hdir hlocked
      · exact ⟨_, rfl⟩
      · exact ⟨_, rfl⟩
      · exact absurd ⟨Bool.not_eq_true _ ▸ hdir, Bool.not_eq_true _ ▸ hlocked⟩ h
  obtain ⟨failure, hprepare⟩ := hprepare
  exact ⟨failure, by rw [openOutput, Call.outcome_bind, hprepare]⟩

/-! ### Requests to a handle -/

theorem modify_eq_set (h : drive.files[index]? = some file) (f : DriveFile → DriveFile) :
    drive.files.modify index f = drive.files.set index (f file) := by
  refine List.ext_getElem? fun other => ?_
  rw [List.getElem?_modify, List.getElem?_set]
  by_cases he : index = other
  · subst he
    obtain ⟨hlt, hvalue⟩ := List.getElem?_eq_some_iff.mp h
    simp [hlt, hvalue]
  · simp [he]

theorem outcome_changeFile (h : drive.files[index]? = some file) (f : DriveFile → DriveFile) :
    (changeFile index f).outcome drive =
      (.ok (), { drive with files := drive.files.set index (f file) }) := by
  rw [← modify_eq_set h]
  rfl

theorem outcome_openFile_of_open (h : drive.files[index]? = some file) (hopen : file.closed = false) :
    (openFile index).outcome drive = (.ok file, drive) := by
  rw [outcome_openFile, h]
  simp [hopen]

theorem outcome_openFile_of_closed (h : drive.files[index]? = some file) (hclosed : file.closed = true) :
    (openFile index).outcome drive = (.error closedFault, drive) := by
  rw [outcome_openFile, h]
  simp [hclosed]

/-- A request to a handle that is not there fails at once. -/
theorem outcome_onFile_of_missing (now : Int) (h : drive.files[index]? = none) (request : StreamRequest) :
    ∃ failure, (onFile now index request).outcome drive = (.error failure, drive) := by
  have hfile : (Drive.file index).outcome drive = (.error closedFault, drive) := by rw [outcome_file, h]
  have hopen : (openFile index).outcome drive = (.error closedFault, drive) := by rw [outcome_openFile, h]
  cases request <;> rw [onFile]
  -- the count is looked at before the handle
  case read count | readLine count =>
    rw [takeCounted, Call.outcome_bind, Call.outcome_ofExcept]
    cases Count.ofOption count with
    | error failure => exact ⟨failure, rfl⟩
    | ok n => exact ⟨closedFault, by simp only [take, Call.outcome_bind, hopen]⟩
  case write | truncate | close | writable =>
    exact ⟨closedFault, by simp only [write, truncate, close, Call.outcome_bind, hfile]⟩
  case closed => exact ⟨closedFault, by rw [Call.outcome_map, hfile]; rfl⟩
  case tell | readable | seekable => exact ⟨closedFault, by rw [Call.outcome_map, hopen]; rfl⟩
  all_goals exact ⟨closedFault, by simp only [take, seek, flush, Call.outcome_bind, hopen]⟩

/-- A handle that cannot write refuses to, also when it is closed; one that can takes in what it is given if it is
open. -/
theorem outcome_write_of_found (now : Int) (h : drive.files[index]? = some file) (data : Bytes) :
    (write now index data).outcome drive =
      if file.canWrite then
        if file.closed then (.error closedFault, drive)
        else (accept now index ((if file.appends then file.cursor.toEnd else file.cursor).write data) >>= fun _ =>
          pure data.length).outcome drive
      else (.error (.unsupported "write".toList), drive) := by
  rw [write, Call.outcome_bind, outcome_file, h]
  simp only [Bool.not_eq_true']
  by_cases hwrite : file.canWrite = true
  · rw [if_pos hwrite, if_neg (by simp [hwrite]), Call.outcome_bind]
    by_cases hclosed : file.closed = true
    · rw [if_pos hclosed, outcome_openFile_of_closed h hclosed]
    · rw [if_neg hclosed, outcome_openFile_of_open h (Bool.eq_false_iff.mpr hclosed)]
  · rw [if_neg hwrite, if_pos (Bool.eq_false_iff.mpr hwrite)]
    rfl

/-- The same holds of cutting the buffer, where the size has to be right too. -/
theorem outcome_truncate_of_found (now : Int) (h : drive.files[index]? = some file) (size : Option Int) :
    (truncate now index size).outcome drive =
      if file.canWrite then
        if file.closed then (.error closedFault, drive)
        else
          match file.cursor.truncate size with
          | .error failure => (.error failure, drive)
          | .ok cut => (accept now index cut.2 >>= fun _ => pure cut.1).outcome drive
      else (.error (.unsupported "truncate".toList), drive) := by
  rw [truncate, Call.outcome_bind, outcome_file, h]
  simp only [Bool.not_eq_true']
  by_cases hwrite : file.canWrite = true
  · rw [if_pos hwrite, if_neg (by simp [hwrite]), Call.outcome_bind]
    by_cases hclosed : file.closed = true
    · rw [if_pos hclosed, outcome_openFile_of_closed h hclosed]
    · rw [if_neg hclosed, outcome_openFile_of_open h (Bool.eq_false_iff.mpr hclosed)]
      simp only
      rw [Call.outcome_bind, Call.outcome_ofExcept]
      cases file.cursor.truncate size <;> rfl
  · rw [if_neg hwrite, if_pos (Bool.eq_false_iff.mpr hwrite)]
    rfl

theorem outcome_flush_clean (now : Int) (h : drive.files[index]? = some file)
    (hopen : file.closed = false) (hclean : file.dirty = false) :
    (flush now index).outcome drive = (.ok (), drive) := by
  rw [flush, Call.outcome_bind, outcome_openFile_of_open h hopen]
  simp only [hclean, Bool.false_eq_true, if_false]
  rfl

/-- A handle with changes has none any more when they come to be stored. -/
theorem outcome_flush_dirty (now : Int) (h : drive.files[index]? = some file)
    (hopen : file.closed = false) (hdirty : file.dirty = true) :
    (flush now index).outcome drive =
      (commit now file.key file.cursor.bytes).outcome
        { drive with files := drive.files.set index { file with dirty := false } } := by
  rw [flush, Call.outcome_bind, outcome_openFile_of_open h hopen]
  simp only [hdirty, if_true]
  rw [Call.outcome_bind, outcome_changeFile h]

/-- A changed buffer stays in a handle, unless it is synchronous. -/
theorem outcome_accept_of_found (now : Int) (h : drive.files[index]? = some file) (cursor : Cursor) :
    (accept now index cursor).outcome drive =
      if file.isSync then
        (flush now index).outcome { drive with files := drive.files.set index { file with cursor, dirty := true } }
      else (.ok (), { drive with files := drive.files.set index { file with cursor, dirty := true } }) := by
  have hlt := (List.getElem?_eq_some_iff.mp h).1
  rw [accept, Call.outcome_bind, outcome_changeFile h]
  simp only
  rw [Call.outcome_bind, outcome_file, List.getElem?_set_self hlt]
  simp only
  split_ifs <;> rfl

theorem outcome_close_of_found (now : Int) (h : drive.files[index]? = some file) :
    (close now index).outcome drive =
      if file.closed then (.ok (), drive)
      else (Call.ensuring (flush now index)
        (changeFile index fun file => { file with closed := true })).outcome drive := by
  rw [close, Call.outcome_bind, outcome_file, h]
  simp only
  split_ifs <;> rfl

theorem outcome_take {α : Type} (h : drive.files[index]? = some file) (hopen : file.closed = false)
    (f : Cursor → α × Cursor) :
    (take index f).outcome drive =
      (.ok (f file.cursor).1,
        { drive with files := drive.files.set index { file with cursor := (f file.cursor).2 } }) := by
  rw [take, Call.outcome_bind, outcome_openFile_of_open h hopen]
  simp only
  rw [Call.outcome_bind, outcome_changeFile h]
  rfl

theorem outcome_takeCounted {α : Type} (h : drive.files[index]? = some file) (hopen : file.closed = false)
    {count : Option Int} {n : Option Count} (hcount : Count.ofOption count = .ok n)
    (f : Option Count → Cursor → α × Cursor) :
    (takeCounted index count f).outcome drive =
      (.ok (f n file.cursor).1,
        { drive with files := drive.files.set index { file with cursor := (f n file.cursor).2 } }) := by
  rw [takeCounted, hcount]
  exact outcome_take h hopen (f n)

/-- A write to a handle that is not synchronous stays in the handle. -/
theorem outcome_write (now : Int) (h : drive.files[index]? = some file) (hopen : file.closed = false)
    (hwrite : file.canWrite = true) (hsync : file.isSync = false) (data : Bytes) :
    (write now index data).outcome drive =
      (.ok data.length,
        { drive with
          files := drive.files.set index
            { file with
              cursor := (if file.appends then file.cursor.toEnd else file.cursor).write data
              dirty := true } }) := by
  rw [outcome_write_of_found now h, if_pos hwrite, if_neg (by simp [hopen]), Call.outcome_bind,
    outcome_accept_of_found now h, if_neg (by simp [hsync])]
  rfl

/-- Closing a handle without changes stores nothing. -/
theorem outcome_close_clean (now : Int) (h : drive.files[index]? = some file)
    (hopen : file.closed = false) (hclean : file.dirty = false) :
    (close now index).outcome drive =
      (.ok (), { drive with files := drive.files.set index { file with closed := true } }) := by
  rw [outcome_close_of_found now h, if_neg (by simp [hopen]), Call.outcome_ensuring,
    outcome_flush_clean now h hopen hclean]
  simp only [outcome_changeFile h]

/-- Closing a handle with changes stores its buffer, when its file is there. -/
theorem outcome_close_dirty (now : Int) (h : drive.files[index]? = some file)
    (hopen : file.closed = false) (hdirty : file.dirty = true) {node : Node}
    (hg : drive.tree.get? file.key = some node) (hfile : node.isDirectory = false) :
    (close now index).outcome drive =
      (.ok (), { drive with
        tree := drive.tree.put file.key (node.written file.cursor.bytes now)
        files := drive.files.set index { file with dirty := false, closed := true } }) := by
  have hlt := (List.getElem?_eq_some_iff.mp h).1
  rw [outcome_close_of_found now h, if_neg (by simp [hopen]), Call.outcome_ensuring,
    outcome_flush_dirty now h hopen hdirty, outcome_commit, hg]
  simp only [hfile, Bool.false_eq_true, if_false]
  -- the handle is changed twice: it is clean once its buffer is stored, and then it is closed
  let stored : Drive :=
    { drive with
      tree := drive.tree.put file.key (node.written file.cursor.bytes now)
      files := drive.files.set index { file with dirty := false } }
  have hget : stored.files[index]? = some { file with dirty := false } := by
    simp [stored, hlt]
  have hchange := outcome_changeFile hget ({ · with closed := true })
  simp only [stored, List.set_set] at hchange
  exact hchange

end Drive

end FileRouter
