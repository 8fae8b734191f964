import FileRouter.Proofs.Memory.Handle
import FileRouter.Proofs.Stream
/-!
Handles of a drive as cursors.

A handle that can write shows its buffer. As long as the file is there the buffer can be stored, and once it is
stored the file holds what the handle shows. So a handle without changes shows its file (`Showing.stored`), whether
every change is stored at once or the changes wait until the handle is closed.
-/

namespace FileRouter.Drive

variable {index : Nat} {scheme : Text} {key : Key} {isSync dirty : Bool} {c c' : Cursor} {drive : Drive}

/-- A handle that writes, and not only at the end, is open on a file and has a cursor for its buffer. -/
structure Showing (index : Nat) (scheme : Text) (key : Key) (isSync dirty : Bool) (c : Cursor) (drive : Drive) :
    Prop where
  sameScheme : drive.scheme = scheme
  found : drive.files[index]? = some ⟨key, c, true, false, isSync, dirty, false⟩
  stored : ∃ node, drive.tree.get? key = some node ∧ node.isDirectory = false ∧ (dirty = false → node.bytes = c.bytes)

/-- The handle with an index shows a cursor, with changes to store or without. -/
def Shows (index : Nat) (scheme : Text) (key : Key) (isSync : Bool) (c : Cursor) (drive : Drive) : Prop :=
  ∃ dirty, Showing index scheme key isSync dirty c drive

/-! ### Changes of the handle -/

/-- The buffer of a handle without changes is its file's. -/
theorem outcome_changeFile_of_showing (f : DriveFile → DriveFile) (c' : Cursor) (dirty' : Bool)
    (h : Showing index scheme key isSync dirty c drive)
    (hf : f ⟨key, c, true, false, isSync, dirty, false⟩ = ⟨key, c', true, false, isSync, dirty', false⟩)
    (hclean : dirty' = false → dirty = false ∧ c'.bytes = c.bytes) :
    ∃ drive', (changeFile index f).outcome drive = (.ok (), drive') ∧
      Showing index scheme key isSync dirty' c' drive' := by
  obtain ⟨node, hnode, hfile, hbytes⟩ := h.stored
  refine ⟨_, outcome_changeFile h.found f, h.sameScheme, ?_, node, hnode, hfile, fun hd => ?_⟩
  · rw [hf]
    exact List.getElem?_set_self (List.getElem?_eq_some_iff.mp h.found).1
  · obtain ⟨hdirty, hsame⟩ := hclean hd
    rw [hbytes hdirty, hsame]

/-- Storing what a handle shows leaves it without changes. -/
theorem outcome_flush_of_showing (now : Int) (h : Showing index scheme key isSync dirty c drive) :
    ∃ drive', (flush now index).outcome drive = (.ok (), drive') ∧
      Showing index scheme key isSync false c drive' := by
  obtain ⟨node, hnode, hfile, hbytes⟩ := h.stored
  cases dirty with
  | false => exact ⟨drive, outcome_flush_clean now h.found rfl rfl, h⟩
  | true =>
    rw [outcome_flush_dirty now h.found rfl rfl, outcome_commit, hnode]
    simp only [hfile, Bool.false_eq_true, if_false]
    refine ⟨_, rfl, h.sameScheme, ?_, node.written c.bytes now, ?_, hfile, fun _ => rfl⟩
    · exact List.getElem?_set_self (List.getElem?_eq_some_iff.mp h.found).1
    · rw [KeyMap.get?_put, if_pos rfl]

/-- A changed buffer is shown at once, also when it is not stored. -/
theorem does_accept (now : Int) (c c' : Cursor) :
    Does (Shows index scheme key isSync) c (accept now index c') () c' := by
  rintro drive ⟨dirty, h⟩
  obtain ⟨changed, hchange, hshown⟩ := outcome_changeFile_of_showing
    (fun file => { file with cursor := c', dirty := true }) c' true h rfl (by simp)
  rw [accept, Call.outcome_bind, hchange]
  simp only
  rw [Call.outcome_bind, outcome_file, hshown.found]
  simp only
  cases isSync with
  | false => exact ⟨changed, rfl, true, hshown⟩
  | true =>
    obtain ⟨stored, hflush, hstored⟩ := outcome_flush_of_showing now hshown
    exact ⟨stored, hflush, false, hstored⟩

/-! ### Requests -/

variable {α : Type} {answer : α}

/-- A request that looks up its handle finds one that is open for writing. -/
theorem does_file {next : DriveFile → Call Drive α}
    (h : ∀ dirty, Does (Shows index scheme key isSync) c (next ⟨key, c, true, false, isSync, dirty, false⟩) answer c') :
    Does (Shows index scheme key isSync) c (file index >>= next) answer c' := by
  rintro drive ⟨dirty, hs⟩
  rw [Call.outcome_bind, outcome_file, hs.found]
  exact h dirty drive ⟨dirty, hs⟩

theorem does_openFile {next : DriveFile → Call Drive α}
    (h : ∀ dirty, Does (Shows index scheme key isSync) c (next ⟨key, c, true, false, isSync, dirty, false⟩) answer c') :
    Does (Shows index scheme key isSync) c (openFile index >>= next) answer c' := by
  rintro drive ⟨dirty, hs⟩
  rw [Call.outcome_bind, outcome_openFile_of_open hs.found rfl]
  exact h dirty drive ⟨dirty, hs⟩

theorem does_write (now : Int) (data : Bytes) :
    Does (Shows index scheme key isSync) c (write now index data) data.length (c.write data) :=
  does_file fun _ => does_openFile fun _ => (does_accept now c _).bind (does_pure _)

theorem does_flush (now : Int) : Does (Shows index scheme key isSync) c (flush now index) () c := by
  rintro drive ⟨dirty, hs⟩
  obtain ⟨stored, hflush, hstored⟩ := outcome_flush_of_showing now hs
  exact ⟨stored, hflush, false, hstored⟩

/-- Closing a handle stores what it shows. -/
theorem outcome_close_of_shows (now : Int) (h : Shows index scheme key isSync c drive) :
    ∃ drive', (close now index).outcome drive = (.ok (), drive') ∧ drive'.scheme = scheme ∧
      ∃ node, drive'.tree.get? key = some node ∧ node.isDirectory = false ∧ node.bytes = c.bytes := by
  obtain ⟨dirty, hs⟩ := h
  obtain ⟨stored, hflush, hstored⟩ := outcome_flush_of_showing now hs
  obtain ⟨node, hnode, hfile, hbytes⟩ := hstored.stored
  rw [outcome_close_of_found now hs.found, if_neg Bool.false_ne_true, Call.outcome_ensuring, hflush]
  simp only [outcome_changeFile hstored.found]
  exact ⟨_, rfl, hstored.sameScheme, node, hnode, hfile, hbytes rfl⟩

/-- Opening a file in a mode that writes shows the file from its start. -/
theorem outcome_openHandle {mode : HandleMode} {path : Text} {node : Node} (now : Int) (hmode : mode.writes = true)
    (hnode : drive.node? path = some node) (hfile : node.isDirectory = false) (hopen : node.readOnly = false) :
    ∃ drive', (openHandle now path mode.name).outcome drive = (.ok drive.files.length, drive') ∧
      Shows drive.files.length drive.scheme (drive.keyOf path) mode.isSync ⟨node.bytes, 0⟩ drive' := by
  rw [node?] at hnode
  have hbytes : (prepareForWriting now path).outcome drive = (.ok node.bytes, drive) := by
    rw [outcome_prepareForWriting, hnode]
    simp [hfile, hopen]
  rw [openHandle, HandleMode.parse_name, Call.outcome_bind, Call.outcome_ofExcept]
  simp only [hmode, if_true]
  rw [openForUpdate, Call.outcome_bind, hbytes]
  simp only
  rw [Call.outcome_bind, Call.outcome_get]
  exact ⟨_, rfl, false, rfl, List.getElem?_concat_length, node, hnode, hfile, fun _ => rfl⟩

end FileRouter.Drive
