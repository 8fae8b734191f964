import FileRouter.Proofs.Call
import FileRouter.Proofs.Memory.Drive
/-!
Failing without a trace.

Whatever is asked of a drive or of one of its handles, and whatever state both are in: if it fails, every entry of
the tree is as it was (`tree_of_failure`). The reason is the same throughout. What comes before the first change of
the tree leaves the tree alone, and what comes after it cannot fail. A handle is no part of the tree: a synchronous
write that cannot be stored stays in the buffer of its handle.
-/

namespace FileRouter.Drive

open Call

/-- A call that has left the tree as it was whenever it fails. -/
abbrev FailsClean {α : Type} (call : Call Drive α) : Prop := Traceless Drive.tree call

/-- A call that leaves the tree as it is. -/
abbrev SparesTree {α : Type} (call : Call Drive α) : Prop := Spares Drive.tree call

/-! ### Requests -/

theorem succeeds_store (key : Key) (node : Node) : Succeeds (store key node) := succeeds_change _

theorem succeeds_addFile (file : DriveFile) : Succeeds (addFile file) :=
  fun drive => ⟨drive.files.length, rfl⟩

/-- The parent is looked at before the entry is made. -/
theorem failsClean_create (key : Key) (node : Node) (path : Text) : FailsClean (create key node path) := by
  rw [create]
  refine traceless_bind spares_get fun drive => ?_
  cases drive.parentFault? key path with
  | some failure => exact (spares_throw failure).traceless
  | none => exact (succeeds_store key node).traceless

theorem failsClean_createDirectory (now : Int) (path : Text) : FailsClean (createDirectory now path) := by
  rw [createDirectory]
  refine traceless_bind spares_get fun drive => ?_
  cases drive.node? path with
  | none => exact failsClean_create _ _ path
  | some node =>
    simp only
    split_ifs
    · exact (succeeds_pure _).traceless
    · exact (spares_throw _).traceless

theorem failsClean_createFile (now : Int) (path : Text) : FailsClean (createFile now path) := by
  rw [createFile]
  refine traceless_bind spares_get fun drive => ?_
  cases drive.node? path with
  | some node => exact (succeeds_pure _).traceless
  | none => exact traceless_bind_succeeds (failsClean_create _ _ path) fun _ => succeeds_pure _

theorem failsClean_delete (path : Text) : FailsClean (delete path) := by
  rw [delete]
  refine traceless_bind spares_get fun drive => ?_
  simp only
  cases drive.tree.get? (drive.keyOf path) with
  | none => exact (spares_throw _).traceless
  | some node =>
    simp only
    split_ifs
    · exact (spares_throw _).traceless
    · exact (spares_throw _).traceless
    · exact (spares_throw _).traceless
    · exact (succeeds_change _).traceless

/-- All that can speak against a move is found out before anything is carried. -/
theorem failsClean_move (old new : Text) (replace : Bool) : FailsClean (move old new replace) := by
  rw [move]
  refine traceless_bind spares_get fun drive => ?_
  simp only
  split_ifs
  · exact (spares_throw _).traceless
  · exact (succeeds_pure _).traceless
  · cases drive.moveFault? old new replace with
    | some failure => exact (spares_throw failure).traceless
    | none => exact (succeeds_change _).traceless

theorem spares_listFiles (path : Text) : SparesTree (listFiles path) := by
  rw [listFiles]
  refine spares_bind spares_get fun drive => ?_
  simp only
  cases drive.tree.get? (drive.keyOf path) with
  | none => exact spares_throw _
  | some node =>
    simp only
    split_ifs
    · exact spares_pure _
    · exact spares_throw _

theorem spares_node (path : Text) : SparesTree (node path) := by
  rw [node]
  refine spares_bind spares_get fun drive => ?_
  cases drive.node? path with
  | none => exact spares_throw _
  | some found => exact spares_pure found

theorem succeeds_setReadOnly (path : Text) : Succeeds (setReadOnly path) := by
  rw [setReadOnly]
  refine succeeds_bind succeeds_get fun drive => ?_
  cases drive.node? path with
  | none => exact succeeds_pure false
  | some node => exact succeeds_bind (succeeds_store _ _) fun _ => succeeds_pure true

theorem failsClean_openForReading (path : Text) : FailsClean (openForReading path) := by
  rw [openForReading]
  refine traceless_bind spares_get fun drive => ?_
  cases drive.node? path with
  | none => exact (spares_throw _).traceless
  | some node =>
    simp only
    split_ifs
    · exact (spares_throw _).traceless
    · exact (succeeds_addFile _).traceless

theorem failsClean_prepareForWriting (now : Int) (path : Text) :
    FailsClean (prepareForWriting now path) := by
  rw [prepareForWriting]
  refine traceless_bind spares_get fun drive => ?_
  cases drive.node? path with
  | none => exact traceless_bind_succeeds (failsClean_create _ _ path) fun _ => succeeds_pure _
  | some node =>
    simp only
    split_ifs
    · exact (spares_throw _).traceless
    · exact (spares_throw _).traceless
    · exact (succeeds_pure _).traceless

theorem failsClean_openForUpdate (now : Int) (path : Text) (isSync : Bool) :
    FailsClean (openForUpdate now path isSync) := by
  rw [openForUpdate]
  refine traceless_bind_succeeds (failsClean_prepareForWriting now path) fun bytes => ?_
  exact succeeds_bind succeeds_get fun _ => succeeds_addFile _

/-- Once a file is prepared for writing, neither emptying it nor opening it can fail. -/
theorem failsClean_openOutput (now : Int) (path : Text) (append : Bool) :
    FailsClean (openOutput now path append) := by
  rw [openOutput]
  refine traceless_bind_succeeds (failsClean_prepareForWriting now path) fun bytes => ?_
  refine succeeds_bind succeeds_get fun drive => ?_
  split_ifs
  · exact succeeds_addFile _
  · exact succeeds_bind (succeeds_change _) fun _ => succeeds_addFile _

theorem failsClean_openHandle (now : Int) (path mode : Text) : FailsClean (openHandle now path mode) := by
  rw [openHandle]
  refine traceless_bind (spares_ofExcept _) fun mode => ?_
  split_ifs
  · exact failsClean_openForUpdate now path _
  · exact failsClean_openForReading path

/-- A search uses up tokens whatever comes of it; the tree gets an entry or stays. -/
theorem failsClean_createTempWithin (limit : Nat) (now : Int) (start ending : Text) :
    Traceless (fun s : Drive × TokenSource => s.1.tree) (createTempWithin limit now start ending) := by
  intro s
  rw [createTempWithin]
  refine tracelessAt_bind rfl fun {value t} hget => ?_
  rw [outcome_get, Prod.mk.injEq, Except.ok.injEq] at hget
  obtain ⟨rfl, rfl⟩ := hget
  obtain ⟨drive, tokens⟩ := s
  simp only
  cases tokens.search (fun token => drive.isUnused (drive.candidateText start ending token)) limit with
  | mk token? rest =>
    refine tracelessAt_bind rfl fun {_ t} _ => ?_
    cases token? with
    | none => exact (spares_throw _).traceless t
    | some token =>
      simp only
      split_ifs
      · exact (spares_throw _).traceless t
      · -- the file is made last, and only that can fail on the tree
        refine traceless_bind_succeeds (fun s failure hfailure => ?_) (fun _ => succeeds_pure _) t
        exact failsClean_create _ _ start s.1 failure hfailure

theorem failsClean_plain {α : Type} {call : Call Drive α} (h : FailsClean call) :
    Traceless (fun s : Drive × TokenSource => s.1.tree) (plain call) :=
  fun s failure hfailure => h s.1 failure hfailure

/-- A request that fails has changed no entry. -/
theorem failsClean_perform (now : Int) (request : Request) :
    Traceless (fun s : Drive × TokenSource => s.1.tree) (perform now request) := by
  cases request with
  | createDirectory path => exact failsClean_plain (failsClean_createDirectory now path)
  | createFile path => exact failsClean_plain (failsClean_createFile now path)
  | delete path => exact failsClean_plain (failsClean_delete path)
  | move old new replace => exact failsClean_plain (failsClean_move old new replace)
  | listFiles path => exact failsClean_plain (spares_listFiles path).traceless
  | lastModified path => exact failsClean_plain (traceless_map (spares_node path).traceless)
  | size path => exact failsClean_plain (traceless_map (spares_node path).traceless)
  | openHandle path mode => exact failsClean_plain (failsClean_openHandle now path mode)
  | openInput path => exact failsClean_plain (failsClean_openForReading path)
  | openOutput path append => exact failsClean_plain (failsClean_openOutput now path append)
  | setReadOnly path => exact failsClean_plain (succeeds_setReadOnly path).traceless
  | createTemp start ending deleteOnExit inTempDir =>
    exact traceless_bind (fun _ => rfl) fun s => failsClean_createTempWithin _ now start ending
  -- what is left only looks at the drive
  | _ => exact fun _ _ _ => rfl

/-! ### Handles -/

theorem spares_changeFile (index : Nat) (f : DriveFile → DriveFile) : SparesTree (changeFile index f) :=
  fun _ => rfl

theorem spares_file (index : Nat) : SparesTree (file index) := by
  rw [file]
  refine spares_bind spares_get fun drive => ?_
  cases drive.files[index]? with
  | none => exact spares_throw _
  | some found => exact spares_pure found

theorem spares_openFile (index : Nat) : SparesTree (openFile index) := by
  rw [openFile]
  refine spares_bind (spares_file index) fun file => ?_
  split_ifs
  · exact spares_throw _
  · exact spares_pure file

/-- A commit looks for its file before it stores anything. -/
theorem failsClean_commit (now : Int) (key : Key) (bytes : Bytes) : FailsClean (commit now key bytes) := by
  rw [commit]
  refine traceless_bind spares_get fun drive => ?_
  cases drive.tree.get? key with
  | none => exact (spares_throw _).traceless
  | some node =>
    simp only
    split_ifs
    · exact (spares_throw _).traceless
    · exact (succeeds_store key _).traceless

theorem failsClean_flush (now : Int) (index : Nat) : FailsClean (flush now index) := by
  rw [flush]
  refine traceless_bind (spares_openFile index) fun file => ?_
  split_ifs
  · exact traceless_bind (spares_changeFile index _) fun _ => failsClean_commit now _ _
  · exact (succeeds_pure _).traceless

theorem failsClean_accept (now : Int) (index : Nat) (cursor : Cursor) :
    FailsClean (accept now index cursor) := by
  rw [accept]
  refine traceless_bind (spares_changeFile index _) fun _ => ?_
  refine traceless_bind (spares_file index) fun file => ?_
  split_ifs
  · exact failsClean_flush now index
  · exact (succeeds_pure _).traceless

theorem failsClean_write (now : Int) (index : Nat) (data : Bytes) : FailsClean (write now index data) := by
  rw [write]
  refine traceless_bind (spares_file index) fun file => ?_
  split_ifs
  · exact (spares_throw _).traceless
  · refine traceless_bind (spares_openFile index) fun file => ?_
    exact traceless_bind_succeeds (failsClean_accept now index _) fun _ => succeeds_pure _

theorem failsClean_truncate (now : Int) (index : Nat) (size : Option Int) :
    FailsClean (truncate now index size) := by
  rw [truncate]
  refine traceless_bind (spares_file index) fun file => ?_
  split_ifs
  · exact (spares_throw _).traceless
  · refine traceless_bind (spares_openFile index) fun file => ?_
    refine traceless_bind (spares_ofExcept _) fun cut => ?_
    exact traceless_bind_succeeds (failsClean_accept now index _) fun _ => succeeds_pure _

/-- A handle is closed whatever comes of storing its changes. -/
theorem failsClean_close (now : Int) (index : Nat) : FailsClean (close now index) := by
  rw [close]
  refine traceless_bind (spares_file index) fun file => ?_
  split_ifs
  · exact (succeeds_pure _).traceless
  · exact traceless_ensuring (failsClean_flush now index) (succeeds_change _) (spares_changeFile index _)

theorem spares_take {α : Type} (index : Nat) (f : Cursor → α × Cursor) : SparesTree (take index f) := by
  rw [take]
  refine spares_bind (spares_openFile index) fun file => ?_
  exact spares_bind (spares_changeFile index _) fun _ => spares_pure _

theorem spares_takeCounted {α : Type} (index : Nat) (count : Option Int) (f : Option Count → Cursor → α × Cursor) :
    SparesTree (takeCounted index count f) :=
  spares_bind (spares_ofExcept _) fun n => spares_take index (f n)

theorem spares_seek (index : Nat) (offset whence : Int) : SparesTree (seek index offset whence) := by
  rw [seek]
  refine spares_bind (spares_openFile index) fun file => ?_
  refine spares_bind (spares_ofExcept _) fun cursor => ?_
  exact spares_bind (spares_changeFile index _) fun _ => spares_pure _

/-- A request to a handle that fails has changed no entry. -/
theorem failsClean_onFile (now : Int) (index : Nat) (request : StreamRequest) :
    FailsClean (onFile now index request) := by
  cases request <;> rw [onFile]
  case read count => exact (spares_takeCounted index count _).traceless
  case readLine limit => exact (spares_takeCounted index limit _).traceless
  case readLines => exact (spares_take index _).traceless
  case write data => exact failsClean_write now index data
  case seek offset whence => exact (spares_seek index offset whence).traceless
  case truncate size => exact failsClean_truncate now index size
  case flush => exact failsClean_flush now index
  case close => exact failsClean_close now index
  case tell | readable | seekable => exact traceless_map (spares_openFile index).traceless
  case closed => exact traceless_map (spares_file index).traceless
  case writable =>
    refine traceless_bind (spares_file index) fun file => ?_
    split_ifs
    · exact traceless_map (spares_openFile index).traceless
    · exact (succeeds_pure _).traceless

/-! ### Everything -/

/-- **What fails leaves no trace.** From whatever state of a drive and its handles: if a request, a search for a
fresh name or a request to a handle fails, every entry of the tree is as it was, with its kind, its bytes, its time
and its protection. -/
theorem tree_of_failure {failure : Failure} :
    (∀ {now : Int} {request : Request} {s : Drive × TokenSource},
      ((perform now request).outcome s).1 = .error failure →
        ((perform now request).outcome s).2.1.tree = s.1.tree) ∧
    (∀ {limit : Nat} {now : Int} {start ending : Text} {s : Drive × TokenSource},
      ((createTempWithin limit now start ending).outcome s).1 = .error failure →
        ((createTempWithin limit now start ending).outcome s).2.1.tree = s.1.tree) ∧
    ∀ {now : Int} {index : Nat} {request : StreamRequest} {drive : Drive},
      ((onFile now index request).outcome drive).1 = .error failure →
        ((onFile now index request).outcome drive).2.tree = drive.tree :=
  ⟨fun h => failsClean_perform _ _ _ _ h, fun h => failsClean_createTempWithin _ _ _ _ _ _ h,
    fun h => failsClean_onFile _ _ _ _ _ h⟩

/-- A synchronous handle whose file has been deleted: a write to it is taken into its buffer, and then it cannot be
stored. -/
def orphaned : Drive :=
  ⟨"mem".toList, [([], .newDirectory 0), ([['b']], .newFile 0)],
    [⟨[['a']], ⟨[], 0⟩, true, false, true, false, false⟩]⟩

theorem tree_of_failure_orphaned :
    ((onFile 5 0 (.write [120])).outcome orphaned).1 = .error (.notFound "mem:/a".toList) ∧
      ((onFile 5 0 (.write [120])).outcome orphaned).2.files ≠ orphaned.files ∧
      ((onFile 5 0 (.write [120])).outcome orphaned).2.tree = orphaned.tree := by
  have hfails : ((onFile 5 0 (.write [120])).outcome orphaned).1 = .error (.notFound "mem:/a".toList) := by
    rfl
  exact ⟨hfails, by decide, tree_of_failure.2.2 hfails⟩

end FileRouter.Drive
