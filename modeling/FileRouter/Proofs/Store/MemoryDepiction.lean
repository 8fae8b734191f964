import FileRouter.Proofs.Memory.Contents
import FileRouter.Proofs.Store.Delete
import FileRouter.Proofs.Store.Depiction
import FileRouter.Proofs.World.Files
/-!
A registry shows the contents of a drive.

Where a registry serves a drive, its store shows the contents of the drive's tree, and the keys go by their paths with
the scheme in front (`driveDepiction`). A request changes the drive alone, and what it does there is known from the
contents.
-/

namespace FileRouter.World

open Call

variable {world : World} {registry id : Nat} {scheme : Text} {items : Contents} {drive drive' : Drive} {tree : Tree} {key : Key}
  {reader writer : Nat} {left written : Bytes}

/-- A registry serves a drive whose tree shows contents. -/
structure Serving (registry id : Nat) (scheme : Text) (items : Contents) (drive : Drive) (world : World) : Prop where
  serves : world.Serves registry id scheme
  found : world.drive? id = some drive
  sameScheme : drive.scheme = scheme
  shows : drive.tree.Shows items

namespace Serving

theorem scheme_ne_nil (h : Serving registry id scheme items drive world) : scheme ≠ [] :=
  Scheme.ne_nil_of_isValid h.serves.isValid

/-- The path of a key is read as that key. -/
theorem keyOf_join (h : Serving registry id scheme items drive world) (hkey : key.Proper) :
    drive.keyOf (Scheme.join scheme key.toText) = key := by
  have hread : drive.keyOf (drive.pathOf key) = key := Drive.keyOf_pathOf (h.sameScheme ▸ h.scheme_ne_nil) hkey
  rwa [Drive.pathOf, h.sameScheme] at hread

theorem withDrive {items' : Contents} (h : Serving registry id scheme items drive world)
    (hscheme : drive'.scheme = drive.scheme) (hshows : drive'.tree.Shows items') :
    Serving registry id scheme items' drive' (World.withDrive id drive' world) :=
  ⟨h.serves.withDrive drive', drive?_withDrive h.found, hscheme.trans h.sameScheme, hshows⟩

/-- A request that leaves the tokens alone does to the drive what it does there. -/
theorem outcome_perform {request : Request} {call : Call Drive (request.Reply Nat)}
    (h : Serving registry id scheme items drive world) (hpath : request.path = Scheme.join scheme key.toText)
    (hm : world.mismatch? registry request = none)
    (hcall : Drive.perform (millis world.clock) request = Drive.plain call) :
    (perform registry request).outcome world =
      ((call.outcome drive).1.map (request.mapHandle (.memory id)),
        World.withDrive id (call.outcome drive).2 world) := by
  have hhas : Scheme.has request.path scheme = true := hpath ▸ Scheme.has_join h.scheme_ne_nil _
  rw [World.outcome_perform request h.serves h.found hhas hm, hcall, Drive.outcome_plain]
  rfl

/-- What is only looked at in the drive changes nothing. -/
theorem outcome_looked {request : Request} {f : Drive × TokenSource → request.Reply Nat}
    (h : Serving registry id scheme items drive world) (hpath : request.path = Scheme.join scheme key.toText)
    (hm : world.mismatch? registry request = none)
    (hcall : Drive.perform (millis world.clock) request = Call.look f) :
    (perform registry request).outcome world =
      (.ok (request.mapHandle (.memory id) (f (drive, world.tokens))), world) := by
  have hhas : Scheme.has request.path scheme = true := hpath ▸ Scheme.has_join h.scheme_ne_nil _
  rw [World.outcome_perform request h.serves h.found hhas hm, hcall]
  simp only [outcome_look, withDrive_self h.found, Except.map]

theorem node?_join (h : Serving registry id scheme items drive world) (hkey : key.Proper) :
    drive.node? (Scheme.join scheme key.toText) = drive.tree.get? key := by
  rw [Drive.node?, h.keyOf_join hkey]

end Serving

/-- The registry serves a drive that shows contents. -/
def ServesContents (registry id : Nat) (scheme : Text) (items : Contents) (world : World) : Prop :=
  ∃ drive, Serving registry id scheme items drive world

/-- What a request does on the drive is done in the world. -/
theorem Serving.outcome_done {request : Request} {call : Call Drive (request.Reply Nat)} {value : request.Reply Nat}
    (h : Serving registry id scheme items drive world) (hpath : request.path = Scheme.join scheme key.toText)
    (hm : world.mismatch? registry request = none)
    (hcall : Drive.perform (millis world.clock) request = Drive.plain call)
    (hout : call.outcome drive = (.ok value, drive')) :
    (perform registry request).outcome world =
      (.ok (request.mapHandle (.memory id) value), World.withDrive id drive' world) := by
  rw [h.outcome_perform hpath hm hcall, hout]
  rfl

/-- A request that the drive refuses changes nothing. -/
theorem Serving.outcome_refused {request : Request} {call : Call Drive (request.Reply Nat)} {failure : Failure}
    (h : Serving registry id scheme items drive world) (hpath : request.path = Scheme.join scheme key.toText)
    (hm : world.mismatch? registry request = none)
    (hcall : Drive.perform (millis world.clock) request = Drive.plain call)
    (hout : call.outcome drive = (.error failure, drive)) :
    (perform registry request).outcome world = (.error failure, world) := by
  rw [h.outcome_perform hpath hm hcall, hout]
  simp only [withDrive_self h.found, Except.map]

/-- A drive half way through a copy to a key: what the reader has left, and what the sink has got. -/
structure HalfWay (tree : Tree) (key : Key) (reader writer : Nat) (left written : Bytes) (drive : Drive) :
    Prop where
  tree : drive.tree = tree
  source : ∃ file, drive.files[reader]? = some file ∧ file.closed = false ∧ file.dirty = false ∧
    file.cursor.rest = left
  sink : drive.files[writer]? =
    some ⟨key, ⟨written, written.length⟩, true, false, false, !written.isEmpty, false⟩

/-- A read moves the reader on. -/
theorem HalfWay.read (h : HalfWay tree key reader writer left written drive) (hne : reader ≠ writer)
    {count : Nat} (hfits : Fits count) :
    ∃ drive', (Drive.takeCounted reader (some (count : Int)) Cursor.read).outcome drive =
        (.ok (left.take (min count left.length)), drive') ∧
      HalfWay tree key reader writer (left.drop (min count left.length)) written drive' := by
  obtain ⟨file, hf, hopen, hclean, rfl⟩ := h.source
  have hfits' : Fits ((some (count : Int)).getD (-1)) := hfits
  obtain ⟨n, hcount, hasked⟩ := Count.ofOption_of_fits hfits'
  obtain ⟨htaken, hrest⟩ := Cursor.read_of_asked hasked file.cursor
  have htake := Drive.outcome_takeCounted hf hopen hcount Cursor.read
  rw [htaken] at htake
  refine ⟨_, htake, h.tree, ?_, ?_⟩
  · refine ⟨{ file with cursor := (file.cursor.read n).2 }, ?_, hopen, hclean, hrest⟩
    exact List.getElem?_set_self (List.getElem?_eq_some_iff.mp hf).1
  · rw [← h.sink]
    exact List.getElem?_set_ne hne

/-- A write makes the sink longer. -/
theorem HalfWay.write (h : HalfWay tree key reader writer left written drive) (hne : reader ≠ writer)
    (now : Int) {chunk : Bytes} (hchunk : chunk ≠ []) :
    ∃ drive', (Drive.write now writer chunk).outcome drive = (.ok chunk.length, drive') ∧
      HalfWay tree key reader writer left (written ++ chunk) drive' := by
  have hempty : (!(written ++ chunk).isEmpty) = true := by simp [hchunk]
  refine ⟨_, Drive.outcome_write now h.sink rfl rfl rfl chunk, h.tree, ?_, ?_⟩
  · obtain ⟨file, hf, hrest⟩ := h.source
    refine ⟨file, ?_, hrest⟩
    rw [← hf]
    exact List.getElem?_set_ne hne.symm
  · simp only [Bool.false_eq_true, if_false]
    rw [List.getElem?_set_self (List.getElem?_eq_some_iff.mp h.sink).1, Cursor.write_end hchunk, hempty]

/-- A handle without changes has some bytes left to read. -/
def Reader (index : Nat) (left : Bytes) (drive : Drive) : Prop :=
  ∃ file, drive.files[index]? = some file ∧ file.closed = false ∧ file.dirty = false ∧ file.cursor.rest = left

/-- Besides, a handle has been opened for reading. -/
def ReadsContents (registry id : Nat) (scheme : Text) (items : Contents) (_ : Key) (handle : Handle) (left : Bytes)
    (world : World) : Prop :=
  ∃ drive index, handle = .memory id index ∧ Serving registry id scheme items drive world ∧ Reader index left drive

/-- Besides, a second handle has been opened for writing to a key, where the file is empty until the handle is
closed. -/
def CopiesContents (registry id : Nat) (scheme : Text) (items : Contents) (_ target : Key) (source sink : Handle)
    (left written : Bytes) (world : World) : Prop :=
  ∃ drive reader writer, source = .memory id reader ∧ sink = .memory id writer ∧ reader ≠ writer ∧
    Serving registry id scheme (items.put target (.file [])) drive world ∧
    HalfWay drive.tree target reader writer left written drive

/-! ### Requests to handles -/

/-- A request to a handle leaves the drive with the same scheme. -/
theorem scheme_onFile (now : Int) (index : Nat) (request : StreamRequest) (drive : Drive) :
    ((Drive.onFile now index request).outcome drive).2.scheme = drive.scheme :=
  (Drive.later_onFile now index request drive).scheme

theorem reads_copiesContents {source target : Key} {reader writer : Handle} {count : Nat} (hcount : 0 < count)
    (hfits : Fits count) :
    Reads ((store registry).read reader (some (count : Int)))
      (CopiesContents registry id scheme items source target reader writer) := by
  rintro left written world ⟨drive, i, j, rfl, rfl, hne, h, hhalf⟩
  obtain ⟨drive', htake, hhalf'⟩ := hhalf.read hne hfits
  have hread : (Drive.onFile (millis world.clock) i (.read (some (count : Int)))).outcome drive =
      (.ok (left.take (min count left.length)), drive') := htake
  have hscheme := scheme_onFile (millis world.clock) i (.read (some (count : Int))) drive
  rw [hread] at hscheme
  refine ⟨min count left.length, World.withDrive id drive' world, ?_,
    ⟨drive', i, j, rfl, rfl, hne, h.withDrive hscheme (hhalf'.tree ▸ h.shows), hhalf'.tree ▸ hhalf'⟩, fun hleft => ?_⟩
  · exact (outcome_onHandle_memory h.found i (.read (some (count : Int)))).trans (by rw [hread])
  · have hpos := List.length_pos_iff.mpr hleft
    omega

/-- A number that is no count is refused, and changes nothing. -/
theorem refuses_read {source target : Key} {reader writer : Handle} {count : Nat} (hmisfit : ¬ Fits count)
    (h : CopiesContents registry id scheme items source target reader writer left written world) :
    Refuses ((store registry).read reader (some (count : Int))) world
      (CopiesContents registry id scheme items source target reader writer left written) := by
  have hcopies := h
  obtain ⟨drive, i, j, rfl, rfl, -, hserving, -⟩ := h
  have hmisfit' : ¬ Fits ((some (count : Int)).getD (-1)) := hmisfit
  have hread : (Drive.onFile (millis world.clock) i (.read (some (count : Int)))).outcome drive =
      (.error Count.misfit, drive) := by
    rw [Drive.onFile, Drive.takeCounted, Count.ofOption_of_not_fits hmisfit']
    rfl
  have honHandle := outcome_onHandle_memory hserving.found i (.read (some (count : Int)))
  rw [hread] at honHandle
  simp only [withDrive_self hserving.found] at honHandle
  exact ⟨_, world, honHandle, hcopies⟩

theorem writes_copiesContents {source target : Key} {reader writer : Handle} :
    Writes (fun data => discard ((store registry).write writer data))
      (CopiesContents registry id scheme items source target reader writer) := by
  rintro left written chunk world hchunk ⟨drive, i, j, rfl, rfl, hne, h, hhalf⟩
  obtain ⟨drive', hwrite, hhalf'⟩ := hhalf.write hne (millis world.clock) hchunk
  have hscheme := scheme_onFile (millis world.clock) j (.write chunk) drive
  rw [Drive.onFile, hwrite] at hscheme
  refine ⟨World.withDrive id drive' world, ?_,
    ⟨drive', i, j, rfl, rfl, hne, h.withDrive hscheme (hhalf'.tree ▸ h.shows), hhalf'.tree ▸ hhalf'⟩⟩
  have honHandle := outcome_onHandle_memory h.found j (.write chunk)
  rw [Drive.onFile, hwrite] at honHandle
  rw [Call.outcome_discard]
  exact (congrArg (fun out => (out.1.map fun _ => (), out.2)) honHandle)

/-- Closing the writer stores what it has got. -/
theorem HalfWay.stored {target : Key} (now : Int) (h : HalfWay drive.tree target reader writer left written drive)
    (hne : reader ≠ writer) (hshows : drive.tree.Shows (items.put target (.file []))) :
    ∃ drive', (Drive.close now writer).outcome drive = (.ok (), drive') ∧
      drive'.files[reader]? = drive.files[reader]? ∧ drive'.scheme = drive.scheme ∧
      drive'.tree.Shows (items.put target (.file written)) := by
  have htarget : (items.put target (.file [])) target = some (.file []) := by rw [Contents.put, if_pos rfl]
  obtain ⟨node, hnode, hfile, -⟩ := hshows.eq_file_iff.mp htarget
  cases written with
  | nil => exact ⟨_, Drive.outcome_close_clean now h.sink rfl rfl, List.getElem?_set_ne hne.symm, rfl, hshows⟩
  | cons first rest =>
    refine ⟨_, Drive.outcome_close_dirty now h.sink rfl rfl hnode hfile, List.getElem?_set_ne hne.symm, rfl, ?_⟩
    have hwritten := hshows.put_written hnode hfile (first :: rest) now
    rwa [Contents.put_put] at hwritten

/-! ### The depiction -/

/-- **A registry that serves a drive shows the contents of its tree.** -/
def driveDepiction (registry id : Nat) (scheme : Text) : Depiction (store registry) where
  spell key := Scheme.join scheme key.toText
  Legal key := key.Proper
  Shows := ServesContents registry id scheme
  Reading := ReadsContents registry id scheme
  Copying := CopiesContents registry id scheme
  wellFormed := by
    rintro items world ⟨drive, h⟩
    exact h.shows.contents_wellFormed
  legal := by
    rintro items world key item ⟨drive, h⟩ hitem
    rw [h.shows.contents, Option.map_eq_some_iff] at hitem
    obtain ⟨node, hnode, -⟩ := hitem
    exact h.shows.wellFormed.proper hnode
  legal_parent := Key.Proper.parent
  spell_injective := by
    intro key other hkey hother hspell
    rw [← Key.ofText_toText hkey, ← Key.ofText_toText hother, Scheme.join_injective scheme hspell]
  owner := by
    rintro items world key other ⟨drive, h⟩
    have hhas : ∀ key : Key, Scheme.has (Scheme.join scheme key.toText) scheme = true := fun _ =>
      Scheme.has_join h.scheme_ne_nil _
    exact (h.serves.owner (hhas key)).trans (h.serves.owner (hhas other)).symm
  exists? := by
    rintro items world key ⟨drive, h⟩ hkey
    refine ⟨world, (h.outcome_looked rfl rfl rfl).trans ?_, drive, h⟩
    rw [Request.mapHandle, h.node?_join hkey, h.shows.contents, Option.isSome_map]
  isDirectory := by
    rintro items world key ⟨drive, h⟩ hkey
    refine ⟨world, (h.outcome_looked rfl rfl rfl).trans ?_, drive, h⟩
    rw [Request.mapHandle, h.node?_join hkey, h.shows.contents]
    cases drive.tree.get? key with
    | none => rfl
    | some node => cases hdir : node.isDirectory <;> simp [Node.item, hdir]
  listFiles := by
    rintro items world key ⟨drive, h⟩ hkey hdir
    obtain ⟨node, hnode, hdir⟩ := h.shows.eq_directory_iff.mp hdir
    have hlist := Drive.outcome_listFiles (Scheme.join scheme key.toText) drive
    rw [h.keyOf_join hkey, hnode] at hlist
    simp only [hdir, if_true] at hlist
    refine ⟨KeyMap.childrenNames drive.tree key, fun {name} => ?_, world, (h.outcome_perform rfl rfl rfl).trans ?_, drive, h⟩
    · rw [KeyMap.mem_childrenNames, KeyMap.has, Option.isSome_iff_ne_none, ne_eq, ne_eq, h.shows.eq_none_iff]
    · rw [hlist]
      simp only [withDrive_self h.found, Drive.pathOf, h.sameScheme]
      rfl
  parent? := by
    rintro items world key ⟨drive, h⟩ hkey hroot
    refine ⟨world, (h.outcome_looked rfl rfl rfl).trans ?_, drive, h⟩
    simp only [h.keyOf_join hkey, if_neg hroot, Drive.pathOf, h.sameScheme]
    rfl
  canonicalPath := by
    rintro items world key ⟨drive, h⟩ hkey
    refine ⟨world, (h.outcome_looked rfl rfl rfl).trans ?_, drive, h⟩
    simp only [h.keyOf_join hkey, Drive.pathOf, h.sameScheme]
    rfl
  createDirectory := by
    rintro items world key ⟨drive, h⟩ hkey hnone hparent
    have hshows := h.shows.put_new (.newDirectory (millis world.clock)) hkey hnone hparent rfl rfl
    rw [← h.keyOf_join hkey] at hnone hparent hshows
    have hmake := Drive.outcome_createDirectory_of_shows h.shows (millis world.clock) hnone hparent
    rw [h.keyOf_join hkey] at hshows hmake
    exact ⟨_, h.outcome_done rfl rfl rfl hmake, _, h.withDrive rfl hshows⟩
  createDirectory_refused := by
    rintro items world key ⟨drive, h⟩ hkey hnone hparent
    rw [← h.keyOf_join hkey] at hnone hparent
    obtain ⟨failure, hmake⟩ := Drive.outcome_createDirectory_refused h.shows (millis world.clock) hnone hparent
    exact ⟨failure, world, h.outcome_refused rfl rfl rfl hmake, drive, h⟩
  delete := by
    rintro items world key ⟨drive, h⟩ hkey hroot hremovable
    have hshows := h.shows.erase hroot hremovable
    rw [← h.keyOf_join hkey] at hroot hremovable hshows
    have hdelete := Drive.outcome_delete_of_shows h.shows hroot hremovable
    rw [h.keyOf_join hkey] at hshows hdelete
    exact ⟨_, h.outcome_done rfl rfl rfl hdelete, _, h.withDrive rfl hshows⟩
  delete_refused := by
    rintro items world key ⟨drive, h⟩ hkey - hremovable
    rw [← h.keyOf_join hkey] at hremovable
    obtain ⟨failure, hdelete⟩ := Drive.outcome_delete_refused h.shows hremovable
    exact ⟨failure, world, h.outcome_refused rfl rfl rfl hdelete, drive, h⟩
  openInput := by
    rintro items world key bytes ⟨drive, h⟩ hkey hfile
    obtain ⟨node, hnode, hdir, rfl⟩ := h.shows.eq_file_iff.mp hfile
    rw [← h.keyOf_join hkey] at hnode
    have hopen := Drive.outcome_openForReading_of_file hnode hdir
    exact ⟨.memory id drive.files.length, _, h.outcome_done rfl rfl rfl hopen, _, drive.files.length, rfl,
      h.withDrive rfl h.shows, _, List.getElem?_concat_length, rfl, rfl, rfl⟩
  openInput_refused := by
    rintro items world key ⟨drive, h⟩ hkey hnofile
    rw [← h.keyOf_join hkey] at hnofile
    obtain ⟨failure, hopen⟩ := Drive.outcome_openForReading_refused h.shows hnofile
    exact ⟨failure, world, h.outcome_refused rfl rfl rfl hopen, drive, h⟩
  openOutput := by
    rintro items world source target reader left ⟨drive, index, rfl, h, file, hfile, hopen, hclean, hrest⟩ hkey - hwritable
    rw [← h.keyOf_join hkey] at hwritable
    obtain ⟨tree, hout, hshows⟩ := Drive.outcome_openOutput_of_shows h.shows (millis world.clock) hwritable
    rw [h.keyOf_join hkey] at hout hshows
    have hlt := (List.getElem?_eq_some_iff.mp hfile).1
    refine ⟨.memory id drive.files.length, _, h.outcome_done rfl rfl rfl hout, _, index, drive.files.length, rfl, rfl,
      Nat.ne_of_lt hlt, h.withDrive rfl hshows, rfl, ⟨file, ?_, hopen, hclean, hrest⟩, List.getElem?_concat_length⟩
    rw [List.getElem?_append_left hlt, hfile]
  openOutput_refused := by
    rintro items world source target reader left ⟨drive, index, rfl, h, hreader⟩ hkey - hwritable
    rw [← h.keyOf_join hkey] at hwritable
    obtain ⟨failure, hout⟩ := Drive.outcome_openOutput_refused h.shows (millis world.clock) hwritable
    exact ⟨failure, world, h.outcome_refused rfl rfl rfl hout, drive, index, rfl, h, hreader⟩
  reads hcount hroom := reads_copiesContents hcount (Count.fits_of_le_room hroom)
  read_refused := refuses_read
  writes := writes_copiesContents
  close_writer := by
    rintro items world source target reader writer left written ⟨drive, i, j, rfl, rfl, hne, h, hhalf⟩
    obtain ⟨drive', hclose, hsame, hscheme, hshows⟩ := hhalf.stored (millis world.clock) hne h.shows
    obtain ⟨file, hfile, hopen, hclean, hrest⟩ := hhalf.source
    refine ⟨World.withDrive id drive' world, (outcome_onHandle_memory h.found j .close).trans (by rw [Drive.onFile, hclose]),
      drive', i, rfl, h.withDrive hscheme hshows, file, hsame.trans hfile, hopen, hclean, hrest⟩
  close_reader := by
    rintro items world source reader left ⟨drive, index, rfl, h, file, hfile, hopen, hclean, -⟩
    have hclose := outcome_onHandle_memory h.found index .close
    rw [Drive.onFile, Drive.outcome_close_clean _ hfile hopen hclean] at hclose
    exact ⟨_, hclose, _, h.withDrive rfl h.shows⟩

end FileRouter.World
