import FileRouter.Proofs.Store.Copy
import FileRouter.Proofs.World.Handles
/-!
Copying between drives.

The two paths of a copy may lead to one drive or to two, through views or without (`DrivePath`). The reader has a copy of
the bytes by the time the target is emptied, and what it has left and what the writer has got are the two halves of an
invariant of the loop (`Transferring`), in which nothing else differs from the world with the emptied target but
handles. Closing the writer stores what it has got. So a copy either is refused before anything is changed (`Refused`), or
it leaves one file different, with the bytes that its source had (`outcome_copy_drives`).

How many bytes are read at a time does not matter, with two exceptions: a loop that asks for no bytes at a time gets
none, takes that for the end, and carries nothing (`carried`); and one that asks for a number that is no count fails
(`answered`), when the target has been emptied already.
-/

namespace FileRouter.World

variable {world : World} {registry : Nat}

/-! ### Paths that lead to drives -/

/-- A path that leads to a drive, and the way there. -/
structure DrivePath (world : World) (registry : Nat) where
  path : Text
  chain : List (Text × Bool)
  id : Nat
  inner : Text
  drive : Drive
  routed : Routed world (world.owner registry path) path chain id inner
  found : world.drive? id = some drive

namespace DrivePath

section

variable (p : DrivePath world registry)

/-- The key that the path names on its drive. -/
def key : Key := p.drive.keyOf p.inner

/-- What is there. -/
def node? : Option Node := p.drive.tree.get? p.key

/-- The canonical path that the owner of the path gives for it. -/
def canonical : Text := wrapped p.chain (p.drive.pathOf p.key)

theorem nodeAt?_key : world.nodeAt? p.id p.key = p.node? := nodeAt?_of_drive p.found p.key

theorem outcome_canonicalPath :
    ((store registry).canonicalPath p.path).outcome world = (.ok p.canonical, world) := by
  have hasked := p.routed.outcome_canonicalPath
  rw [outcome_direct_memory p.found] at hasked
  refine hasked.trans (Prod.ext rfl ?_)
  exact withDrive_self p.found

theorem outcome_openInput {node : Node} (h : p.node? = some node) (hfile : node.isDirectory = false) :
    ((store registry).openInput p.path).outcome world =
      (.ok (.memory p.id p.drive.files.length),
        addFile p.id ⟨p.key, ⟨node.bytes, 0⟩, false, false, false, false, false⟩ world) := by
  have hopened := p.routed.outcome_openInput
  rw [outcome_direct_memory p.found, Drive.perform, Drive.outcome_plain, Drive.outcome_openForReading_of_file h hfile]
    at hopened
  rw [addFile, mapDrive_of_drive p.found]
  exact hopened

/-- Where no file is, none is opened for reading. -/
theorem openInput_refused (h : ∀ node, p.node? = some node → node.isDirectory = true) :
    ∃ failure, ((store registry).openInput p.path).outcome world = (.error failure, world) := by
  have hrefused : ∃ failure, (Drive.openForReading p.inner).outcome p.drive = (.error failure, p.drive) := by
    rw [Drive.outcome_openForReading]
    cases hnode : p.drive.tree.get? (p.drive.keyOf p.inner) with
    | none => exact ⟨_, rfl⟩
    | some node =>
      refine ⟨.refused .cannotOpenDirectory p.inner, ?_⟩
      simp only [h node hnode, if_true]
  obtain ⟨failure, hrefused⟩ := hrefused
  have hopened := p.routed.outcome_openInput
  rw [outcome_direct_memory p.found, Drive.perform, Drive.outcome_plain, hrefused] at hopened
  refine ⟨failure, hopened.trans (Prod.ext rfl ?_)⟩
  exact withDrive_self p.found

/-- A file can be written through a path: no view on the way is read-only, and its drive lets it be written. -/
structure Writable : Prop where
  plain : ∀ scheme, (scheme, true) ∉ p.chain
  writable : p.drive.Writable p.key

theorem outcome_openOutput (h : p.Writable) :
    ((store registry).openOutput p.path false).outcome world =
      (.ok (.memory p.id p.drive.files.length),
        addFile p.id ⟨p.key, ⟨[], 0⟩, true, false, false, false, false⟩
          (putNode p.id p.key ⟨false, [], millis world.clock, false⟩ world)) := by
  have hopened := p.routed.outcome_openOutput h.plain false
  rw [outcome_direct_memory p.found, Drive.perform, Drive.outcome_plain,
    Drive.outcome_openOutput_of_writable _ h.writable] at hopened
  rw [addFile, putNode, mapDrive_mapDrive, mapDrive_of_drive p.found]
  exact hopened

/-- Where no file can be written, none is opened for writing. -/
theorem openOutput_refused (h : ¬ p.Writable) :
    ∃ failure, ((store registry).openOutput p.path false).outcome world = (.error failure, world) := by
  by_cases hread : ∃ scheme, (scheme, true) ∈ p.chain
  · obtain ⟨refused, hopened⟩ := p.routed.outcome_openOutput_refused hread false
    exact ⟨_, hopened⟩
  · have hplain : ∀ scheme, (scheme, true) ∉ p.chain := fun scheme hm => hread ⟨scheme, hm⟩
    obtain ⟨failure, hrefused⟩ :=
      Drive.outcome_openOutput_of_not_writable (millis world.clock) fun hw => h ⟨hplain, hw⟩
    have hopened := p.routed.outcome_openOutput hplain false
    rw [outcome_direct_memory p.found, Drive.perform, Drive.outcome_plain, hrefused] at hopened
    refine ⟨failure, hopened.trans (Prod.ext rfl ?_)⟩
    exact withDrive_self p.found

/-- The path after a handle has been added. -/
def after (id : Nat) (file : DriveFile) : DrivePath (addFile id file world) registry where
  path := p.path
  chain := p.chain
  id := p.id
  inner := p.inner
  drive := if p.id = id then { p.drive with files := p.drive.files ++ [file] } else p.drive
  routed := by
    have hways : SameWays world (addFile id file world) := sameWays_mapDrive id _ world
    rw [hways.owner]
    exact p.routed.of_sameWays hways
  found := by
    rw [addFile, drive?_mapDrive]
    split_ifs with hsame
    · rw [← hsame, p.found, Option.map_some]
    · exact p.found

theorem key_after (id : Nat) (file : DriveFile) : (p.after id file).key = p.key := by
  rw [key, key, after]
  split_ifs <;> rfl

theorem writable_after (id : Nat) (file : DriveFile) : (p.after id file).Writable ↔ p.Writable := by
  have hdrive : (p.after id file).drive.Writable p.key ↔ p.drive.Writable p.key := by
    rw [after]
    split_ifs <;> rfl
  constructor
  · rintro ⟨hplain, hw⟩
    rw [key_after] at hw
    exact ⟨hplain, hdrive.mp hw⟩
  · rintro ⟨hplain, hw⟩
    refine ⟨hplain, ?_⟩
    rw [key_after]
    exact hdrive.mpr hw

end

end DrivePath

/-! ### The loop -/

section Loop

variable {id id' reader writer : Nat} {key : Key} {left written : Bytes} {s : World}

/-- The bytes that a loop carries over which reads a number of bytes at a time. -/
def carried (count : Int) (bytes : Bytes) : Bytes := if count = 0 ∨ ¬ Fits count then [] else bytes

/-- What such a loop answers. -/
def answered (count : Int) (bytes : Bytes) : Except Failure Nat :=
  if Fits count then .ok (carried count bytes).length else .error Count.misfit

/-- The world with some bytes in a file that has been written now. -/
def withFile (id : Nat) (key : Key) (bytes : Bytes) (world : World) : World :=
  putNode id key ⟨false, bytes, millis world.clock, false⟩ world

theorem SameButHandles.withFile {world' : World} (h : SameButHandles world world') (id : Nat) (key : Key)
    (bytes : Bytes) : SameButHandles (withFile id key bytes world) (World.withFile id key bytes world') := by
  rw [World.withFile, World.withFile, h.clock]
  exact h.putNode _ _ _

/-- Half way through a copy: what the reader has left, and what the writer has got for an emptied target. -/
structure Transferring (world : World) (id reader id' writer : Nat) (key : Key) (left written : Bytes) (s : World) :
    Prop where
  same : SameButHandles (withFile id' key [] world) s
  source : ∃ file, s.file? id reader = some file ∧ file.closed = false ∧ file.dirty = false ∧ file.cursor.rest = left
  sink : s.file? id' writer = some ⟨key, ⟨written, written.length⟩, true, false, false, !written.isEmpty, false⟩

variable (registry) (hne : ¬ (id = id' ∧ reader = writer))

include hne

theorem Transferring.read (h : Transferring world id reader id' writer key left written s) (count : Count) :
    ∃ t, ((store registry).read (.memory id reader) (some count.number)).outcome s =
        (.ok (left.take (Cursor.portion (some count) left.length)), t) ∧
      Transferring world id reader id' writer key (left.drop (Cursor.portion (some count) left.length)) written t := by
  obtain ⟨file, hf, hopen, hclean, rfl⟩ := h.source
  let moved : DriveFile := { file with cursor := (file.cursor.read (some count)).2 }
  refine ⟨putFile id reader moved s, outcome_read_file hf hopen (Count.ofOption_number count),
    h.same.trans (sameButHandles_putFile _ _ _ _), ⟨moved, ?_, hopen, hclean, Cursor.rest_take _ _⟩, ?_⟩
  · rw [file?_putFile hf, if_pos ⟨rfl, rfl⟩]
  · rw [file?_putFile hf, if_neg fun hsame => hne ⟨hsame.1.symm, hsame.2.symm⟩, h.sink]

omit hne in
theorem Transferring.read_refused (h : Transferring world id reader id' writer key left written s) {count : Int}
    (hmisfit : ¬ Fits count) :
    ((store registry).read (.memory id reader) (some count)).outcome s = (.error Count.misfit, s) := by
  obtain ⟨file, hf, -⟩ := h.source
  have hmisfit' : ¬ Fits ((some count).getD (-1)) := hmisfit
  exact outcome_read_file_of_misfit hf hmisfit'

theorem Transferring.write (h : Transferring world id reader id' writer key left written s) {chunk : Bytes}
    (hchunk : chunk ≠ []) :
    ∃ t, ((store registry).write (.memory id' writer) chunk).outcome s = (.ok chunk.length, t) ∧
      Transferring world id reader id' writer key left (written ++ chunk) t := by
  refine ⟨_, outcome_write_file h.sink rfl rfl rfl rfl chunk, h.same.trans (sameButHandles_putFile _ _ _ _), ?_, ?_⟩
  · obtain ⟨file, hf, hrest⟩ := h.source
    exact ⟨file, by rw [file?_putFile h.sink, if_neg hne, hf], hrest⟩
  · rw [file?_putFile h.sink, if_pos ⟨rfl, rfl⟩, Cursor.write_end hchunk]
    simp [hchunk]

/-- The loop carries everything over, unless it asks for no bytes at a time, or for a number that is no count. -/
theorem Transferring.copyStream (h : Transferring world id reader id' writer key left [] s) {chunks : Nat}
    (hchunks : left.length < chunks) (count : Int) :
    ∃ rest t, (copyStream ((store registry).read (.memory id reader) (some count))
          (fun data => discard ((store registry).write (.memory id' writer) data)) chunks).outcome s =
        (answered count left, t) ∧
      Transferring world id reader id' writer key rest (carried count left) t := by
  by_cases hfits : Fits count
  swap
  · -- the first read fails
    obtain ⟨chunks, rfl⟩ : ∃ n, chunks = n + 1 := ⟨chunks - 1, by omega⟩
    rw [answered, if_neg hfits, carried, if_pos (Or.inr hfits)]
    refine ⟨left, s, ?_, h⟩
    rw [FileRouter.copyStream, Call.outcome_bind, h.read_refused registry hfits]
  rw [answered, if_pos hfits]
  by_cases hcount : count = 0
  · -- the first read gets nothing
    subst hcount
    obtain ⟨chunks, rfl⟩ : ∃ n, chunks = n + 1 := ⟨chunks - 1, by omega⟩
    obtain ⟨t, hread, ht⟩ := h.read registry hne ⟨0, hfits⟩
    have hnone : left.take (Cursor.portion (some ⟨0, hfits⟩) left.length) = [] := by simp [Cursor.portion]
    refine ⟨_, t, ?_, ht⟩
    rw [FileRouter.copyStream, Call.outcome_bind, hread, hnone]
    rfl
  · have hreads : Reads ((store registry).read (.memory id reader) (some count))
        (Transferring world id reader id' writer key) := by
      intro left written s hs
      obtain ⟨t, hread, ht⟩ := hs.read registry hne ⟨count, hfits⟩
      exact ⟨_, t, hread, ht, fun hleft => Cursor.portion_pos hcount (List.length_pos_iff.mpr hleft)⟩
    have hwrites : Writes (fun data => discard ((store registry).write (.memory id' writer) data))
        (Transferring world id reader id' writer key) := by
      intro left written chunk s hchunk hs
      obtain ⟨t, hwrite, ht⟩ := hs.write registry hne hchunk
      exact ⟨t, by rw [Call.outcome_discard, hwrite]; rfl, ht⟩
    obtain ⟨t, hout, ht⟩ :=
      @outcome_copyStream _ _ _ (Transferring world id reader id' writer key) hreads hwrites chunks left [] s h hchunks
    rw [carried, if_neg fun hor => hor.elim hcount fun hmisfit => hmisfit hfits]
    exact ⟨[], t, hout, ht⟩

/-- Closing the writer stores what it has got. The reader is as it was. -/
theorem Transferring.closeWriter (h : Transferring world id reader id' writer key left written s)
    (hd : (world.drive? id').isSome = true) :
    ∃ t, ((store registry).close (.memory id' writer)).outcome s = (.ok (), t) ∧
      SameButHandles (withFile id' key written world) t ∧
      ∃ file, t.file? id reader = some file ∧ file.closed = false ∧ file.dirty = false := by
  obtain ⟨file, hf, hopen, hclean, -⟩ := h.source
  cases written with
  | nil =>
    -- there is nothing to store, but the file is empty already
    refine ⟨_, outcome_close_file_clean h.sink rfl rfl, h.same.trans (sameButHandles_putFile _ _ _ _), file, ?_, hopen,
      hclean⟩
    rw [file?_putFile h.sink, if_neg hne, hf]
  | cons first rest =>
    -- the emptied file is still there, so that the bytes go into it
    have hnode : s.nodeAt? id' key = some ⟨false, [], millis world.clock, false⟩ := by
      rw [h.same.nodeAt?, withFile, nodeAt?_putNode hd, if_pos ⟨rfl, rfl⟩]
    have hclock : s.clock = world.clock := h.same.clock.trans (clock_mapDrive _ _ _)
    let stored : Node := ⟨false, first :: rest, millis world.clock, false⟩
    let closed : DriveFile := ⟨key, ⟨first :: rest, (first :: rest).length⟩, true, false, false, false, true⟩
    have hclosed : ((store registry).close (.memory id' writer)).outcome s =
        (.ok (), putFile id' writer closed (putNode id' key stored s)) := by
      have hdirty := outcome_close_file_dirty h.sink rfl rfl hnode rfl
      rw [hclock] at hdirty
      exact hdirty
    have hsink := h.sink
    have hkept : ∀ other index, (putNode id' key stored s).file? other index = s.file? other index := file?_putNode
    rw [← hkept] at hsink hf
    refine ⟨_, hclosed, ?_, file, ?_, hopen, hclean⟩
    · have hstored := h.same.putNode id' key stored
      rw [withFile, putNode_putNode] at hstored
      exact hstored.trans (sameButHandles_putFile _ _ _ _)
    · rw [file?_putFile hsink, if_neg hne, hf]

end Loop

/-! ### The copy -/

/-- Why a copy is refused: the owner of both paths gives them one canonical path, no file is at the source, or the target
cannot be written. -/
inductive Refused (source target : DrivePath world registry) : Prop
  | same : world.owner registry target.path = world.owner registry source.path → source.canonical = target.canonical →
      Refused source target
  | noFile : (∀ node, source.node? = some node → node.isDirectory = true) → Refused source target
  | notWritable : ¬ target.Writable → Refused source target

variable {source target : DrivePath world registry}

theorem outcome_checkDistinct_drives (source target : DrivePath world registry) :
    ((store registry).checkDistinct source.path target.path).outcome world =
      if world.owner registry target.path = world.owner registry source.path ∧ source.canonical = target.canonical then
        (.error (.refused .copyOntoItself target.path), world)
      else (.ok (), world) := by
  rw [Store.outcome_checkDistinct_of source.outcome_canonicalPath target.outcome_canonicalPath,
    show (store registry).owner world = world.owner registry from rfl]
  split_ifs <;> simp_all

/-- A handle that is closed well leaves the answer as it is. -/
theorem outcome_closing {α : Type} {handle : Handle} {use : Call World α} {answer : Except Failure α} {s t u : World}
    (huse : use.outcome s = (answer, t)) (hclose : ((store registry).close handle).outcome t = (.ok (), u)) :
    ((store registry).closing handle use).outcome s = (answer, u) := by
  rw [Store.closing, Call.outcome_ensuring, huse]
  simp only [hclose]

theorem outcome_copy_of_unopened {failure : Failure}
    (hcheck : ((store registry).checkDistinct source.path target.path).outcome world = (.ok (), world))
    (hopen : ((store registry).openInput source.path).outcome world = (.error failure, world)) (count : Int) :
    (copy registry source.path target.path count).outcome world = (.error failure, world) := by
  rw [copy, Call.outcome_bind, Call.outcome_get]
  simp only
  rw [Store.copy, Call.outcome_bind, hcheck]
  simp only
  rw [Call.outcome_bind, hopen]

/-- Where the source is a file and the target cannot be written, the reader is closed again. -/
theorem outcome_copy_of_unwritable {node : Node}
    (hcheck : ((store registry).checkDistinct source.path target.path).outcome world = (.ok (), world))
    (hnode : source.node? = some node) (hfile : node.isDirectory = false) (hw : ¬ target.Writable) :
    ∃ failure s, SameButHandles world s ∧
      ∀ count, (copy registry source.path target.path count).outcome world = (.error failure, s) := by
  -- the source has been opened when the target is refused, so its handle is closed again
  let reader : DriveFile := ⟨source.key, ⟨node.bytes, 0⟩, false, false, false, false, false⟩
  let opened : World := addFile source.id reader world
  obtain ⟨failure, hrefused⟩ :=
    (target.after source.id reader).openOutput_refused (mt (target.writable_after source.id reader).mp hw)
  let left : World := putFile source.id source.drive.files.length { reader with closed := true } opened
  have hclose : ((store registry).close (.memory source.id source.drive.files.length)).outcome opened = (.ok (), left) :=
    outcome_close_file_clean (file?_addFile_self source.found) rfl rfl
  refine ⟨failure, left, (sameButHandles_addFile source.id reader world).trans (sameButHandles_putFile _ _ _ opened),
    fun count => ?_⟩
  rw [outcome_copy_of_opened count hcheck (source.outcome_openInput hnode hfile)]
  refine outcome_closing ?_ hclose
  rw [Call.outcome_bind]
  have hsink : ((store registry).openOutput target.path false).outcome opened = (.error failure, opened) := hrefused
  rw [hsink]

/-- A copy that is refused fails in the same way however many bytes are to be read at a time, and changes nothing. -/
theorem outcome_copy_of_not_allowed (h : Refused source target) :
    ∃ failure s, SameButHandles world s ∧
      ∀ count, (copy registry source.path target.path count).outcome world = (.error failure, s) := by
  have hcheck := outcome_checkDistinct_drives source target
  split_ifs at hcheck with hsame
  · exact ⟨_, world, .refl world, fun count => outcome_copy_of_refused count hcheck⟩
  · by_cases hfile : ∀ node, source.node? = some node → node.isDirectory = true
    · obtain ⟨failure, hopen⟩ := source.openInput_refused hfile
      exact ⟨failure, world, .refl world, outcome_copy_of_unopened hcheck hopen⟩
    · obtain ⟨node, hnode, hkind⟩ : ∃ node, source.node? = some node ∧ ¬ node.isDirectory = true := by
        simpa using hfile
      refine outcome_copy_of_unwritable hcheck hnode (Bool.not_eq_true _ ▸ hkind) ?_
      -- both checks before have passed, so only the target is left to refuse
      cases h with
      | same howner hcanonical => exact absurd ⟨howner, hcanonical⟩ hsame
      | noFile hnone => exact absurd hnone hfile
      | notWritable hw => exact hw

/-- With both ends open, everything that is to be carried over is stored, and both are closed. -/
theorem outcome_transfer {node : Node} (hnode : source.node? = some node) (hw : target.Writable) (count : Int) :
    ∃ s, (transfer registry (.memory source.id source.drive.files.length) target.path count world.volume).outcome
        (addFile source.id ⟨source.key, ⟨node.bytes, 0⟩, false, false, false, false, false⟩ world) =
        (answered count node.bytes, s) ∧
      SameButHandles (withFile target.id target.key (carried count node.bytes) world) s := by
  let reader : DriveFile := ⟨source.key, ⟨node.bytes, 0⟩, false, false, false, false, false⟩
  let writer : DriveFile := ⟨target.key, ⟨[], 0⟩, true, false, false, false, false⟩
  let opened : World := addFile source.id reader world
  let emptied : World := withFile target.id target.key [] opened
  let place := source.drive.files.length
  let place' := (target.after source.id reader).drive.files.length
  let started : World := addFile target.id writer emptied
  have hopen : ((store registry).openOutput target.path false).outcome opened =
      (.ok (.memory target.id place'), started) := by
    have hopened := (target.after source.id reader).outcome_openOutput ((target.writable_after source.id reader).mpr hw)
    rw [DrivePath.key_after] at hopened
    exact hopened
  have hreader : emptied.file? source.id place = some reader :=
    (file?_putNode _ _).trans (file?_addFile_self source.found)
  obtain ⟨drive, hfound, hlast⟩ : ∃ drive, emptied.drive? target.id = some drive ∧ drive.files.length = place' := by
    refine ⟨_, (drive?_mapDrive _ _).trans ((if_pos rfl).trans (congrArg _ (target.after source.id reader).found)), rfl⟩
  have hwriter : started.file? target.id place' = some writer := hlast ▸ file?_addFile_self hfound
  -- the writer comes behind all handles there are, so the reader is another one
  have hne : ¬ (source.id = target.id ∧ place = place') := by
    rintro ⟨hid, hplace⟩
    rw [hid, hplace, file?_of_drive hfound, ← hlast] at hreader
    simp at hreader
  have hstart : Transferring world source.id place target.id place' target.key node.bytes [] started := by
    refine ⟨?_, ⟨reader, file?_addFile_of_some hreader, rfl, rfl, rfl⟩, hwriter⟩
    have hsame : SameButHandles (withFile target.id target.key [] world) emptied :=
      (sameButHandles_addFile source.id reader world).withFile _ _ _
    exact hsame.trans (sameButHandles_addFile _ _ _)
  obtain ⟨rest, t, hcopy, ht⟩ :=
    hstart.copyStream registry hne (length_lt_volume source.found hnode) count
  obtain ⟨u, hclose, hu, file, hf, hfopen, hclean⟩ :=
    ht.closeWriter registry hne (by rw [target.found]; rfl)
  have hcloseReader : ((store registry).close (.memory source.id place)).outcome u =
      (.ok (), putFile source.id place { file with closed := true } u) := outcome_close_file_clean hf hfopen hclean
  refine ⟨_, ?_, hu.trans (sameButHandles_putFile source.id place { file with closed := true } u)⟩
  refine outcome_closing ?_ hcloseReader
  rw [Call.outcome_bind, hopen]
  exact outcome_closing hcopy hclose

/-- A copy that is not refused carries over from its source what its loop does. -/
theorem outcome_copy_of_allowed (h : ¬ Refused source target) :
    ∃ node, source.node? = some node ∧ node.isDirectory = false ∧
      ∀ count, ∃ s, (copy registry source.path target.path count).outcome world =
          (answered count node.bytes, s) ∧
        SameButHandles (withFile target.id target.key (carried count node.bytes) world) s := by
  have hcheck := outcome_checkDistinct_drives source target
  rw [if_neg fun hsame => h (.same hsame.1 hsame.2)] at hcheck
  obtain ⟨node, hnode, hkind⟩ : ∃ node, source.node? = some node ∧ ¬ node.isDirectory = true := by
    simpa using fun hfile => h (.noFile hfile)
  have hfile : node.isDirectory = false := Bool.not_eq_true _ ▸ hkind
  have hw : target.Writable := by_contra fun hw => h (.notWritable hw)
  refine ⟨node, hnode, hfile, fun count => ?_⟩
  rw [outcome_copy_of_opened count hcheck (source.outcome_openInput hnode hfile)]
  exact outcome_transfer hnode hw count

theorem fits_zero : Fits 0 := by decide

/-- What is no count carries nothing over, as zero does. -/
theorem carried_of_not_fits {count : Int} (h : ¬ Fits count) (bytes : Bytes) : carried count bytes = [] :=
  if_pos (Or.inr h)

theorem carried_of_ne_zero {count : Int} (hfits : Fits count) (h : count ≠ 0) (bytes : Bytes) :
    carried count bytes = bytes :=
  if_neg fun hor => hor.elim h fun hmisfit => hmisfit hfits

theorem carried_eq_iff {c d : Int} (hc : Fits c) (hd : Fits d) {bytes : Bytes} :
    carried c bytes = carried d bytes ↔ (c = 0 ↔ d = 0) ∨ bytes = [] := by
  rw [carried, carried]
  simp only [hc, hd, not_true_eq_false, or_false]
  split_ifs <;> simp_all [eq_comm]

theorem eq_of_length_carried {c d : Int} {bytes : Bytes} (h : (carried c bytes).length = (carried d bytes).length) :
    carried c bytes = carried d bytes := by
  rw [carried, carried] at h ⊢
  split_ifs at h ⊢
  · rfl
  · exact (List.length_eq_zero_iff.mp h.symm).symm
  · exact List.length_eq_zero_iff.mp h
  · rfl

/-- Two loops answer the same and carry over the same if both ask for counts and neither or both for none, or if neither
asks for a count; or where nothing is to be carried over, if both or neither ask for counts. -/
theorem answered_eq_iff {c d : Int} {bytes : Bytes} :
    answered c bytes = answered d bytes ↔ (Fits c ↔ Fits d) ∧ ((c = 0 ↔ d = 0) ∨ bytes = []) := by
  by_cases hc : Fits c <;> by_cases hd : Fits d
  · rw [answered, answered, if_pos hc, if_pos hd, Except.ok.injEq, ← carried_eq_iff hc hd]
    exact ⟨fun h => ⟨⟨fun _ => hd, fun _ => hc⟩, eq_of_length_carried h⟩, fun h => by rw [h.2]⟩
  · rw [answered, answered, if_pos hc, if_neg hd]
    exact ⟨fun h => by simp at h, fun h => absurd (h.1.mp hc) hd⟩
  · rw [answered, answered, if_neg hc, if_pos hd]
    exact ⟨fun h => by simp at h, fun h => absurd (h.1.mpr hd) hc⟩
  · have hne : ∀ {count : Int}, ¬ Fits count → count ≠ 0 := fun h he => h (he ▸ fits_zero)
    rw [answered, answered, if_neg hc, if_neg hd]
    exact ⟨fun _ => ⟨⟨fun h => absurd h hc, fun h => absurd h hd⟩, Or.inl ⟨fun h => absurd h (hne hc), fun h =>
      absurd h (hne hd)⟩⟩, fun _ => rfl⟩

theorem carried_eq_of_answered {c d : Int} {bytes : Bytes} (h : answered c bytes = answered d bytes) :
    carried c bytes = carried d bytes := by
  obtain ⟨hfits, hsame⟩ := answered_eq_iff.mp h
  by_cases hc : Fits c
  · exact (carried_eq_iff hc (hfits.mp hc)).mpr hsame
  · rw [carried_of_not_fits hc, carried_of_not_fits fun hd => hc (hfits.mpr hd)]

theorem nodeAt?_withFile (target : DrivePath world registry) (bytes : Bytes) (id : Nat) (key : Key) :
    (withFile target.id target.key bytes world).nodeAt? id key =
      if id = target.id ∧ key = target.key then some ⟨false, bytes, millis world.clock, false⟩
      else world.nodeAt? id key :=
  nodeAt?_putNode (by rw [target.found]; rfl) id key

/-- A copy that asks for some bytes at a time leaves its source the bytes that it had, also when the target is the same
file. -/
theorem nodeAt?_copy_source (source target : DrivePath world registry) {count : Int} (hfits : Fits count)
    (hcount : count ≠ 0) :
    (((copy registry source.path target.path count).outcome world).2.nodeAt? source.id source.key).map Node.bytes =
      source.node?.map Node.bytes := by
  by_cases h : Refused source target
  · obtain ⟨failure, s, hs, hout⟩ := outcome_copy_of_not_allowed h
    rw [hout, hs.nodeAt?, source.nodeAt?_key]
  · obtain ⟨node, hnode, -, hall⟩ := outcome_copy_of_allowed h
    obtain ⟨s, hout, hs⟩ := hall count
    rw [hout, hs.nodeAt?, carried_of_ne_zero hfits hcount, nodeAt?_withFile, source.nodeAt?_key, hnode]
    split_ifs <;> rfl

/-! ### Two drives -/

/-- A world with a file on one drive, another drive, and a plain view with a registry of its own, in which only the
second drive is a member. -/
def pairedWorld : World :=
  { fresh [] 5000000 (.counting []) with
    providers := [⟨Disk.scheme, .ownSchemeOrNone, none, .disk⟩,
      ⟨"mem".toList, .ownScheme, none,
        .memory ⟨"mem".toList, [([], .newDirectory 0), ([['a']], ⟨false, [1, 2], 0, false⟩)], []⟩⟩,
      ⟨"tmp".toList, .ownScheme, none, .memory (.fresh "tmp".toList 0)⟩,
      ⟨"via".toList, .ownScheme, none, .view 1 false⟩]
    registries := [
      ⟨[⟨1, "mem".toList, .ownScheme⟩, ⟨3, "via".toList, .ownScheme⟩], ⟨0, Disk.scheme, .ownSchemeOrNone⟩⟩,
      ⟨[⟨2, "tmp".toList, .ownScheme⟩], ⟨0, Disk.scheme, .ownSchemeOrNone⟩⟩] }

/-- The file on the first drive. -/
def pairedSource : DrivePath pairedWorld 0 where
  path := "mem:/a".toList
  chain := []
  id := 1
  inner := "mem:/a".toList
  drive := ⟨"mem".toList, [([], .newDirectory 0), ([['a']], ⟨false, [1, 2], 0, false⟩)], []⟩
  routed := .base ⟨_, rfl, Or.inr ⟨_, rfl⟩⟩
  found := rfl

/-- A path to the second drive, through the view. -/
def pairedTarget : DrivePath pairedWorld 0 where
  path := "via:tmp:/b".toList
  chain := [("via".toList, false)]
  id := 2
  inner := "tmp:/b".toList
  drive := .fresh "tmp".toList 0
  routed := .view rfl (.base ⟨_, rfl, Or.inr ⟨_, rfl⟩⟩)
  found := rfl

theorem node?_pairedSource : pairedSource.node? = some ⟨false, [1, 2], 0, false⟩ := by decide

theorem writable_pairedTarget : pairedTarget.Writable where
  plain scheme hm := absurd (Prod.mk.inj (List.mem_singleton.mp hm)).2 (by decide)
  writable := by
    have hnone : pairedTarget.drive.tree.get? pairedTarget.key = none := by decide
    have hroot : pairedTarget.drive.tree.get? pairedTarget.key.parent = some (.newDirectory 0) := by decide
    have hparent : pairedTarget.drive.tree.HasDirectory pairedTarget.key.parent := ⟨_, hroot, rfl⟩
    simpa only [Drive.Writable, hnone] using hparent

theorem not_refused_paired : ¬ Refused pairedSource pairedTarget := by
  rintro (howner | hnone | hwritable)
  · exact absurd howner (by decide)
  · simpa using hnone _ node?_pairedSource
  · exact hwritable writable_pairedTarget

/-- **What a copy between drives does**, to one drive or two, through views or without. If it is refused, nothing but
handles has changed. Otherwise, if it asks for a count of bytes at a time, it answers the number of bytes of its source,
its target is a file with just these bytes, written now and not protected, the source still has them, and every other
entry of every drive is as it was; and if it asks for more, it fails, its target is an empty file, written now and not
protected, and every other entry is as it was. -/
theorem outcome_copy_drives (source target : DrivePath world registry) {count : Int} (hcount : 0 < count) :
    (Refused source target → ∃ failure s,
      (copy registry source.path target.path count).outcome world = (.error failure, s) ∧
      (∀ id key, s.nodeAt? id key = world.nodeAt? id key) ∧ SameButHandles world s) ∧
    (¬ Refused source target → Fits count → ∃ node s, source.node? = some node ∧ node.isDirectory = false ∧
      (copy registry source.path target.path count).outcome world = (.ok node.bytes.length, s) ∧
      (∀ id key, s.nodeAt? id key =
        if id = target.id ∧ key = target.key then some ⟨false, node.bytes, millis world.clock, false⟩
        else world.nodeAt? id key) ∧
      (s.nodeAt? source.id source.key).map Node.bytes = some node.bytes ∧
      SameButHandles (withFile target.id target.key node.bytes world) s) ∧
    (¬ Refused source target → ¬ Fits count → ∃ s,
      (copy registry source.path target.path count).outcome world = (.error Count.misfit, s) ∧
      (∀ id key, s.nodeAt? id key =
        if id = target.id ∧ key = target.key then some ⟨false, [], millis world.clock, false⟩
        else world.nodeAt? id key) ∧
      SameButHandles (withFile target.id target.key [] world) s) := by
  refine ⟨fun h => ?_, fun h hfits => ?_, fun h hmisfit => ?_⟩
  · obtain ⟨failure, s, hs, hout⟩ := outcome_copy_of_not_allowed h
    exact ⟨failure, s, hout count, hs.nodeAt?, hs⟩
  · have hne : count ≠ 0 := Int.ne_of_gt hcount
    obtain ⟨node, hnode, hfile, hall⟩ := outcome_copy_of_allowed h
    obtain ⟨s, hout, hs⟩ := hall count
    rw [answered, if_pos hfits, carried_of_ne_zero hfits hne] at hout
    rw [carried_of_ne_zero hfits hne] at hs
    have hentry : ∀ id key, s.nodeAt? id key =
        if id = target.id ∧ key = target.key then some ⟨false, node.bytes, millis world.clock, false⟩
        else world.nodeAt? id key := fun id key => (hs.nodeAt? id key).trans (nodeAt?_withFile target node.bytes id key)
    -- the source may be the target, but then it gets back what it had
    have hsource := nodeAt?_copy_source source target hfits hne
    rw [hout, hnode] at hsource
    exact ⟨node, s, hnode, hfile, hout, hentry, hsource, hs⟩
  · obtain ⟨node, -, -, hall⟩ := outcome_copy_of_allowed h
    obtain ⟨s, hout, hs⟩ := hall count
    rw [answered, if_neg hmisfit] at hout
    rw [carried_of_not_fits hmisfit] at hs
    exact ⟨s, hout, fun id key => (hs.nodeAt? id key).trans (nodeAt?_withFile target [] id key), hs⟩

theorem outcome_copy_paired :
    (0 : Int) < 1 ∧ ¬ Refused pairedSource pairedTarget ∧ Fits 1 ∧
      ∃ s, (copy 0 "mem:/a".toList "via:tmp:/b".toList 1).outcome pairedWorld = (.ok 2, s) ∧
        s.nodeAt? 2 [['b']] = some ⟨false, [1, 2], 5, false⟩ ∧ s.nodeAt? 1 [['a']] = some ⟨false, [1, 2], 0, false⟩ := by
  obtain ⟨node, s, hnode, -, hout, hentry, -⟩ :=
    (outcome_copy_drives pairedSource pairedTarget (by decide : (0 : Int) < 1)).2.1 not_refused_paired (by decide)
  obtain rfl := Option.some.inj (node?_pairedSource.symm.trans hnode)
  have hkey : pairedTarget.key = [['b']] := by decide
  have hother : pairedWorld.nodeAt? 1 [['a']] = some ⟨false, [1, 2], 0, false⟩ := by decide
  refine ⟨by decide, not_refused_paired, by decide, s, hout, ?_, ?_⟩
  · rw [hentry, if_pos ⟨rfl, hkey.symm⟩]
    rfl
  · rw [hentry, if_neg fun hboth => absurd hboth.1 (by decide), hother]

/-- Not every copy that asks for some bytes at a time either fails and changes no tree, or answers a number. -/
theorem not_forall_outcome_copy_drives :
    ¬ ∀ {world : World} {registry : Nat} (source target : DrivePath world registry) {count : Int}, 0 < count →
      (∃ failure s, (copy registry source.path target.path count).outcome world = (.error failure, s) ∧
          ∀ id key, s.nodeAt? id key = world.nodeAt? id key) ∨
        ∃ (n : Nat) (s : World), (copy registry source.path target.path count).outcome world = (.ok n, s) := by
  intro hall
  obtain ⟨node, -, -, hcopy⟩ := outcome_copy_of_allowed not_refused_paired
  obtain ⟨s, hout, hs⟩ := hcopy 0x8000000000000000
  have hmisfit : ¬ Fits 0x8000000000000000 := by decide
  have hpositive : (0 : Int) < 0x8000000000000000 := by decide
  rw [answered, if_neg hmisfit] at hout
  rcases hall pairedSource pairedTarget hpositive with ⟨failure, t, ht, hkept⟩ | ⟨n, t, ht⟩
  · -- the target is there now
    obtain rfl : s = t := congrArg Prod.snd (hout.symm.trans ht)
    have hbefore : pairedWorld.nodeAt? 2 pairedTarget.key = none := by decide
    have hafter := (hs.nodeAt? 2 pairedTarget.key).symm.trans (hkept 2 pairedTarget.key)
    rw [nodeAt?_withFile, if_pos ⟨rfl, rfl⟩, hbefore] at hafter
    simp at hafter
  · exact absurd (congrArg Prod.fst (hout.symm.trans ht)) (by simp)

/-- Two copies end alike: with the same answer, and the same bytes in every file. -/
def EndAlike (first second : Except Failure Nat × World) : Prop :=
  first.1 = second.1 ∧ ∀ id key, (first.2.nodeAt? id key).map Node.bytes = (second.2.nodeAt? id key).map Node.bytes

/-- **Copies with different chunks end alike** when they are refused; when both ask for counts of bytes at a time,
unless just one of them asks for none and there are bytes to be carried over; and when neither asks for a count. One that
asks for none leaves its target empty, as one that asks for what is no count does. Those that end alike differ in nothing
but handles. -/
theorem endAlike_copy_iff (source target : DrivePath world registry) (c d : Int) :
    (EndAlike ((copy registry source.path target.path c).outcome world)
        ((copy registry source.path target.path d).outcome world) ↔
      Refused source target ∨
        ((Fits c ↔ Fits d) ∧ ((c = 0 ↔ d = 0) ∨ source.node?.map Node.bytes = some []))) ∧
    (EndAlike ((copy registry source.path target.path c).outcome world)
        ((copy registry source.path target.path d).outcome world) →
      SameButHandles ((copy registry source.path target.path c).outcome world).2
        ((copy registry source.path target.path d).outcome world).2) := by
  by_cases h : Refused source target
  · obtain ⟨failure, s, hs, hout⟩ := outcome_copy_of_not_allowed h
    rw [hout c, hout d]
    exact ⟨⟨fun _ => .inl h, fun _ => ⟨rfl, fun _ _ => rfl⟩⟩, fun _ => .refl s⟩
  · obtain ⟨node, hnode, -, hall⟩ := outcome_copy_of_allowed h
    obtain ⟨s, hc, hs⟩ := hall c
    obtain ⟨t, hd, ht⟩ := hall d
    rw [hc, hd]
    -- copies that answer the same have carried over the same
    have hsame : answered c node.bytes = answered d node.bytes → SameButHandles s t := fun he =>
      (carried_eq_of_answered he ▸ hs.symm).trans ht
    have halike : EndAlike (answered c node.bytes, s) (answered d node.bytes, t) ↔
        answered c node.bytes = answered d node.bytes := by
      refine ⟨fun hend => hend.1, fun he => ⟨he, fun id key => ?_⟩⟩
      rw [(hsame he).nodeAt?]
    rw [halike, or_iff_right h, hnode, Option.map_some, Option.some.injEq, ← answered_eq_iff]
    exact ⟨Iff.rfl, hsame⟩

/-- Not all numbers of bytes at a time lead to the same end. -/
theorem not_forall_endAlike_copy :
    ¬ ∀ (world : World) (registry : Nat) (source target : DrivePath world registry) (c d : Int),
      EndAlike ((copy registry source.path target.path c).outcome world)
        ((copy registry source.path target.path d).outcome world) := by
  intro hall
  obtain ⟨node, hnode, -, hcopy⟩ := outcome_copy_of_allowed not_refused_paired
  obtain rfl := Option.some.inj (node?_pairedSource.symm.trans hnode)
  obtain ⟨s, hs, -⟩ := hcopy 0
  obtain ⟨t, ht, -⟩ := hcopy 8192
  have hend := hall pairedWorld 0 pairedSource pairedTarget 0 8192
  rw [hs, ht] at hend
  have hanswers : answered 0 [1, 2] = answered 8192 [1, 2] := hend.1
  exact absurd hanswers (by decide)

end FileRouter.World
