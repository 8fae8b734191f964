import FileRouter.Proofs.Store.Copy
/-!
Copying a file of the disk.

A file whose path is the source of a copy keeps its bytes if the target does not open it for writing
(`bytesOf_copy_of_other`). If it does, the file is emptied before the first read, and stays empty
(`bytesOf_copy_of_same`).
-/

namespace FileRouter.World

variable {world : World} {registry id : Nat} {source target inner inner' : Text}
  {chain chain' : List (Text × Bool)} {body : Nat}

/-! ### Without harm -/

/-- A world in which a file of the disk has given bytes, and no handle with one of given numbers can change
them. -/
structure Safe (body : Nat) (bytes : Bytes) (handles : List Nat) (world : World) : Prop where
  bytes : world.disk.fs.bytesOf body = bytes
  handles : ∀ index ∈ handles, ∃ file, world.disk.files[index]? = some file ∧ Disk.Harmless body file

theorem Safe.of_kept {bytes : Bytes} {handles : List Nat} (h : Safe body bytes handles world) {disk : Disk}
    (hk : Disk.Kept body world.disk disk) : Safe body bytes handles (withDisk disk world) := by
  refine ⟨hk.bytes.trans h.bytes, fun index hm => ?_⟩
  obtain ⟨file, hf, hh⟩ := h.handles index hm
  obtain ⟨file', hf', hcalm⟩ := hk.files hf
  exact ⟨file', hf', hh.of_calm hcalm⟩

/-- Such a handle may be used in any way. -/
theorem Safe.onHandle {bytes : Bytes} {handles : List Nat} (h : Safe body bytes handles world) {index : Nat}
    (hm : index ∈ handles) (request : StreamRequest) :
    Safe body bytes handles ((World.onHandle (.disk index) request).outcome world).2 := by
  obtain ⟨file, hf, hh⟩ := h.handles index hm
  rw [outcome_onHandle_disk]
  exact h.of_kept (Disk.kept_onFile hf hh request)

theorem Safe.closing {α : Type} (registry : Nat) {bytes : Bytes} {handles : List Nat} {index : Nat}
    (hm : index ∈ handles) {use : Call World α}
    (h : Safe body bytes handles (use.outcome world).2) :
    Safe body bytes handles (((store registry).closing (.disk index) use).outcome world).2 := by
  rw [Store.closing, Call.outcome_ensuring_snd]
  exact h.onHandle hm .close

/-- Copying from one such handle to another is safe. -/
theorem Safe.copyStream (registry : Nat) {bytes : Bytes} {handles : List Nat}
    (h : Safe body bytes handles world) {reader writer : Nat} (hr : reader ∈ handles)
    (hw : writer ∈ handles) (chunkSize : Int) (chunks : Nat) :
    Safe body bytes handles
      ((FileRouter.copyStream ((store registry).read (.disk reader) (some chunkSize))
        (fun data => discard ((store registry).write (.disk writer) data)) chunks).outcome world).2 := by
  refine keeps_copyStream (fun world hs => ?_) (fun chunk world hs => ?_) chunks world h
  · exact hs.onHandle hr (.read (some chunkSize))
  · rw [Call.outcome_discard]
    exact hs.onHandle hw (.write chunk)

theorem outcome_openOutput_disk (ht : world.Leads registry target chain' id inner')
    (hplain : ∀ scheme, (scheme, true) ∉ chain') (hdisk : world.IsDisk id) :
    (perform registry (.openOutput target false)).outcome world =
      (((Disk.openOutput inner' false).outcome world.disk).1.map Handle.disk,
        withDisk ((Disk.openOutput inner' false).outcome world.disk).2 world) := by
  rw [ht.outcome_openOutput hplain, outcome_direct_disk hdisk]
  rfl

/-- Opening another file for writing is safe, and so is the handle. -/
theorem Safe.openOutput {bytes : Bytes} {handles : List Nat} (h : Safe body bytes handles world)
    (ht : world.Leads registry target chain' id inner') (hdisk : world.IsDisk id)
    (hbody : body < world.disk.fs.bodies.length)
    (hother : world.disk.bodyAt? inner' ≠ some body ∨ ∃ scheme, (scheme, true) ∈ chain') :
    Safe body bytes handles ((perform registry (.openOutput target false)).outcome world).2 ∧
      ∀ {handle : Handle}, ((perform registry (.openOutput target false)).outcome world).1 = .ok handle →
        ∃ index, handle = .disk index ∧
          Safe body bytes (index :: handles)
            ((perform registry (.openOutput target false)).outcome world).2 := by
  by_cases hread : ∃ scheme, (scheme, true) ∈ chain'
  -- a read-only view refuses before anything is opened
  · obtain ⟨refused, hrefused⟩ := ht.outcome_openOutput_refused hread false
    rw [hrefused]
    exact ⟨h, fun hr => by simp at hr⟩
  · have hplain : ∀ scheme, (scheme, true) ∉ chain' := fun scheme hm => hread ⟨scheme, hm⟩
    obtain ⟨hkept, hopened⟩ := Disk.kept_openOutput hbody (hother.resolve_right hread)
    rw [outcome_openOutput_disk ht hplain hdisk]
    have hsafe := h.of_kept hkept
    refine ⟨hsafe, fun {handle} hr => ?_⟩
    cases hresult : ((Disk.openOutput inner' false).outcome world.disk).1 with
    | error failure => simp [hresult, Except.map] at hr
    | ok index =>
      rw [hresult] at hr
      refine ⟨index, (Except.ok.inj hr).symm, hsafe.bytes, fun other hm => ?_⟩
      rcases List.mem_cons.mp hm with rfl | hm
      · exact hopened hresult
      · exact hsafe.handles other hm

/-- The world after a file of the disk has been opened for reading. -/
def reading (body : Nat) (world : World) : World :=
  withDisk { world.disk with files := world.disk.files ++ [⟨body, .reader, 0, .idle, none, false⟩] } world

theorem outcome_openInput_disk (hs : world.Leads registry source chain id inner) (hdisk : world.IsDisk id)
    (hbody : world.disk.bodyAt? inner = some body) :
    (perform registry (.openInput source)).outcome world =
      (.ok (.disk world.disk.files.length), reading body world) := by
  rw [hs.outcome_openInput, outcome_direct_disk hdisk]
  show (((Disk.openInput inner).outcome world.disk).1.map Handle.disk,
    withDisk ((Disk.openInput inner).outcome world.disk).2 world) = _
  rw [Disk.outcome_openInput hbody]
  rfl

theorem safe_reading (body : Nat) (world : World) :
    Safe body (world.disk.fs.bytesOf body) [world.disk.files.length] (reading body world) := by
  refine ⟨rfl, fun index hm => ?_⟩
  obtain rfl := List.mem_singleton.mp hm
  exact ⟨_, List.getElem?_concat_length, Or.inr ⟨rfl, rfl⟩⟩

/-- A copy does no harm to the file it reads from if it does not open that file for writing. -/
theorem bytesOf_copy_of_other (chunkSize : Int) (hs : world.Leads registry source chain id inner)
    (ht : world.Leads registry target chain' id inner') (hdisk : world.IsDisk id)
    (hlt : body < world.disk.fs.bodies.length) (hbody : world.disk.bodyAt? inner = some body)
    (hother : world.disk.bodyAt? inner' ≠ some body ∨ ∃ scheme, (scheme, true) ∈ chain') :
    ((copy registry source target chunkSize).outcome world).2.disk.fs.bytesOf body =
      world.disk.fs.bytesOf body := by
  have hcheck := checkDistinct_unchanged hs ht
  rcases hc : ((store registry).checkDistinct source target).outcome world with ⟨failure | _, left⟩
  · rw [hc] at hcheck
    obtain rfl : left = world := hcheck
    rw [outcome_copy_of_refused chunkSize hc]
  · rw [hc] at hcheck
    obtain rfl : left = world := hcheck
    rw [outcome_copy_of_opened chunkSize hc (outcome_openInput_disk hs hdisk hbody)]
    -- the source handle is safe from the start, the sink from when it is open
    refine (Safe.closing registry (List.mem_singleton.mpr rfl) ?_).bytes
    obtain ⟨hsafe, hopened⟩ := (safe_reading body left).openOutput
      (ht.of_sameWays (sameWays_withDisk _ left)) hdisk hlt hother
    refine Call.inv_bind hsafe fun {handle opened} ho _ => ?_
    have hresult : ((perform registry (.openOutput target false)).outcome (reading body left)).1 =
        .ok handle := congrArg Prod.fst ho
    obtain ⟨index, rfl, hboth⟩ := hopened hresult
    have hstate : ((perform registry (.openOutput target false)).outcome (reading body left)).2 =
        opened := congrArg Prod.snd ho
    rw [hstate] at hboth
    have hdone := Safe.closing registry List.mem_cons_self
      (hboth.copyStream registry (List.mem_cons_of_mem _ List.mem_cons_self)
        List.mem_cons_self chunkSize left.volume)
    exact ⟨hdone.bytes, fun other hm => hdone.handles other (List.mem_cons_of_mem _ hm)⟩

/-! ### Onto itself -/

/-- A copy from an empty file ends with the first read, which may fail, and then closes a sink that has nothing to
store. -/
theorem Safe.copy_empty {reader writer : Nat} (h : Safe body [] [reader] world)
    (hr : world.disk.files[reader]? = some ⟨body, .reader, 0, .idle, none, false⟩)
    (hw : world.disk.files[writer]? = some ⟨body, .writer false, 0, .idle, none, false⟩)
    (chunkSize : Int) (chunks : Nat) :
    Safe body [] [reader]
      (((store registry).closing (.disk writer)
        (FileRouter.copyStream ((store registry).read (.disk reader) (some chunkSize))
          (fun data => discard ((store registry).write (.disk writer) data)) (chunks + 1))).outcome
        world).2 := by
  have hkept : Disk.Kept body world.disk
      ((Disk.read reader (some chunkSize)).outcome world.disk).2 :=
    (Disk.keptByWork hr (Or.inr ⟨rfl, rfl⟩)).read _ _ (.refl _)
  have hend : ((FileRouter.copyStream ((store registry).read (.disk reader) (some chunkSize))
      (fun data => discard ((store registry).write (.disk writer) data)) (chunks + 1)).outcome world).2 =
      withDisk ((Disk.read reader (some chunkSize)).outcome world.disk).2 world := by
    have hread : ((store registry).read (.disk reader) (some chunkSize)).outcome world =
        (((Disk.read reader (some chunkSize)).outcome world.disk).1,
          withDisk ((Disk.read reader (some chunkSize)).outcome world.disk).2 world) := rfl
    rw [FileRouter.copyStream, Call.outcome_bind, hread]
    -- a read of an empty file that does not fail gets nothing, which ends the loop
    cases hresult : ((Disk.read reader (some chunkSize)).outcome world.disk).1 with
    | error failure => rfl
    | ok chunk =>
      obtain rfl := Disk.eq_nil_of_read hr rfl rfl h.bytes hresult
      rfl
  rw [Store.closing, Call.outcome_ensuring_snd, hend]
  obtain ⟨sink, hsink, hcalm⟩ := hkept.files hw
  have hidle : Disk.Idle body sink := Disk.Idle.of_calm (Or.inr rfl) hcalm
  exact (h.of_kept hkept).of_kept (Disk.kept_close hsink hidle)

/-- The world after a file of the disk has been opened for writing, and emptied by that. -/
def emptied (body : Nat) (world : World) : World :=
  withDisk
    { world.disk with
      fs := world.disk.fs.changeBody body fun b => { b with bytes := [] }
      files := world.disk.files ++ [⟨body, .writer false, 0, .idle, none, false⟩] }
    world

theorem bytesOf_emptied (body : Nat) (world : World) : (emptied body world).disk.fs.bytesOf body = [] := by
  show (world.disk.fs.changeBody body fun b => { b with bytes := [] }).bytesOf body = []
  rw [Disk.FileSystem.bytesOf_changeBody, if_pos rfl]
  cases world.disk.fs.body? body <;> rfl

/-- A copy that reads from a file which it opens for writing too leaves it empty. -/
theorem bytesOf_copy_of_same (chunkSize : Int) (hs : world.Leads registry source chain id inner)
    (ht : world.Leads registry target chain' id inner') (hdisk : world.IsDisk id)
    (hw : world.disk.fs.WellFormed) (hbody : world.disk.bodyAt? inner = some body)
    (hbody' : world.disk.bodyAt? inner' = some body) (hplain : ∀ scheme, (scheme, true) ∉ chain')
    (hc : ((store registry).checkDistinct source target).outcome world = (.ok (), world)) :
    ((copy registry source target chunkSize).outcome world).2.disk.fs.bytesOf body = [] := by
  rw [outcome_copy_of_opened chunkSize hc (outcome_openInput_disk hs hdisk hbody)]
  -- opening the target empties the file under the handle that is to read it
  let opened := emptied body (reading body world)
  have hreader : opened.disk.files[world.disk.files.length]? =
      some ⟨body, .reader, 0, .idle, none, false⟩ := by
    simp [opened, emptied, reading, withDisk]
  have hwriter : opened.disk.files[world.disk.files.length + 1]? =
      some ⟨body, .writer false, 0, .idle, none, false⟩ := by
    simp [opened, emptied, reading, withDisk]
  have hsafe : Safe body [] [world.disk.files.length] opened := by
    refine ⟨bytesOf_emptied body _, fun index hm => ?_⟩
    obtain rfl := List.mem_singleton.mp hm
    exact ⟨_, hreader, Or.inr ⟨rfl, rfl⟩⟩
  have hsink : ((store registry).openOutput target false).outcome (reading body world) =
      (.ok (.disk (world.disk.files.length + 1)), opened) := by
    have hopened : (Disk.openOutput inner' false).outcome (reading body world).disk =
        (.ok (reading body world).disk.files.length, opened.disk) :=
      Disk.outcome_openOutput_of_bodyAt hw hbody'
    have hlength : (reading body world).disk.files.length = world.disk.files.length + 1 :=
      List.length_append
    have ht' : (reading body world).Leads registry target chain' id inner' :=
      ht.of_sameWays (sameWays_withDisk _ world)
    show (perform registry (.openOutput target false)).outcome (reading body world) = _
    rw [outcome_openOutput_disk ht' hplain hdisk, hopened, hlength]
    rfl
  obtain ⟨chunks, hchunks⟩ : ∃ chunks, world.volume = chunks + 1 :=
    ⟨world.volume - 1, by rw [volume]; omega⟩
  refine (Safe.closing registry (List.mem_singleton.mpr rfl) ?_).bytes
  rw [Call.outcome_bind, hsink, hchunks]
  exact hsafe.copy_empty hreader hwriter chunkSize chunks

end FileRouter.World
