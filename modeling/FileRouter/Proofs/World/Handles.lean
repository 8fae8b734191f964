import FileRouter.Proofs.World.Files
/-!
Handles on the drives of a world.

A request to a handle on a drive changes that handle, and a commit also one entry of the drive. What is seen of a world
through `nodeAt?` and `file?` tells how such changes go together, whether they are made to one drive or to two. Two worlds
that differ in nothing but the handles on their drives are `SameButHandles`.
-/

namespace FileRouter

/-- A drive without the handles that it has given out. -/
def Drive.withoutHandles (drive : Drive) : Drive := ⟨drive.scheme, drive.tree, []⟩

/-- What stands behind a provider, without handles. -/
def Backing.withoutHandles : Backing → Backing
  | memory drive => memory drive.withoutHandles
  | backing => backing

namespace World

variable {world world' world'' : World} {id index registry : Nat} {drive : Drive} {file : DriveFile} {key : Key} {node : Node}

/-- The entry at a key of a drive. -/
def nodeAt? (world : World) (id : Nat) (key : Key) : Option Node :=
  (world.drive? id).bind fun drive => drive.tree.get? key

/-- The handle with an index on a drive. -/
def file? (world : World) (id index : Nat) : Option DriveFile :=
  (world.drive? id).bind fun drive => drive.files[index]?

/-- Changes the drive behind a provider, if there is one. -/
def mapDrive (id : Nat) (f : Drive → Drive) (world : World) : World :=
  match world.drive? id with
  | some drive => withDrive id (f drive) world
  | none => world

/-- Puts a node at a key of a drive. -/
def putNode (id : Nat) (key : Key) (node : Node) (world : World) : World :=
  mapDrive id (fun drive => { drive with tree := drive.tree.put key node }) world

/-- Puts a handle in the place of the one with an index. -/
def putFile (id index : Nat) (file : DriveFile) (world : World) : World :=
  mapDrive id (fun drive => { drive with files := drive.files.set index file }) world

/-- Adds a handle. -/
def addFile (id : Nat) (file : DriveFile) (world : World) : World :=
  mapDrive id (fun drive => { drive with files := drive.files ++ [file] }) world

/-- A world without the handles on its drives. -/
def withoutHandles (world : World) : World :=
  { world with
    providers := world.providers.map fun provider => { provider with backing := provider.backing.withoutHandles } }

/-- Two worlds that differ in nothing but the handles on their drives. -/
def SameButHandles (world world' : World) : Prop := world'.withoutHandles = world.withoutHandles

/-! ### Changing a drive -/

theorem mapDrive_of_drive (hd : world.drive? id = some drive) (f : Drive → Drive) :
    mapDrive id f world = withDrive id (f drive) world := by
  rw [mapDrive, hd]

theorem provider?_withDrive_ne {other : Nat} (hne : other ≠ id) (drive : Drive) :
    (withDrive id drive world).provider? other = world.provider? other := by
  simp [provider?, withDrive, setBacking, Ne.symm hne]

theorem drive?_withDrive_ne {other : Nat} (hne : other ≠ id) (drive : Drive) :
    (withDrive id drive world).drive? other = world.drive? other := by
  rw [drive?, drive?, provider?_withDrive_ne hne]

theorem drive?_mapDrive (f : Drive → Drive) (other : Nat) :
    (mapDrive id f world).drive? other =
      if other = id then (world.drive? id).map f else world.drive? other := by
  split_ifs with hsame
  · subst hsame
    rw [mapDrive]
    cases hd : world.drive? other with
    | none => exact hd
    | some drive => exact drive?_withDrive hd
  · rw [mapDrive]
    split
    · exact drive?_withDrive_ne hsame _
    · rfl

theorem mapDrive_mapDrive (f g : Drive → Drive) :
    mapDrive id g (mapDrive id f world) = mapDrive id (fun drive => g (f drive)) world := by
  cases hd : world.drive? id with
  | none =>
    have hnone : mapDrive id f world = world := by rw [mapDrive, hd]
    rw [hnone, mapDrive, mapDrive, hd]
  | some drive =>
    have hd' : (mapDrive id f world).drive? id = some (f drive) := by rw [drive?_mapDrive, if_pos rfl, hd, Option.map_some]
    rw [mapDrive_of_drive hd', mapDrive_of_drive hd, mapDrive_of_drive hd, withDrive_withDrive]

/-- Of two nodes for a key the second stays. -/
theorem putNode_putNode (first second : Node) :
    putNode id key second (putNode id key first world) = putNode id key second world := by
  rw [putNode, putNode, putNode, mapDrive_mapDrive]
  simp only [KeyMap.put_put]

theorem clock_mapDrive (id : Nat) (f : Drive → Drive) (world : World) : (mapDrive id f world).clock = world.clock := by
  rw [mapDrive]
  split <;> rfl

theorem sameWays_mapDrive (id : Nat) (f : Drive → Drive) (world : World) : SameWays world (mapDrive id f world) := by
  rw [mapDrive]
  split
  next drive hd => exact sameWays_withDrive hd _
  next => exact ⟨fun _ _ => rfl, fun h => h, fun h => h⟩

/-! ### What is seen -/

theorem nodeAt?_of_drive (hd : world.drive? id = some drive) (key : Key) : world.nodeAt? id key = drive.tree.get? key := by
  rw [nodeAt?, hd, Option.bind_some]

theorem file?_of_drive (hd : world.drive? id = some drive) (index : Nat) :
    world.file? id index = drive.files[index]? := by
  rw [file?, hd, Option.bind_some]

theorem nodeAt?_putNode (h : (world.drive? id).isSome = true) (other : Nat) (key' : Key) :
    (putNode id key node world).nodeAt? other key' =
      if other = id ∧ key' = key then some node else world.nodeAt? other key' := by
  obtain ⟨drive, hd⟩ := Option.isSome_iff_exists.mp h
  rw [nodeAt?, putNode, drive?_mapDrive]
  by_cases hsame : other = id
  · subst hsame
    rw [if_pos rfl, nodeAt?_of_drive hd, hd]
    simp [KeyMap.get?_put]
  · rw [if_neg hsame, if_neg fun hboth => hsame hboth.1]
    rfl

theorem file?_putNode (other index : Nat) : (putNode id key node world).file? other index = world.file? other index := by
  rw [file?, putNode, drive?_mapDrive]
  split_ifs with hsame
  · subst hsame
    rw [file?]
    cases world.drive? other <;> rfl
  · rfl

theorem file?_putFile {old : DriveFile} (h : world.file? id index = some old) (other place : Nat) :
    (putFile id index file world).file? other place =
      if other = id ∧ place = index then some file else world.file? other place := by
  obtain ⟨drive, hd, hf⟩ := Option.bind_eq_some_iff.mp h
  rw [file?, putFile, drive?_mapDrive]
  by_cases hsame : other = id
  · subst hsame
    rw [if_pos rfl, hd, Option.map_some, Option.bind_some, file?_of_drive hd, List.getElem?_set]
    by_cases hplace : place = index
    · subst hplace
      simp [(List.getElem?_eq_some_iff.mp hf).1]
    · rw [if_neg (Ne.symm hplace), if_neg fun hboth => hplace hboth.2]
  · rw [if_neg hsame, if_neg fun hboth => hsame hboth.1]
    rfl

theorem file?_addFile_self (hd : world.drive? id = some drive) :
    (addFile id file world).file? id drive.files.length = some file := by
  rw [file?, addFile, drive?_mapDrive, if_pos rfl, hd]
  simp

/-- A new handle leaves the others where they are. -/
theorem file?_addFile_of_some {other place : Nat} {old : DriveFile} (h : world.file? other place = some old) :
    (addFile id file world).file? other place = some old := by
  obtain ⟨drive, hd, hf⟩ := Option.bind_eq_some_iff.mp h
  rw [file?, addFile, drive?_mapDrive]
  split_ifs with hsame
  · subst hsame
    rw [hd, Option.map_some, Option.bind_some, List.getElem?_append_left (List.getElem?_eq_some_iff.mp hf).1, hf]
  · rw [hd, Option.bind_some, hf]

/-! ### Requests to a handle -/

/-- A request to a handle changes its drive. -/
theorem outcome_onHandle_of_file (hf : world.file? id index = some file) {request : StreamRequest}
    {answer : Except Failure request.Reply} {f : Drive → Drive}
    (h : ∀ {drive : Drive}, world.drive? id = some drive → drive.files[index]? = some file →
      (Drive.onFile (millis world.clock) index request).outcome drive = (answer, f drive)) :
    (onHandle (.memory id index) request).outcome world = (answer, mapDrive id f world) := by
  obtain ⟨drive, hd, hfile⟩ := Option.bind_eq_some_iff.mp hf
  rw [outcome_onHandle_memory hd, h hd hfile, mapDrive_of_drive hd]

theorem outcome_read_file (hf : world.file? id index = some file) (hopen : file.closed = false) {count : Option Int}
    {n : Option Count} (hcount : Count.ofOption count = .ok n) :
    (onHandle (.memory id index) (.read count)).outcome world =
      (.ok (file.cursor.read n).1, putFile id index { file with cursor := (file.cursor.read n).2 } world) :=
  outcome_onHandle_of_file hf fun _ hfile => Drive.outcome_takeCounted hfile hopen hcount Cursor.read

/-- A number that is no count is refused, and changes nothing. -/
theorem outcome_read_file_of_misfit (hf : world.file? id index = some file) {count : Option Int}
    (hmisfit : ¬ Fits (count.getD (-1))) :
    (onHandle (.memory id index) (.read count)).outcome world = (.error Count.misfit, world) := by
  obtain ⟨drive, hd, -⟩ := Option.bind_eq_some_iff.mp hf
  rw [outcome_onHandle_memory hd, Drive.onFile, Drive.takeCounted, Count.ofOption_of_not_fits hmisfit]
  exact Prod.ext rfl (withDrive_self hd)

/-- A handle that neither appends nor is synchronous writes at its position, and stores nothing yet. -/
theorem outcome_write_file (hf : world.file? id index = some file) (hopen : file.closed = false)
    (hwrite : file.canWrite = true) (happend : file.appends = false) (hsync : file.isSync = false) (data : Bytes) :
    (onHandle (.memory id index) (.write data)).outcome world =
      (.ok data.length, putFile id index { file with cursor := file.cursor.write data, dirty := true } world) := by
  refine outcome_onHandle_of_file hf fun _ hfile => ?_
  have hdone := Drive.outcome_write (millis world.clock) hfile hopen hwrite hsync data
  rwa [if_neg (by simp [happend])] at hdone

theorem outcome_close_file_clean (hf : world.file? id index = some file) (hopen : file.closed = false)
    (hclean : file.dirty = false) :
    (onHandle (.memory id index) .close).outcome world = (.ok (), putFile id index { file with closed := true } world) :=
  outcome_onHandle_of_file hf fun _ hfile => Drive.outcome_close_clean _ hfile hopen hclean

/-- Closing a handle with changes puts its buffer into its file, when that is there. -/
theorem outcome_close_file_dirty (hf : world.file? id index = some file) (hopen : file.closed = false)
    (hdirty : file.dirty = true) (hg : world.nodeAt? id file.key = some node) (hfile : node.isDirectory = false) :
    (onHandle (.memory id index) .close).outcome world =
      (.ok (), putFile id index { file with dirty := false, closed := true }
        (putNode id file.key (node.written file.cursor.bytes (millis world.clock)) world)) := by
  rw [putFile, putNode, mapDrive_mapDrive]
  refine outcome_onHandle_of_file hf fun {drive} hd hindex => ?_
  rw [nodeAt?_of_drive hd] at hg
  exact Drive.outcome_close_dirty _ hindex hopen hdirty hg hfile

/-! ### Worlds that differ in handles only -/

theorem provider?_withoutHandles (world : World) (id : Nat) :
    world.withoutHandles.provider? id =
      (world.provider? id).map fun provider => { provider with backing := provider.backing.withoutHandles } :=
  List.getElem?_map

theorem drive?_withoutHandles (world : World) (id : Nat) :
    world.withoutHandles.drive? id = (world.drive? id).map Drive.withoutHandles := by
  rw [drive?, drive?, provider?_withoutHandles]
  cases world.provider? id with
  | none => rfl
  | some provider =>
    obtain ⟨scheme, claim, label, backing⟩ := provider
    cases backing <;> rfl

theorem withoutHandles_withDrive (id : Nat) (drive : Drive) (world : World) :
    (withDrive id drive world).withoutHandles = withDrive id drive.withoutHandles world.withoutHandles := by
  have hproviders : (withDrive id drive world).withoutHandles.providers =
      (withDrive id drive.withoutHandles world.withoutHandles).providers := by
    refine List.ext_getElem? fun other => ?_
    simp only [withoutHandles, withDrive, setBacking, List.getElem?_map, List.getElem?_modify]
    by_cases hsame : id = other <;> simp [hsame, Backing.withoutHandles, Function.comp_def]
  rw [World.mk.injEq]
  exact ⟨hproviders, rfl, rfl, rfl, rfl, rfl, rfl⟩

theorem withoutHandles_mapDrive (id : Nat) (f : Drive → Drive) (world : World) :
    (mapDrive id f world).withoutHandles =
      match world.drive? id with
      | some drive => withDrive id (f drive).withoutHandles world.withoutHandles
      | none => world.withoutHandles := by
  rw [mapDrive]
  cases world.drive? id with
  | none => rfl
  | some drive => exact withoutHandles_withDrive id _ world

namespace SameButHandles

theorem refl (world : World) : SameButHandles world world := rfl

theorem symm (h : SameButHandles world world') : SameButHandles world' world := Eq.symm h

theorem trans (h : SameButHandles world world') (h' : SameButHandles world' world'') : SameButHandles world world'' :=
  Eq.trans h' h

theorem clock (h : SameButHandles world world') : world'.clock = world.clock := by
  have hclock := congrArg World.clock (show world'.withoutHandles = world.withoutHandles from h)
  exact hclock

theorem nodeAt? (h : SameButHandles world world') (id : Nat) (key : Key) : world'.nodeAt? id key = world.nodeAt? id key := by
  have hdrive := congrArg (fun world => World.nodeAt? world id key)
    (show world'.withoutHandles = world.withoutHandles from h)
  simp only [World.nodeAt?, drive?_withoutHandles, Option.bind_map] at hdrive
  exact hdrive

/-- A change is made to both, which does not look at the handles. -/
theorem mapDrive (h : SameButHandles world world') (id : Nat) {f g : Drive → Drive}
    (hfg : ∀ {drive drive' : Drive}, drive'.withoutHandles = drive.withoutHandles →
      (g drive').withoutHandles = (f drive).withoutHandles) :
    SameButHandles (mapDrive id f world) (World.mapDrive id g world') := by
  have hdrive := congrArg (fun world => World.drive? world id)
    (show world'.withoutHandles = world.withoutHandles from h)
  simp only [drive?_withoutHandles] at hdrive
  rw [SameButHandles, withoutHandles_mapDrive, withoutHandles_mapDrive, h]
  cases hd : world.drive? id with
  | none =>
    rw [hd, Option.map_none, Option.map_eq_none_iff] at hdrive
    rw [hdrive]
  | some drive =>
    rw [hd, Option.map_some, Option.map_eq_some_iff] at hdrive
    obtain ⟨drive', hd', hsame⟩ := hdrive
    simp only [hd', hfg hsame]

theorem putNode (h : SameButHandles world world') (id : Nat) (key : Key) (node : Node) :
    SameButHandles (putNode id key node world) (World.putNode id key node world') :=
  h.mapDrive id fun {drive drive'} hsame => by
    rw [Drive.withoutHandles, Drive.withoutHandles, Drive.mk.injEq] at hsame ⊢
    exact ⟨hsame.1, by rw [hsame.2.1], rfl⟩

end SameButHandles

theorem mapDrive_self (id : Nat) (world : World) : mapDrive id (fun drive => drive) world = world := by
  rw [mapDrive]
  split
  next drive hd => exact withDrive_self hd
  next => rfl

theorem sameButHandles_putFile (id index : Nat) (file : DriveFile) (world : World) :
    SameButHandles world (putFile id index file world) := by
  have h := (SameButHandles.refl world).mapDrive id (f := fun drive => drive)
    (g := fun drive => { drive with files := drive.files.set index file }) fun hsame => hsame
  rwa [mapDrive_self] at h

theorem sameButHandles_addFile (id : Nat) (file : DriveFile) (world : World) :
    SameButHandles world (addFile id file world) := by
  have h := (SameButHandles.refl world).mapDrive id (f := fun drive => drive)
    (g := fun drive => { drive with files := drive.files ++ [file] }) fun hsame => hsame
  rwa [mapDrive_self] at h

end World

end FileRouter
