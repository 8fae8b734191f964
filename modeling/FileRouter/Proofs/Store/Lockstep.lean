import FileRouter.Proofs.Store.DiskDepiction
import FileRouter.Proofs.Store.MemoryDepiction
import FileRouter.Proofs.Store.Tasks
import FileRouter.Proofs.World.PlainView
/-!
Drives and disks in lockstep.

A drive and a directory on the disk that hold the same tree do the same when they are given the same tasks: whatever
is deleted, made and copied, each task succeeds on both sides with the same result or fails on both, and leaves the same
tree (`lockstep_history`). Three things set them apart, which have to be excluded: hard links within the directory, paths
that come to the directory through what is in it, and chunks of a size that the disk makes no room for
(`not_forall_lockstep_history`). That a world's bounds are wide enough is seen from what is in it.
-/

namespace FileRouter.World

variable {world world' : World} {registry registry' id : Nat} {scheme : Text} {base : Key} {items : Contents}

/-! ### Bounds -/

theorem roomy_driveDepiction (registry id : Nat) (scheme : Text) : (driveDepiction registry id scheme).Roomy where
  levels := by
    rintro items world key ⟨drive, h⟩ rest item hitem
    rw [h.shows.contents, Option.map_eq_some_iff] at hitem
    obtain ⟨node, hnode, -⟩ := hitem
    -- A tree is no deeper than it has entries, and `levels` counts the entries of all drives.
    have hdepth := h.shows.wellFormed.rooted.length_lt hnode
    have hlevels := length_lt_levels h.found
    rw [List.length_append] at hdepth
    omega
  climb := by
    intro items world key _ _
    -- a climb has a step for every slash of the path, and the scheme takes none of them away
    have hcount : key.toText.count '/' ≤ (Scheme.join scheme key.toText).count '/' :=
      ((List.sublist_cons_self _ _).trans (List.sublist_append_right _ _)).count_le _
    have hlength := Key.length_le_count key
    have hclimb := count_add_le_climb world (Scheme.join scheme key.toText)
    show key.length < world.climb (Scheme.join scheme key.toText)
    omega
  volume := by
    rintro items world key bytes ⟨drive, h⟩ hfile
    obtain ⟨node, hnode, -, rfl⟩ := h.shows.eq_file_iff.mp hfile
    exact length_lt_volume h.found hnode

theorem length_bytesOf_le_volume (fs : Disk.FileSystem) (body : Nat) : (fs.bytesOf body).length ≤ fs.volume := by
  rw [Disk.FileSystem.bytesOf]
  split
  next found hbody => exact le_total_of_mem (fun body => body.bytes.length) (List.mem_of_getElem? hbody)
  next => exact Nat.zero_le _

theorem roomy_diskDepiction (registry : Nat) (base : Key) : (diskDepiction registry base).Roomy where
  levels := by
    rintro items world key ⟨-, h⟩ rest item hitem
    obtain ⟨entry, hentry⟩ := h.eq_some_iff.mp ⟨item, hitem⟩
    -- as on a drive, but the names of the base come on top of those of the key
    have hdepth := h.wellFormed.rooted.length_lt hentry
    rw [List.length_append, List.length_append] at hdepth
    rw [World.levels]
    omega
  climb := by
    intro items world key _ _
    have hlength := Key.length_le_count (base ++ key)
    have hclimb := count_add_le_climb world (Key.toText (base ++ key))
    rw [List.length_append] at hlength
    show key.length < world.climb (Key.toText (base ++ key))
    omega
  volume := by
    rintro items world key bytes ⟨-, h⟩ hfile
    obtain ⟨body, -, rfl⟩ := h.eq_file_iff.mp hfile
    have hvolume := length_bytesOf_le_volume world.disk.fs body
    rw [World.volume]
    omega

/-! ### Lockstep -/

/-- A drive and a directory on the disk keep in step through some tasks: each of the tasks succeeds on both sides with
the same result or fails on both, and after each of them the two hold the same tree, with the same names, kinds and
contents. -/
def InStep (registry registry' id : Nat) (scheme : Text) (base : Key) (spell : Key → Text) (tasks : List Task)
    (world world' : World) : Prop :=
  List.Forall₂
    (fun out out' => out.1.toOption = out'.1.toOption ∧
      ∃ items, ServesContents registry id scheme items out.2 ∧ HostsTree registry' base items out'.2)
    (Command.history registry world (tasks.map (Task.command fun key => Scheme.join scheme key.toText)))
    (Command.history registry' world' (tasks.map (Task.command spell)))

theorem InStep.answers {spell : Key → Text} {tasks : List Task}
    (h : InStep registry registry' id scheme base spell tasks world world') :
    (Command.history registry world (tasks.map (Task.command fun key => Scheme.join scheme key.toText))).map
        (fun out => out.1.toOption) =
      (Command.history registry' world' (tasks.map (Task.command spell))).map fun out => out.1.toOption := by
  rw [← List.forall₂_eq_eq_eq, List.forall₂_map_left_iff, List.forall₂_map_right_iff]
  exact h.imp fun _ _ hboth => hboth.1

/-- **A drive and a directory on the disk stay in lockstep** where they hold the same tree, provided that no file has two
names in the directory, that the directory goes by its absolute path without any links, and that the chunks of each copy
are of a size that room can be made for, or that both sides refuse. -/
theorem lockstep_history {tasks : List Task} (hdrive : world.ServesContents registry id scheme items)
    (hdisk : world'.HostsTree registry' base items) (hsingle : world'.disk.fs.Single base)
    (hkeys : ∀ task ∈ tasks, ∀ key ∈ task.keys, key ≠ [] ∧ Disk.FileSystem.Nameable (base ++ key))
    (hpositive : ∀ task ∈ tasks, task.Positive) (hsizes : ∀ task ∈ tasks, task.Sizeable) :
    InStep registry registry' id scheme base (fun key => Key.toText (base ++ key)) tasks world world' := by
  have halike := Depiction.alike_history (roomy_driveDepiction registry id scheme) (roomy_diskDepiction registry' base)
    (fun task htask key hkey => ?_) hpositive hsizes hdrive (hdisk.hostsContents hsingle)
  · exact halike.imp fun _ _ ⟨hanswer, items, hserves, hhosts⟩ => ⟨hanswer, items, hserves, hhosts.hostsTree⟩
  · obtain ⟨hroot, hnameable⟩ := hkeys task htask key hkey
    exact ⟨hroot, (Key.proper_append.mp hnameable.proper).2, hnameable⟩

/-- A world with a drive that has a given tree and a disk that has given entries. -/
def sideBySide (tree : Tree) (fs : Disk.FileSystem) : World :=
  withDrive 1 ⟨"mem".toList, tree, []⟩ (withDisk { Disk.fresh [] with fs } viewedWorld)

theorem layered_sideBySide (tree : Tree) (fs : Disk.FileSystem) : Layered (sideBySide tree fs) 0 viewedRegistry :=
  layered_viewedWorld.of_outline rfl

theorem servesContents_sideBySide {tree : Tree} (fs : Disk.FileSystem) (h : tree.Shows items) :
    (sideBySide tree fs).ServesContents 0 1 "mem".toList items :=
  have hlayered := layered_sideBySide tree fs
  ⟨_, ⟨viewedRegistry, ⟨1, "mem".toList, .ownScheme⟩, rfl, hlayered.keyed, hlayered.byScheme, by decide, rfl, rfl⟩,
    rfl, rfl, h⟩

theorem hostsTree_sideBySide (tree : Tree) {fs : Disk.FileSystem} (h : fs.HasTree base items) :
    (sideBySide tree fs).HostsTree 0 base items :=
  have hlayered := layered_sideBySide tree fs
  ⟨⟨0, hlayered.fallback, fun _ => hlayered.owner_of_slash (Disk.head?_toText _)⟩, h⟩

/-- A file and a directory. -/
def twinContents : Contents := (Contents.bare.put [['a']] (.file [1, 2])).put [['d']] .directory

/-- The tree of a drive that holds them. -/
def twinTree : Tree :=
  (((Tree.fresh 0).put [['a']] (.newFile 0)).put [['a']] ((Node.newFile 0).written [1, 2] 0)).put [['d']]
    (.newDirectory 0)

/-- A disk that holds them in the directory for temporary files. -/
def twinFiles : Disk.FileSystem :=
  (((Disk.FileSystem.fresh []).addFile ["tmp".toList, ['a']] Disk.FileSystem.fileMode).2.changeBody 0 fun body =>
    { body with bytes := [1, 2] }).put ["tmp".toList, ['d']] (.directory Disk.FileSystem.directoryMode 0)

theorem shows_twinTree : twinTree.Shows twinContents := by
  have hfile := (Tree.Shows.fresh 0).put_new (.newFile 0) (by decide : Key.Proper [['a']]) rfl rfl rfl rfl
  have hnode : KeyMap.get? ((Tree.fresh 0).put [['a']] (.newFile 0)) [['a']] = some (.newFile 0) := rfl
  have hshows := hfile.put_written hnode rfl [1, 2] 0
  rw [Node.item, Contents.put_put] at hshows
  exact hshows.put_new (.newDirectory 0) (by decide : Key.Proper [['d']]) rfl rfl rfl rfl

theorem shows_twinFiles : twinFiles.Shows ["tmp".toList] twinContents := by
  have hfresh : (Disk.FileSystem.fresh []).Shows ["tmp".toList] Contents.bare :=
    Disk.FileSystem.Shows.fresh (by decide : Disk.FileSystem.Nameable ([] ++ ["tmp".toList]))
  have hfile := hfresh.addFile (by decide : Disk.FileSystem.Nameable (["tmp".toList] ++ [['a']])) rfl rfl
    Disk.FileSystem.fileMode
  have hentry : Disk.FileSystem.entry?
      ((Disk.FileSystem.fresh []).addFile (["tmp".toList] ++ [['a']]) Disk.FileSystem.fileMode).2
      (["tmp".toList] ++ [['a']]) = some (.file 0) := rfl
  have hshows := hfile.write hentry [1, 2]
  rw [Contents.put_put] at hshows
  exact hshows.put_directory (by decide : Disk.FileSystem.Nameable (["tmp".toList] ++ [['d']])) rfl rfl _ _

/-- Tasks of every kind, of which some fail. -/
theorem lockstep_history_twin :
    let world := sideBySide twinTree twinFiles
    let tasks : List Task :=
      [.copy [['a']] [['b']] 1, .createDirectories [['a'], ['c']], .createDirectories [['d'], ['e']],
        .tryDelete [['d']], .deleteRecursive [['d']] true, .deleteRecursive [['a']] false, .copy [['a']] [['b']] 1]
    world.ServesContents 0 1 "mem".toList twinContents ∧ world.HostsTree 0 ["tmp".toList] twinContents ∧
      world.disk.fs.Single ["tmp".toList] ∧
      (∀ task ∈ tasks, ∀ key ∈ task.keys, key ≠ [] ∧ Disk.FileSystem.Nameable (["tmp".toList] ++ key)) ∧
      (∀ task ∈ tasks, task.Positive) ∧ (∀ task ∈ tasks, task.Sizeable) ∧
      InStep 0 0 1 "mem".toList ["tmp".toList] (fun key => Key.toText (["tmp".toList] ++ key)) tasks world world := by
  intro world tasks
  have hserves : world.ServesContents 0 1 "mem".toList twinContents := servesContents_sideBySide twinFiles shows_twinTree
  have hhosts : world.HostsTree 0 ["tmp".toList] twinContents := hostsTree_sideBySide twinTree shows_twinFiles.toHasTree
  have hsingle : world.disk.fs.Single ["tmp".toList] := shows_twinFiles.single
  have hkeys : ∀ task ∈ tasks, ∀ key ∈ task.keys, key ≠ [] ∧ Disk.FileSystem.Nameable (["tmp".toList] ++ key) := by
    decide
  have hpositive : ∀ task ∈ tasks, task.Positive := by
    decide
  have hsizes : ∀ task ∈ tasks, task.Sizeable := by
    decide
  exact ⟨hserves, hhosts, hsingle, hkeys, hpositive, hsizes,
    lockstep_history hserves hhosts hsingle hkeys hpositive hsizes⟩

/-- The file with a second name, on the drive a copy of it. -/
def sharedTree : Tree := (twinTree.put [['b']] (.newFile 0)).put [['b']] ((Node.newFile 0).written [1, 2] 0)

/-- The file with a second name on the disk, a hard link. -/
def sharedFiles : Disk.FileSystem := twinFiles.put ["tmp".toList, ['b']] (.file 0)

theorem shows_sharedTree : sharedTree.Shows (twinContents.put [['b']] (.file [1, 2])) := by
  have hfile := shows_twinTree.put_new (.newFile 0) (by decide : Key.Proper [['b']]) rfl rfl rfl rfl
  have hnode : KeyMap.get? (twinTree.put [['b']] (.newFile 0)) [['b']] = some (.newFile 0) := rfl
  have hshows := hfile.put_written hnode rfl [1, 2] 0
  rwa [Node.item, Contents.put_put] at hshows

theorem hasTree_sharedFiles : sharedFiles.HasTree ["tmp".toList] (twinContents.put [['b']] (.file [1, 2])) := by
  have htree := shows_twinFiles.toHasTree
  have hlegal : Disk.FileSystem.Nameable (["tmp".toList] ++ [['b']]) := by decide
  have hbody : ∀ {body : Nat}, Disk.Entry.file 0 = .file body → body < twinFiles.bodies.length := fun he =>
    Disk.Entry.file.inj he ▸ Nat.one_pos
  exact htree.put_new hlegal (htree.wellFormed.put_new (htree.isFree hlegal rfl rfl) hbody)
    (Disk.FileSystem.entryAt_put _ · (.file 0)) rfl (fun _ => rfl) rfl

/-- Each of these provisions is needed. A file that has two names is emptied when it is copied from one to the other; a
size that no room can be made for is refused by the disk alone; and a path that comes to the directory by way of an entry
in it leads nowhere once this entry is deleted. -/
theorem not_forall_lockstep_history :
    (¬ ∀ {world world' : World} {registry registry' id : Nat} {scheme : Text} {base : Key} {items : Contents}
        (tasks : List Task), world.ServesContents registry id scheme items → world'.HostsTree registry' base items →
      (∀ task ∈ tasks, ∀ key ∈ task.keys, key ≠ [] ∧ Disk.FileSystem.Nameable (base ++ key)) →
      (∀ task ∈ tasks, task.Positive) → (∀ task ∈ tasks, task.Sizeable) →
      InStep registry registry' id scheme base (fun key => Key.toText (base ++ key)) tasks world world') ∧
    (¬ ∀ {world world' : World} {registry registry' id : Nat} {scheme : Text} {base : Key} {items : Contents}
        (tasks : List Task), world.ServesContents registry id scheme items → world'.HostsTree registry' base items →
      world'.disk.fs.Single base →
      (∀ task ∈ tasks, ∀ key ∈ task.keys, key ≠ [] ∧ Disk.FileSystem.Nameable (base ++ key)) →
      (∀ task ∈ tasks, task.Positive) →
      InStep registry registry' id scheme base (fun key => Key.toText (base ++ key)) tasks world world') ∧
    ¬ ∀ {world world' : World} {registry registry' id : Nat} {scheme : Text} {base : Key} {items : Contents}
        {directory : Text} (tasks : List Task), world.ServesContents registry id scheme items →
      world'.HostsTree registry' base items → world'.disk.fs.Single base →
      world'.disk.fs.find directory = .ok base →
      (∀ task ∈ tasks, ∀ key ∈ task.keys, key ≠ [] ∧ Disk.FileSystem.Nameable (base ++ key)) →
      (∀ task ∈ tasks, task.Positive) → (∀ task ∈ tasks, task.Sizeable) →
      InStep registry registry' id scheme base (fun key => directory ++ key.toText) tasks world world' := by
  have hserves := servesContents_sideBySide twinFiles shows_twinTree
  have hhosts := hostsTree_sideBySide twinTree shows_twinFiles.toHasTree
  have hsingle : twinFiles.Single ["tmp".toList] := shows_twinFiles.single
  refine ⟨fun hall => ?_, fun hall => ?_, fun hall => ?_⟩
  · -- a second name of the target: on the disk its contents change too
    have hstep := hall [.copy [['a']] [['b']] 1] (servesContents_sideBySide sharedFiles shows_sharedTree)
      (hostsTree_sideBySide sharedTree hasTree_sharedFiles) (by decide) (by decide) (by decide)
    exact absurd hstep.answers (by decide +kernel)
  · -- a chunk that fits, but leaves no room beside it: only the disk refuses to read it
    have hstep := hall [.copy [['a']] [['b']] 0x7fffffffffffffff] hserves hhosts hsingle (by decide) (by decide)
    exact absurd hstep.answers (by decide +kernel)
  · -- once `d` is deleted, the way through it leads nowhere
    have hfind : twinFiles.find "/tmp/d/..".toList = .ok ["tmp".toList] := by decide +kernel
    have hstep := hall [.tryDelete [['d']], .copy [['a']] [['b']] 1] hserves hhosts hsingle hfind (by decide)
      (by decide) (by decide)
    exact absurd hstep.answers (by decide +kernel)

end FileRouter.World
