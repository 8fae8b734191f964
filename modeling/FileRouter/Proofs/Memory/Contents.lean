import FileRouter.Proofs.Contents
import FileRouter.Proofs.Memory.Handle
/-!
The contents of a drive.

A tree shows contents when it is well formed, has nothing in it that is protected against writing, and holds at every
key what the contents say. What each operation of a drive does to a tree that shows contents is said by the contents
alone: an entry is made where nothing is in a directory, and removed when nothing is in it; nothing else is in the way.
-/

namespace FileRouter

/-- What a node shows of an entry. -/
def Node.item (node : Node) : Item := if node.isDirectory then .directory else .file node.bytes

namespace Tree

open KeyMap

/-- A well-formed tree without protected entries that holds given contents. -/
structure Shows (items : Contents) (tree : Tree) : Prop where
  wellFormed : tree.WellFormed
  unlocked : ∀ {key : Key} {node : Node}, tree.get? key = some node → node.readOnly = false
  contents : ∀ key, items key = (tree.get? key).map Node.item

namespace Shows

variable {items : Contents} {tree : Tree} {key : Key} {node : Node}

theorem eq_none_iff (h : tree.Shows items) : items key = none ↔ tree.get? key = none := by
  rw [h.contents, Option.map_eq_none_iff]

theorem eq_directory_iff (h : tree.Shows items) : items key = some .directory ↔ tree.HasDirectory key := by
  rw [h.contents, Option.map_eq_some_iff]
  refine exists_congr fun node => and_congr_right fun _ => ?_
  rw [Node.item]
  cases node.isDirectory <;> simp

theorem eq_file_iff (h : tree.Shows items) {bytes : Bytes} :
    items key = some (.file bytes) ↔ ∃ node, tree.get? key = some node ∧ node.isDirectory = false ∧ node.bytes = bytes := by
  rw [h.contents, Option.map_eq_some_iff]
  refine exists_congr fun node => and_congr_right fun _ => ?_
  rw [Node.item]
  cases node.isDirectory <;> simp

/-- The contents of a well-formed tree are well formed. -/
theorem contents_wellFormed (h : tree.Shows items) : items.WellFormed := by
  refine ⟨h.eq_directory_iff.mpr h.wellFormed.root, fun {key item} hitem hne => ?_⟩
  rw [h.contents, Option.map_eq_some_iff] at hitem
  obtain ⟨node, hnode, -⟩ := hitem
  exact h.eq_directory_iff.mpr (h.wellFormed.parents hnode hne)

/-- A new tree is empty. -/
theorem fresh (now : Int) : Shows Contents.bare (Tree.fresh now) := by
  refine ⟨Tree.WellFormed.fresh now, fun {key node} hnode => ?_, fun key => ?_⟩
  · have hm := mem_of_get? hnode
    simp only [Tree.fresh, List.mem_singleton, Prod.mk.injEq] at hm
    obtain ⟨-, rfl⟩ := hm
    rfl
  · rw [Tree.fresh, get?_cons, Contents.bare]
    by_cases hkey : key = []
    · subst hkey
      rfl
    · rw [if_neg hkey, if_neg (Ne.symm hkey)]
      rfl

/-- A new entry is shown where nothing was. -/
theorem put_new (h : tree.Shows items) (node : Node) (hproper : key.Proper) (hnone : items key = none)
    (hparent : items key.parent = some .directory) (hblank : node.bytes = []) (hopen : node.readOnly = false) :
    Shows (items.put key node.item) (tree.put key node) := by
  refine ⟨h.wellFormed.put_new hproper (h.eq_none_iff.mp hnone) (h.eq_directory_iff.mp hparent) hblank,
    fun {other node'} hnode => ?_, fun other => ?_⟩
  · rw [get?_put] at hnode
    split_ifs at hnode
    · exact Option.some.inj hnode ▸ hopen
    · exact h.unlocked hnode
  · rw [get?_put, Contents.put]
    split_ifs
    · rfl
    · exact h.contents other

/-- A file that is written shows its new bytes. -/
theorem put_written (h : tree.Shows items) (hnode : tree.get? key = some node) (hfile : node.isDirectory = false)
    (bytes : Bytes) (now : Int) : Shows (items.put key (.file bytes)) (tree.put key (node.written bytes now)) := by
  have hitem : (node.written bytes now).item = .file bytes := by
    rw [Node.item, Node.written]
    simp only [hfile, Bool.false_eq_true, if_false]
  -- what is written stays a file, and not protected
  refine ⟨h.wellFormed.put_same hnode rfl fun hdir => ?_, fun {other node'} hnode' => ?_, fun other => ?_⟩
  · rw [Node.written, hfile] at hdir
    simp at hdir
  · rw [get?_put] at hnode'
    split_ifs at hnode'
    · have hopen : node.readOnly = false := h.unlocked hnode
      exact Option.some.inj hnode' ▸ hopen
    · exact h.unlocked hnode'
  · rw [get?_put, Contents.put]
    split_ifs
    · rw [Option.map_some, hitem]
    · exact h.contents other

/-- An entry that can be removed is bare. -/
theorem isEmptyAt_of_removable (h : tree.Shows items) (hremovable : items.Removable key)
    (hdir : tree.HasDirectory key) : tree.isEmptyAt key = true := by
  obtain ⟨item, hitem, hempty⟩ := hremovable
  rw [h.eq_directory_iff.mpr hdir, Option.some.injEq] at hitem
  exact isEmptyAt_iff.mpr fun name => h.eq_none_iff.mp (hempty hitem.symm name)

theorem erase (h : tree.Shows items) (hne : key ≠ []) (hremovable : items.Removable key) :
    Shows (items.erase key) (tree.erase key) := by
  have hbare : BareAt tree key := by
    refine h.wellFormed.rooted.bareAt fun hnode hdir => ?_
    exact h.isEmptyAt_of_removable hremovable ⟨_, hnode, hdir⟩
  refine ⟨h.wellFormed.erase hne hbare, fun {other node} hnode => ?_, fun other => ?_⟩
  · rw [get?_erase] at hnode
    split_ifs at hnode
    exact h.unlocked hnode
  · rw [get?_erase, Contents.erase]
    split_ifs
    · rfl
    · exact h.contents other

end Shows

end Tree

namespace Drive

variable {items : Contents} {drive : Drive} {path : Text}

/-- Nothing can be made where there is no directory for it. -/
theorem parentFault?_isSome (h : drive.tree.Shows items) (path : Text) {key : Key}
    (hparent : items key.parent ≠ some .directory) :
    ∃ failure, drive.parentFault? key path = some failure := by
  refine Option.ne_none_iff_exists'.mp fun hnone => hparent ?_
  exact h.eq_directory_iff.mpr (parentFault?_eq_none_iff.mp hnone)

theorem outcome_createDirectory_of_shows (h : drive.tree.Shows items) (now : Int)
    (hnone : items (drive.keyOf path) = none) (hparent : items (drive.keyOf path).parent = some .directory) :
    (createDirectory now path).outcome drive =
      (.ok (), { drive with tree := drive.tree.put (drive.keyOf path) (.newDirectory now) }) := by
  rw [outcome_createDirectory, h.eq_none_iff.mp hnone]
  simp only
  rw [outcome_create, parentFault?_eq_none_iff.mpr (h.eq_directory_iff.mp hparent)]

theorem outcome_createDirectory_refused (h : drive.tree.Shows items) (now : Int)
    (hnone : items (drive.keyOf path) = none) (hparent : items (drive.keyOf path).parent ≠ some .directory) :
    ∃ failure, (createDirectory now path).outcome drive = (.error failure, drive) := by
  obtain ⟨failure, hfault⟩ := parentFault?_isSome h path hparent
  refine ⟨failure, ?_⟩
  rw [outcome_createDirectory, h.eq_none_iff.mp hnone]
  simp only
  rw [outcome_create, hfault]

theorem outcome_delete_of_shows (h : drive.tree.Shows items) (hne : drive.keyOf path ≠ [])
    (hremovable : items.Removable (drive.keyOf path)) :
    (delete path).outcome drive = (.ok (), { drive with tree := drive.tree.erase (drive.keyOf path) }) := by
  obtain ⟨node, hnode⟩ : ∃ node, drive.tree.get? (drive.keyOf path) = some node := by
    obtain ⟨item, hitem, -⟩ := hremovable
    rw [h.contents, Option.map_eq_some_iff] at hitem
    exact hitem.imp fun _ => And.left
  have hbare : (node.isDirectory && !drive.tree.isEmptyAt (drive.keyOf path)) = false := by
    cases hdir : node.isDirectory with
    | false => rfl
    | true => rw [h.isEmptyAt_of_removable hremovable ⟨node, hnode, hdir⟩]; rfl
  rw [outcome_delete, hnode]
  simp only [hne, if_false, h.unlocked hnode, Bool.false_eq_true, hbare]

theorem outcome_delete_refused (h : drive.tree.Shows items) (hremovable : ¬ items.Removable (drive.keyOf path)) :
    ∃ failure, (delete path).outcome drive = (.error failure, drive) := by
  rw [outcome_delete]
  cases hnode : drive.tree.get? (drive.keyOf path) with
  | none => exact ⟨_, rfl⟩
  | some node =>
    simp only
    split_ifs with hroot hlocked hfull
    · exact ⟨_, rfl⟩
    · exact ⟨_, rfl⟩
    · exact ⟨_, rfl⟩
    · -- otherwise it could be removed
      refine absurd ⟨node.item, ?_, fun hdir name => ?_⟩ hremovable
      · rw [h.contents, hnode]
        rfl
      · have hdirectory : node.isDirectory = true := by
          by_contra hfile
          simp [Node.item, hfile] at hdir
        have hempty : drive.tree.isEmptyAt (drive.keyOf path) = true := by simpa [hdirectory] using hfull
        exact h.eq_none_iff.mpr (KeyMap.isEmptyAt_iff.mp hempty name)

theorem outcome_openForReading_refused (h : drive.tree.Shows items)
    (hnofile : ∀ bytes, items (drive.keyOf path) ≠ some (.file bytes)) :
    ∃ failure, (openForReading path).outcome drive = (.error failure, drive) := by
  rw [outcome_openForReading]
  cases hnode : drive.tree.get? (drive.keyOf path) with
  | none => exact ⟨_, rfl⟩
  | some node =>
    simp only
    split_ifs with hdir
    · exact ⟨_, rfl⟩
    · exact absurd (h.eq_file_iff.mpr ⟨node, hnode, by simpa using hdir, rfl⟩) (hnofile node.bytes)

/-- A drive lets a file be written where the contents do. -/
theorem writable_iff (h : drive.tree.Shows items) {key : Key} : drive.Writable key ↔ items.Writable key := by
  rw [Drive.Writable]
  -- nothing needs a directory above it, and a node has to be a file, which is not protected here
  cases hnode : drive.tree.get? key with
  | none =>
    have hnone := h.eq_none_iff.mpr hnode
    refine ⟨fun hparent => Or.inr ⟨hnone, h.eq_directory_iff.mpr hparent⟩, ?_⟩
    rintro (⟨bytes, hfile⟩ | ⟨-, hparent⟩)
    · rw [hnone] at hfile
      cases hfile
    · exact h.eq_directory_iff.mp hparent
  | some node =>
    refine ⟨fun hfile => Or.inl ⟨node.bytes, h.eq_file_iff.mpr ⟨node, hnode, hfile.1, rfl⟩⟩, ?_⟩
    rintro (⟨bytes, hfile⟩ | ⟨hnone, -⟩)
    · obtain ⟨found, hfound, hdir, -⟩ := h.eq_file_iff.mp hfile
      obtain rfl := Option.some.inj (hnode.symm.trans hfound)
      exact ⟨hdir, h.unlocked hnode⟩
    · rw [h.eq_none_iff.mp hnone] at hnode
      cases hnode

/-- A file that can be written is opened empty for writing. -/
theorem outcome_openOutput_of_shows (h : drive.tree.Shows items) (now : Int)
    (hwritable : items.Writable (drive.keyOf path)) :
    ∃ tree, (openOutput now path false).outcome drive =
        (.ok drive.files.length,
          { drive with
            tree
            files := drive.files ++ [⟨drive.keyOf path, ⟨[], 0⟩, true, false, false, false, false⟩] }) ∧
      Tree.Shows (items.put (drive.keyOf path) (.file [])) tree := by
  refine ⟨_, outcome_openOutput_of_writable now ((writable_iff h).mpr hwritable), ?_⟩
  rcases hwritable with ⟨bytes, hfile⟩ | ⟨hnone, hparent⟩
  · obtain ⟨node, hnode, hdir, -⟩ := h.eq_file_iff.mp hfile
    have hwritten := h.put_written hnode hdir [] now
    rwa [Node.written, hdir, h.unlocked hnode] at hwritten
  · exact h.put_new (.newFile now) (drive.keyOf_proper path) hnone hparent rfl rfl

theorem outcome_openOutput_refused (h : drive.tree.Shows items) (now : Int)
    (hwritable : ¬ items.Writable (drive.keyOf path)) :
    ∃ failure, (openOutput now path false).outcome drive = (.error failure, drive) :=
  outcome_openOutput_of_not_writable now (mt (writable_iff h).mp hwritable)

end Drive

end FileRouter
