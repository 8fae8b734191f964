import FileRouter.Proofs.Call
import FileRouter.Proofs.Contents
import FileRouter.Proofs.Disk.Absolute
import FileRouter.Proofs.Disk.Stream
/-!
The contents of a directory on the disk.

A file system has given contents in a directory when these are what the directory and the directories below it hold, no
link is on the way to any of it, and every entry can be named. It shows them when besides no file has two names there,
which hard links would give it: what is written to one name would be seen at the other. What the operating system does
at the path of a key is then said by the contents alone: an entry is made where nothing is in a directory, a file or an
empty directory is removed, a file is written; nothing else in the directory changes.
-/

namespace FileRouter.Disk

open Call FileSystem

namespace FileSystem

/-- What an entry shows of itself; a link shows nothing. -/
def item? (fs : FileSystem) : Entry → Option Item
  | .directory _ _ => some .directory
  | .link _ => none
  | .file body => some (.file (fs.bytesOf body))

/-- A file system that has given contents in the directory with a key. -/
structure HasTree (base : Key) (items : Contents) (fs : FileSystem) : Prop where
  wellFormed : fs.WellFormed
  there : fs.isDirectory base = true
  unlinked : ∀ key, fs.Unlinked (base ++ key)
  nameable : ∀ {key : Key} {entry : Entry}, fs.entry? (base ++ key) = some entry → Nameable (base ++ key)
  contents : ∀ key, items key = (fs.entry? (base ++ key)).bind fs.item?

/-- No file of a directory has a second name there. -/
def Single (base : Key) (fs : FileSystem) : Prop :=
  ∀ {key other : Key} {body : Nat}, fs.entry? (base ++ key) = some (.file body) →
    fs.entry? (base ++ other) = some (.file body) → key = other

/-- A file system that shows contents in a directory: what is written to one name is seen at no other. -/
structure Shows (base : Key) (items : Contents) (fs : FileSystem) : Prop extends HasTree base items fs where
  single : fs.Single base

variable {fs : FileSystem} {base key : Key} {items : Contents} {bytes : Bytes} {body : Nat}

namespace HasTree

theorem eq_none_iff (h : fs.HasTree base items) : items key = none ↔ fs.entry? (base ++ key) = none := by
  rw [h.contents]
  cases hentry : fs.entry? (base ++ key) with
  | none => simp
  | some entry =>
    cases entry with
    | directory mode modified => simp [item?]
    | file body => simp [item?]
    | link target => exact absurd hentry (h.unlinked key _ target (List.prefix_refl _))

theorem eq_directory_iff (h : fs.HasTree base items) :
    items key = some .directory ↔ fs.isDirectory (base ++ key) = true := by
  rw [h.contents, isDirectory]
  cases fs.entry? (base ++ key) with
  | none => simp
  | some entry => cases entry <;> simp [item?]

theorem eq_file_iff (h : fs.HasTree base items) :
    items key = some (.file bytes) ↔ ∃ body, fs.entry? (base ++ key) = some (.file body) ∧ fs.bytesOf body = bytes := by
  rw [h.contents]
  cases fs.entry? (base ++ key) with
  | none => simp
  | some entry => cases entry <;> simp [item?]

theorem file (h : fs.HasTree base items) (hentry : fs.entry? (base ++ key) = some (.file body)) :
    items key = some (.file (fs.bytesOf body)) :=
  h.eq_file_iff.mpr ⟨body, hentry, rfl⟩

/-- Where something is, it is no link. -/
theorem eq_some_iff (h : fs.HasTree base items) :
    (∃ item, items key = some item) ↔ ∃ entry, fs.entry? (base ++ key) = some entry := by
  rw [← Option.ne_none_iff_exists', ← Option.ne_none_iff_exists', ne_eq, h.eq_none_iff]

theorem root (h : fs.HasTree base items) : items [] = some .directory :=
  h.eq_directory_iff.mpr (by rw [List.append_nil]; exact h.there)

theorem contents_wellFormed (h : fs.HasTree base items) : items.WellFormed := by
  refine ⟨h.root, fun {key item} hitem hne => ?_⟩
  obtain ⟨entry, hentry⟩ := h.eq_some_iff.mp ⟨item, hitem⟩
  have hparent := h.wellFormed.parents (by rw [hentry]; rfl : (fs.entry? (base ++ key)).isSome = true)
  rw [Key.parent_append hne] at hparent
  exact h.eq_directory_iff.mpr hparent

/-! ### Changes -/

theorem ne_nil (h : fs.HasTree base items) (hnone : items key = none) : key ≠ [] := by
  rintro rfl
  simp [h.root] at hnone

/-- The place of a key where nothing is, in a directory. -/
theorem isFree (h : fs.HasTree base items) (hlegal : Nameable (base ++ key)) (hnone : items key = none)
    (hparent : items key.parent = some .directory) : fs.IsFree (base ++ key) := by
  refine ⟨⟨?_, fun name hname => hlegal.proper name (List.mem_of_getLast? hname)⟩, h.eq_none_iff.mp hnone⟩
  rw [Key.parent_append (h.ne_nil hnone)]
  exact h.eq_directory_iff.mp hparent

/-- An entry that shows something has been put where nothing was. -/
theorem put_new (h : fs.HasTree base items) (hlegal : Nameable (base ++ key)) {fs' : FileSystem} {entry : Entry}
    {item : Item} (hw : fs'.WellFormed)
    (hentries : ∀ other, fs'.entry? other = if other = base ++ key then some entry else fs.entry? other)
    (hitem : fs'.item? entry = some item)
    (hbytes : ∀ {body : Nat}, body < fs.bodies.length → fs'.bytesOf body = fs.bytesOf body)
    (hnone : items key = none) : fs'.HasTree base (items.put key item) := by
  have hold : ∀ {other : Key}, other ≠ key → fs'.entry? (base ++ other) = fs.entry? (base ++ other) := fun hne => by
    rw [hentries, if_neg fun he => hne (List.append_cancel_left he)]
  -- a body that an old entry has is an old one, and they have kept their bytes
  have hsame : ∀ {other : Key} {old : Entry}, fs.entry? other = some old → fs'.item? old = fs.item? old := by
    intro other old hother
    cases old with
    | directory mode modified => rfl
    | link target => rfl
    | file body => rw [item?, item?, hbytes (h.wellFormed.bodies hother)]
  -- the directory itself, what is on the way, names, and contents: at the new key by hitem, elsewhere as before
  refine ⟨hw, ?_, fun other above target hle hlink => ?_, fun {other found} hfound => ?_, fun other => ?_⟩
  · have hthere := hold (h.ne_nil hnone).symm
    rw [List.append_nil] at hthere
    have hdir := h.there
    rw [isDirectory] at hdir ⊢
    rwa [hthere]
  · rw [hentries] at hlink
    split_ifs at hlink
    · -- a link would show nothing
      obtain rfl := Option.some.inj hlink
      simp [item?] at hitem
    · exact h.unlinked other above target hle hlink
  · by_cases hkey : other = key
    · exact hkey ▸ hlegal
    · exact h.nameable (hold hkey ▸ hfound)
  · rw [Contents.put]
    split_ifs with hkey
    · rw [hkey, hentries, if_pos rfl, Option.bind_some, hitem]
    · rw [hold hkey, h.contents]
      cases hother : fs.entry? (base ++ other) with
      | none => rfl
      | some old => exact (hsame hother).symm

end HasTree

namespace Shows

/-- A fresh host has nothing in its directory for temporary files. -/
theorem fresh {work : Key} (h : Nameable (work ++ ["tmp".toList])) :
    Shows (work ++ ["tmp".toList]) Contents.bare (FileSystem.fresh work) := by
  have hentry : ∀ key, FileSystem.entry? (FileSystem.fresh work) key =
      if key ∈ chain work ++ [work ++ ["home".toList], work ++ ["tmp".toList]] then some (.directory directoryMode 0)
      else none :=
    KeyMap.get?_map_key _ _
  have hkind : ∀ {key : Key} {entry : Entry}, FileSystem.entry? (FileSystem.fresh work) key = some entry →
      entry = .directory directoryMode 0 := by
    intro key entry hsome
    rw [hentry] at hsome
    split_ifs at hsome
    exact (Option.some.inj hsome).symm
  have hthere : FileSystem.entry? (FileSystem.fresh work) (work ++ ["tmp".toList]) =
      some (.directory directoryMode 0) := by
    rw [hentry, if_pos (by simp)]
  have hbelow : ∀ {key : Key} {entry : Entry},
      FileSystem.entry? (FileSystem.fresh work) (work ++ ["tmp".toList] ++ key) = some entry → key = [] := by
    intro key entry hsome
    rw [hentry] at hsome
    split_ifs at hsome with hmem
    rcases List.mem_append.mp hmem with hchain | hplace
    · -- the directories above are shorter
      have hlength := (mem_chain.mp hchain).length_le
      simp only [List.length_append, List.length_singleton] at hlength
      omega
    · rcases List.mem_pair.mp hplace with hhome | htmp
      · -- the home is beside it
        rw [List.append_assoc, List.append_cancel_left_eq] at hhome
        exact absurd (List.cons.inj hhome).1 (by decide)
      · exact List.append_right_eq_self.mp htmp
  refine ⟨⟨WellFormed.fresh work, ?_, fun key other target _ hlink => ?_, fun {key entry} hsome => ?_,
    fun key => ?_⟩, fun {key other body} hfile _ => absurd (hkind hfile) (by simp)⟩
  · rw [isDirectory, hthere]
  · exact absurd (hkind hlink) (by simp)
  · rwa [hbelow hsome, List.append_nil]
  · rw [Contents.bare]
    split_ifs with hkey
    · rw [hkey, List.append_nil, hthere]
      rfl
    · cases hsome : FileSystem.entry? (FileSystem.fresh work) (work ++ ["tmp".toList] ++ key) with
      | none => rfl
      | some entry => exact absurd (hbelow hsome) hkey

/-- An entry with a body of its own, if any, has been put where nothing was. -/
theorem put_new (h : fs.Shows base items) (hlegal : Nameable (base ++ key)) {fs' : FileSystem} {entry : Entry}
    {item : Item} (hw : fs'.WellFormed)
    (hentries : ∀ other, fs'.entry? other = if other = base ++ key then some entry else fs.entry? other)
    (hitem : fs'.item? entry = some item)
    (hbodies : ∀ {body : Nat}, body < fs.bodies.length → entry ≠ .file body ∧ fs'.bytesOf body = fs.bytesOf body)
    (hnone : items key = none) : fs'.Shows base (items.put key item) := by
  refine ⟨h.toHasTree.put_new hlegal hw hentries hitem (fun hlt => (hbodies hlt).2) hnone,
    fun {one other body} hone hother => ?_⟩
  have hold : ∀ {other : Key}, other ≠ key → fs'.entry? (base ++ other) = fs.entry? (base ++ other) := fun hne => by
    rw [hentries, if_neg fun he => hne (List.append_cancel_left he)]
  have hnew : fs'.entry? (base ++ key) = some entry := by rw [hentries, if_pos rfl]
  -- a file that is new has a body that no old one has
  by_cases hkey : one = key <;> by_cases hkey' : other = key
  · exact hkey.trans hkey'.symm
  · subst hkey
    rw [hold hkey'] at hother
    exact absurd (Option.some.inj (hnew.symm.trans hone)) (hbodies (h.wellFormed.bodies hother)).1
  · subst hkey'
    rw [hold hkey] at hone
    exact absurd (Option.some.inj (hnew.symm.trans hother)) (hbodies (h.wellFormed.bodies hone)).1
  · exact h.single (hold hkey ▸ hone) (hold hkey' ▸ hother)

/-- A directory is made. -/
theorem put_directory (h : fs.Shows base items) (hlegal : Nameable (base ++ key)) (hnone : items key = none)
    (hparent : items key.parent = some .directory) (mode : Nat) (modified : Int) :
    (fs.put (base ++ key) (.directory mode modified)).Shows base (items.put key .directory) :=
  h.put_new hlegal (h.wellFormed.put_new (h.isFree hlegal hnone hparent) (by simp)) (entryAt_put (base ++ key) · _) rfl
    (fun _ => ⟨by simp, rfl⟩) hnone

/-- A file is made. -/
theorem addFile (h : fs.Shows base items) (hlegal : Nameable (base ++ key)) (hnone : items key = none)
    (hparent : items key.parent = some .directory) (mode : Nat) :
    (fs.addFile (base ++ key) mode).2.Shows base (items.put key (.file [])) := by
  refine h.put_new hlegal (h.wellFormed.addFile (h.isFree hlegal hnone hparent) mode)
    (entryAt_put (base ++ key) · (.file fs.bodies.length)) ?_
    (fun {body} hlt => ⟨?_, bytesOf_addFile_of_lt hlt _ mode⟩) hnone
  · rw [item?, bytesOf, body?, FileSystem.addFile]
    simp
  · rintro he
    obtain rfl := Entry.file.inj he
    exact Nat.lt_irrefl _ hlt

/-- A file is written. -/
theorem write (h : fs.Shows base items) (hentry : fs.entry? (base ++ key) = some (.file body)) (bytes : Bytes) :
    (fs.changeBody body fun b => { b with bytes }).Shows base (items.put key (.file bytes)) := by
  refine ⟨⟨h.wellFormed.changeBody body _, h.there, h.unlinked, h.nameable, fun other => ?_⟩, h.single⟩
  have hsame : ∀ key, FileSystem.entry? (fs.changeBody body fun b => { b with bytes }) key = fs.entry? key := fun _ => rfl
  rw [Contents.put, hsame]
  split_ifs with hkey
  · subst hkey
    rw [hentry, Option.bind_some, item?, bytesOf_changeBody_self (h.wellFormed.bodies hentry)]
  · rw [h.contents]
    cases hother : fs.entry? (base ++ other) with
    | none => rfl
    | some old =>
      cases old with
      | directory mode modified => rfl
      | link target => rfl
      | file body' =>
        -- another name of the same file would show the new bytes too
        have hne : body ≠ body' := by
          rintro rfl
          exact hkey (h.single hother hentry)
        rw [Option.bind_some, Option.bind_some, item?, item?, bytesOf_changeBody, if_neg hne]

/-- What can be removed has nothing below it. -/
theorem isEmptyAt_of_removable (h : fs.Shows base items) (hremovable : items.Removable key)
    (hdir : fs.isDirectory (base ++ key) = true) : fs.entries.isEmptyAt (base ++ key) = true := by
  obtain ⟨item, hitem, hempty⟩ := hremovable
  rw [h.eq_directory_iff.mpr hdir, Option.some.injEq] at hitem
  refine KeyMap.isEmptyAt_iff.mpr fun name => ?_
  rw [List.append_assoc]
  exact h.eq_none_iff.mp (hempty hitem.symm name)

/-- An entry is removed. -/
theorem remove (h : fs.Shows base items) (hne : key ≠ []) (hremovable : items.Removable key) :
    (fs.remove (base ++ key)).Shows base (items.erase key) := by
  have hne' : base ++ key ≠ [] := by simp [hne]
  have hentries : ∀ other,
      FileSystem.entry? (fs.remove (base ++ key)) other = if other = base ++ key then none else fs.entry? other :=
    entryAt_remove (base ++ key)
  have hpruned : ∀ {other : Key} {entry : Entry}, FileSystem.entry? (fs.remove (base ++ key)) other = some entry →
      fs.entry? other = some entry := by
    intro other entry hentry
    rw [hentries] at hentry
    split_ifs at hentry
    exact hentry
  -- all that has to hold of every entry holds of those that are left
  refine ⟨⟨h.wellFormed.remove hne' (h.wellFormed.bareAt (h.isEmptyAt_of_removable hremovable)), ?_,
    fun other above target hle hlink => h.unlinked other above target hle (hpruned hlink),
    fun hfound => h.nameable (hpruned hfound), fun other => ?_⟩,
    fun hone hother => h.single (hpruned hone) (hpruned hother)⟩
  · -- the directory stays, as the key is below it
    have hthere : FileSystem.entry? (fs.remove (base ++ key)) base = fs.entry? base := by
      rw [hentries, if_neg]
      intro he
      exact hne (List.self_eq_append_right.mp he)
    have hdir := h.there
    rw [isDirectory] at hdir ⊢
    rwa [hthere]
  · rw [Contents.erase, hentries]
    split_ifs with hkey hkey' hkey'
    · rfl
    · exact absurd (by rw [hkey]) hkey'
    · exact absurd (List.append_cancel_left hkey') hkey
    · exact h.contents other

end Shows

end FileSystem

/-! ### Requests -/

variable {disk : Disk} {base key : Key} {items : Contents} {bytes : Bytes}

theorem nativePath_toText (fs : FileSystem) (key : Key) : nativePath fs key.toText = key.toText := by
  cases key <;> rfl

theorem notMem_toText (h : Nameable key) : '\x00' ∉ key.toText := by
  cases key with
  | nil => decide
  | cons first rest =>
    rw [Key.toText, List.mem_flatMap]
    · rintro ⟨name, hname, hmem⟩
      rcases List.mem_cons.mp hmem with hslash | hmem
      · exact absurd hslash (by decide)
      · exact h.clean name hname hmem
    · simp

theorem outcome_tested_toText (h : Nameable key) (disk : Disk) :
    (tested key.toText).outcome disk = (.ok key.toText, disk) := by
  rw [outcome_tested, hasBadUser_of_notMem (notMem_toText h), nativePath_toText]
  rfl

theorem outcome_native_toText (h : Nameable key) (disk : Disk) :
    (native key.toText).outcome disk = (.ok key.toText, disk) := by
  rw [outcome_native, nativePath_toText, if_neg]
  simp [hasBadUser_of_notMem (notMem_toText h), notMem_toText h]

/-- A disk whose file system shows contents in a directory. -/
def ShowsContents (base : Key) (items : Contents) (disk : Disk) : Prop := disk.fs.Shows base items

section Requests

variable (h : ShowsContents base items disk) (hkey : Nameable (base ++ key))
include h hkey

/-- What is only looked at changes nothing. -/
theorem yields_seen {α : Type} (f : FileSystem → Text → α) :
    Yields (do
      let native ← tested (Key.toText (base ++ key))
      pure (f (← get).fs native)) disk (f disk.fs (Key.toText (base ++ key))) (ShowsContents base items) := by
  refine ⟨disk, ?_, h⟩
  rw [outcome_bind, outcome_tested_toText hkey]
  rfl

theorem yields_exists? :
    Yields (exists? (Key.toText (base ++ key))) disk (items key).isSome (ShowsContents base items) := by
  have hexists : existsAt disk.fs (Key.toText (base ++ key)) = (items key).isSome := by
    rw [existsAt_toText h.wellFormed hkey (h.unlinked key), Bool.eq_iff_iff, Option.isSome_iff_exists,
      Option.isSome_iff_exists, h.eq_some_iff]
  rw [← hexists]
  exact yields_seen h hkey existsAt

theorem yields_isDirectory :
    Yields (isDirectory (Key.toText (base ++ key))) disk (decide (items key = some .directory))
      (ShowsContents base items) := by
  have hdirectory : isDirectoryAt disk.fs (Key.toText (base ++ key)) = decide (items key = some .directory) := by
    rw [isDirectoryAt_toText h.wellFormed hkey (h.unlinked key), Bool.eq_iff_iff, decide_eq_true_iff, h.eq_directory_iff]
  rw [← hdirectory]
  exact yields_seen h hkey isDirectoryAt

theorem yields_listFiles (hdir : items key = some .directory) :
    ∃ names : List Text, (∀ {name}, name ∈ names ↔ items (key ++ [name]) ≠ none) ∧
      Yields (listFiles (Key.toText (base ++ key))) disk (names.map fun name => Key.toText (base ++ (key ++ [name])))
        (ShowsContents base items) := by
  have hentry := h.eq_directory_iff.mp hdir
  have hmem : ∀ {name : Text}, name ∈ disk.fs.entries.childrenNames (base ++ key) ↔ items (key ++ [name]) ≠ none := by
    intro name
    rw [KeyMap.mem_childrenNames, KeyMap.has, Option.isSome_iff_ne_none, ne_eq, ne_eq, h.eq_none_iff, List.append_assoc]
    rfl
  refine ⟨disk.fs.entries.childrenNames (base ++ key), hmem, disk, ?_, h⟩
  -- a name is put behind the path with a slash, which gives the path of the longer key
  have hjoined : (disk.fs.entries.childrenNames (base ++ key)).map (NativePath.joined (Key.toText (base ++ key))) =
      (disk.fs.entries.childrenNames (base ++ key)).map fun name => Key.toText (base ++ (key ++ [name])) := by
    refine List.map_congr_left fun name hname => ?_
    obtain ⟨entry, hchild⟩ := h.eq_some_iff.mp (Option.ne_none_iff_exists'.mp (hmem.mp hname))
    have hproper := (h.nameable hchild).proper name (by simp)
    rw [joined_toText hkey.proper hproper.no_slash, List.append_assoc]
  rw [listFiles, outcome_bind, outcome_native_toText hkey]
  simp only
  rw [outcome_bind, outcome_reported_ask, list_toText h.wellFormed hkey (h.unlinked key) hentry, ← hjoined]
  rfl

omit h in
theorem parent?_toText (hne : key ≠ []) (fs : FileSystem) :
    parent? fs (Key.toText (base ++ key)) = some (Key.toText (base ++ key.parent)) := by
  obtain ⟨directory, name, rfl⟩ := (List.eq_nil_or_concat' key).resolve_left hne
  rw [← List.append_assoc] at hkey ⊢
  have hname := hkey.proper name (by simp)
  have hproper := hkey.init.proper
  have htrimmed : trimmedNative fs (Key.toText (base ++ directory ++ [name])) = Key.toText (base ++ directory ++ [name]) := by
    rw [trimmedNative, nativePath_toText, NativePath.withoutSlashes,
      Text.dropTrailing_of_getLast? (Key.getLast?_toText hkey.proper (by simp)), ite_self]
  -- so the path is not that of a root, which has no parent
  have hshorter : Key.toText (base ++ directory) ≠ Key.toText (base ++ directory ++ [name]) := by
    intro he
    have hkeys := Key.ofText_toText hkey.proper
    rw [← he, Key.ofText_toText hproper] at hkeys
    simp at hkeys
  have hsome : (Key.toText (base ++ directory)).isEmpty = false := by
    cases base ++ directory <;> rfl
  -- a path that begins with a slash carries no scheme that would be put back
  have hscheme : Scheme.has (Key.toText (base ++ directory ++ [name])) scheme = false := by
    cases base ++ directory ++ [name] <;> rfl
  rw [parent?, htrimmed, directoryPart_toText hproper hname.no_slash, Key.parent_append_singleton, hsome]
  simp only [Bool.false_or, beq_iff_eq, hshorter, if_false, qualified, hscheme, Bool.false_eq_true]

theorem yields_canonicalPath :
    Yields (canonicalPath (Key.toText (base ++ key))) disk (Key.toText (base ++ key)) (ShowsContents base items) := by
  refine ⟨disk, ?_, h⟩
  have hcanonical : (canonicalPath (Key.toText (base ++ key))).outcome disk =
      (.ok (disk.fs.canonical (nativePath disk.fs (Key.toText (base ++ key)))), disk) := by
    refine outcome_canonicalPath_of_taken (hasBadUser_of_notMem (notMem_toText hkey)) ?_ ?_
    · rw [nativePath_toText]
      exact notMem_toText hkey
    · rw [nativePath_toText, isStranded, head?_toText]
      rfl
  rw [hcanonical, nativePath_toText, canonical_toText h.wellFormed hkey (h.unlinked key)]

theorem outcome_createDirectory_toText (hnone : items key = none) :
    (createDirectory (Key.toText (base ++ key))).outcome disk =
      match disk.fs.makeDirectory (Key.toText (base ++ key)) with
      | .error fault =>
        (.error ((fault.failure [Key.toText (base ++ key)]).reportedAt (Key.toText (base ++ key))), disk)
      | .ok fs => (.ok (), { disk with fs }) := by
  have hnowhere : leadsToDirectory disk.fs (Key.toText (base ++ key)) = false := by
    rw [leadsToDirectory_toText h.wellFormed hkey (h.unlinked key), FileSystem.isDirectory, h.eq_none_iff.mp hnone]
  rw [createDirectory, outcome_bind, outcome_tested_toText hkey]
  simp only
  rw [outcome_bind, outcome_get]
  simp only [hnowhere, Bool.false_eq_true, if_false]
  rw [outcome_bind, outcome_native_toText hkey]
  exact outcome_reported_alter _ _ disk

theorem yields_createDirectory (hnone : items key = none) (hparent : items key.parent = some .directory) :
    Yields (createDirectory (Key.toText (base ++ key))) disk () (ShowsContents base (items.put key .directory)) := by
  have hout := outcome_createDirectory_toText h hkey hnone
  have hmade := h.put_directory hkey hnone hparent directoryMode 0
  have hne : base ++ key ≠ [] := List.append_ne_nil_of_right_ne_nil base (h.ne_nil hnone)
  rw [h.eq_directory_iff, ← Key.parent_append (h.ne_nil hnone)] at hparent
  rw [makeDirectory_toText h.wellFormed hkey (h.unlinked key) hne hparent (h.eq_none_iff.mp hnone)] at hout
  exact ⟨_, hout, hmade⟩

theorem refuses_createDirectory (hnone : items key = none) (hparent : items key.parent ≠ some .directory) :
    Refuses (createDirectory (Key.toText (base ++ key))) disk (ShowsContents base items) := by
  have hout := outcome_createDirectory_toText h hkey hnone
  have hne : base ++ key ≠ [] := List.append_ne_nil_of_right_ne_nil base (h.ne_nil hnone)
  rw [ne_eq, h.eq_directory_iff, ← Key.parent_append (h.ne_nil hnone), Bool.not_eq_true] at hparent
  obtain ⟨fault, hfault⟩ := makeDirectory_toText_error h.wellFormed hkey (h.unlinked key) hne hparent
  rw [hfault] at hout
  exact ⟨_, disk, hout, h⟩

theorem outcome_delete_toText :
    (delete (Key.toText (base ++ key))).outcome disk =
      match (if disk.fs.isDirectory (base ++ key) then disk.fs.removeDirectory (Key.toText (base ++ key))
        else disk.fs.removeFile (Key.toText (base ++ key))) with
      | .error fault =>
        (.error ((fault.failure [Key.toText (base ++ key)]).reportedAt (Key.toText (base ++ key))), disk)
      | .ok fs => (.ok (), { disk with fs }) := by
  rw [delete, outcome_bind, outcome_native_toText hkey]
  simp only
  rw [outcome_bind, outcome_get]
  simp only [isDirectoryAt_toText h.wellFormed hkey (h.unlinked key)]
  exact outcome_reported_alter _ _ disk

theorem yields_delete (hne : key ≠ []) (hremovable : items.Removable key) :
    Yields (delete (Key.toText (base ++ key))) disk () (ShowsContents base (items.erase key)) := by
  have hout := outcome_delete_toText h hkey
  have hremoved := h.remove hne hremovable
  have hempty := h.isEmptyAt_of_removable hremovable
  have hlink := h.unlinked key
  have hne' : base ++ key ≠ [] := List.append_ne_nil_of_right_ne_nil base hne
  obtain ⟨item, hitem, -⟩ := hremovable
  obtain ⟨entry, hentry⟩ := h.eq_some_iff.mp ⟨item, hitem⟩
  refine ⟨{ disk with fs := disk.fs.remove (base ++ key) }, ?_, hremoved⟩
  -- a directory is removed by another call than a file, and has to be empty for it
  cases hdir : disk.fs.isDirectory (base ++ key) with
  | true =>
    rw [hdir, if_pos rfl, removeDirectory_toText h.wellFormed hkey hlink hne' hdir, hempty hdir] at hout
    exact hout
  | false =>
    rw [hdir, if_neg (by simp)] at hout
    cases entry with
    | directory mode modified =>
      rw [FileSystem.isDirectory, hentry] at hdir
      simp at hdir
    | link target => exact absurd hentry (hlink _ target (List.prefix_refl _))
    | file body =>
      rw [removeFile_toText h.wellFormed hkey hlink hne' hentry] at hout
      exact hout

theorem refuses_delete (hne : key ≠ []) (hremovable : ¬ items.Removable key) :
    Refuses (delete (Key.toText (base ++ key))) disk (ShowsContents base items) := by
  have hout := outcome_delete_toText h hkey
  have hlink := h.unlinked key
  have hne' : base ++ key ≠ [] := List.append_ne_nil_of_right_ne_nil base hne
  have hfault : ∃ fault, (if disk.fs.isDirectory (base ++ key) then disk.fs.removeDirectory (Key.toText (base ++ key))
      else disk.fs.removeFile (Key.toText (base ++ key))) = .error fault := by
    by_cases hdir : disk.fs.isDirectory (base ++ key) = true
    · -- a directory that cannot be removed has something in it
      have hfull : disk.fs.entries.isEmptyAt (base ++ key) = false := by
        rw [Bool.eq_false_iff]
        intro hempty
        refine hremovable ⟨.directory, h.eq_directory_iff.mpr hdir, fun _ name => h.eq_none_iff.mpr ?_⟩
        rw [← List.append_assoc]
        exact KeyMap.isEmptyAt_iff.mp hempty name
      rw [if_pos hdir, removeDirectory_toText h.wellFormed hkey hlink hne' hdir, hfull]
      exact ⟨_, rfl⟩
    · have hnone : items key = none := by
        by_contra hsome
        obtain ⟨item, hitem⟩ := Option.ne_none_iff_exists'.mp hsome
        exact hremovable ⟨item, hitem, fun hd => absurd (h.eq_directory_iff.mp (hd ▸ hitem)) hdir⟩
      rw [h.eq_none_iff] at hnone
      rw [if_neg hdir]
      exact removeFile_toText_error h.wellFormed hkey hlink hne' hnone
  obtain ⟨fault, hfault⟩ := hfault
  rw [hfault] at hout
  exact ⟨_, disk, hout, h⟩

end Requests

end FileRouter.Disk
