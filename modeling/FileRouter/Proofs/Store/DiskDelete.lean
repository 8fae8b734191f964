import FileRouter.Proofs.Call
import FileRouter.Proofs.Disk.Pruned
import FileRouter.Proofs.Disk.Reading
import FileRouter.Proofs.Store.Command
import FileRouter.Proofs.World.Layers
/-!
Deleting a subtree of the disk.

Links are leaves: what goes is the entry that the path names and what hangs below it in directories, and no link
is followed (`pruned_deleteRecursive`). While the recursion runs the world is the same up to lost entries
(`Trimmed`), and lost entries make no path lead elsewhere, so what is known of a path at the start stays known.

There is one way through a link. A slash behind a link to a directory makes the system follow the link, and the
directory's content is deleted through it (`not_forall_pruned_deleteRecursive`).
-/

namespace FileRouter

namespace Disk

/-! ### Requests -/

variable {disk : Disk} {path : Text}

theorem isDirectoryAt_of_isDirectory (h : ((isDirectory path).outcome disk).1 = .ok true) :
    isDirectoryAt disk.fs (nativePath disk.fs path) = true := by
  rw [isDirectory, Call.outcome_bind, outcome_tested] at h
  by_cases huser : hasBadUser path = true
  · rw [if_pos huser] at h
    simp at h
  · rw [if_neg huser] at h
    exact Except.ok.inj h

theorem exists_of_listFiles {entries : List Text} (h : ((listFiles path).outcome disk).1 = .ok entries) :
    ∃ names, disk.fs.list (nativePath disk.fs path) = .ok names ∧
      entries = names.map (NativePath.joined path) := by
  rw [listFiles, Call.outcome_bind, outcome_native] at h
  split_ifs at h
  simp only at h
  rw [Call.outcome_bind, outcome_reported_ask] at h
  cases hlist : disk.fs.list (nativePath disk.fs path) with
  | error fault => simp [hlist, Except.mapError] at h
  | ok names =>
    simp only [hlist, Except.mapError] at h
    exact ⟨names, rfl, (Except.ok.inj h).symm⟩

/-- A deletion removes an empty directory or another entry, or leaves the disk as it is. -/
theorem delete_cases (path : Text) (disk : Disk) :
    ((delete path).outcome disk).2 = disk ∨ ∃ fs,
      (disk.fs.removeDirectory (nativePath disk.fs path) = .ok fs ∨
        disk.fs.removeFile (nativePath disk.fs path) = .ok fs) ∧
      ((delete path).outcome disk).2 = { disk with fs } := by
  rw [delete, Call.outcome_bind, outcome_native]
  split_ifs with hbad
  · exact Or.inl rfl
  · simp only
    rw [Call.outcome_bind, Call.outcome_get]
    simp only
    rw [reported, Call.outcome_mapFailure, alter, Call.outcome_ofOutcome]
    -- which of the two removes depends on what is at the path, and either may refuse
    cases isDirectoryAt disk.fs (nativePath disk.fs path) with
    | true =>
      cases hgone : disk.fs.removeDirectory (nativePath disk.fs path) with
      | error fault => exact Or.inl rfl
      | ok fs => exact Or.inr ⟨fs, Or.inl rfl, rfl⟩
    | false =>
      cases hgone : disk.fs.removeFile (nativePath disk.fs path) with
      | error fault => exact Or.inl rfl
      | ok fs => exact Or.inr ⟨fs, Or.inr rfl, rfl⟩

end Disk

namespace Disk.FileSystem

/-- An entry holds whatever hangs in it: itself, and what is reached from it through directories alone. -/
def Holds (fs : FileSystem) (key other : Key) : Prop :=
  key <+: other ∧ ∀ between : Key, key <+: between → between <+: other → between ≠ other →
    fs.isDirectory between = true

/-- A path with a slash behind it that names a link to a directory. -/
def ThroughLink (fs : FileSystem) (path : Text) : Prop :=
  endsInSlash path = true ∧ leadsToDirectory fs path = true ∧
    ∃ key target, fs.named? path = some key ∧ fs.entry? key = some (.link target)

variable {fs fs' : FileSystem} {key : Key}

theorem WellFormed.holds (h : fs.WellFormed) {other : Key} {entry : Entry} (hp : key <+: other)
    (he : fs.entry? other = some entry) : fs.Holds key other := by
  refine ⟨hp, fun between _ hbetween hne => ?_⟩
  obtain ⟨rest, rfl⟩ := hbetween
  refine isDirectory_iff.mpr (h.rooted.above he fun hr => hne ?_)
  rw [hr, List.append_nil]

/-- Below a link there is nothing. -/
theorem Holds.eq_of_link {other : Key} {target : Text} (h : fs.Holds key other)
    (he : fs.entry? key = some (.link target)) : other = key := by
  by_contra hne
  have hdir := h.2 key (List.prefix_refl key) h.1 (Ne.symm hne)
  simp [isDirectory, he] at hdir

end Disk.FileSystem

namespace World

open Call Disk Disk.FileSystem

variable {world : World} {registry : Nat} {found : Registry} {path : Text} {region : Key → Prop}

/-! ### Requests to the disk -/

/-- The world with another file system on its disk. -/
def withFiles (fs : FileSystem) (world : World) : World := { world with disk := { world.disk with fs } }

theorem outcome_perform_disk {request : Request}
    (hd : world.IsDisk (world.owner registry request.path)) (hm : world.mismatch? registry request = none) :
    (perform registry request).outcome world =
      let out := (Disk.perform request).outcome (world.disk, world.tokens)
      (out.1.map (request.mapHandle .disk), { withDisk out.2.1 world with tokens := out.2.2 }) := by
  obtain ⟨limit, hsucc⟩ := exists_handOverLimit world request.path
  rw [outcome_perform_owner hm, hsucc, outcome_performWithin_base hd.isBase, outcome_direct_disk hd]

/-- The disk also owns the paths of what it lists. -/
theorem Layered.isDisk_joined (hl : Layered world registry found)
    (hd : world.IsDisk (world.owner registry path)) (hne : path ≠ []) {name : Text} (hn : Key.IsName name) :
    world.IsDisk (world.owner registry (NativePath.joined path name)) := by
  rcases hl.owner_cases (NativePath.joined path name) with ⟨member, hm, -, hhas⟩ | howner
  · have hv := hl.keyed.valid hm
    rw [has_joined (Scheme.slash_notMem_of_isValid hv) hn.no_slash hne] at hhas
    -- a member of the registry is not the disk
    obtain ⟨scheme, claim, label, hp⟩ := hd
    rw [hl.owner_of_has hm hhas] at hp
    cases hl.layer hm with
    | memory hp' _ =>
      rw [hp'] at hp
      simp at hp
    | view hp' =>
      rw [hp'] at hp
      simp at hp
  · rw [howner]
    exact hl.fallback

/-! ### Trimmed entries -/

/-- A world that has lost nothing but entries of a region of the disk. -/
def Trimmed (world : World) (region : Key → Prop) (now : World) : Prop :=
  ∃ fs, now = withFiles fs world ∧ Pruned region world.disk.fs fs ∧ fs.WellFormed

theorem trimmed_self (region : Key → Prop) (hw : world.disk.fs.WellFormed) : Trimmed world region world :=
  ⟨world.disk.fs, rfl, .refl region world.disk.fs, hw⟩

section Requests

variable (hd : world.IsDisk (world.owner registry path))
include hd

/-- A request for a path of the disk, made when the disk has another file system. -/
theorem outcome_withFiles {request : Request} (hpath : request.path = path)
    (hm : ∀ now : World, now.mismatch? registry request = none) (fs : FileSystem) :
    (perform registry request).outcome (withFiles fs world) =
      let out := (Disk.perform request).outcome ({ world.disk with fs }, world.tokens)
      (out.1.map (request.mapHandle .disk), { withDisk out.2.1 world with tokens := out.2.2 }) := by
  have hd' : (withFiles fs world).IsDisk ((withFiles fs world).owner registry request.path) := by
    rw [hpath]
    exact hd
  exact outcome_perform_disk hd' (hm _)

/-- A request that looks at a path of the disk leaves the world as it is. -/
theorem trimmed_looking {request : Request} (hpath : request.path = path) (hreads : request.Reads)
    (hopens : ∀ reply : request.Reply Nat, request.handle? reply = none)
    (hm : ∀ now : World, now.mismatch? registry request = none) :
    Keeps (Trimmed world region) (perform registry request) := by
  rintro now ⟨fs, rfl, hp, hw⟩
  rw [outcome_withFiles hd hpath hm]
  simp only [looks_perform hreads hopens]
  exact ⟨fs, rfl, hp, hw⟩

theorem trimmed_exists : Keeps (Trimmed world region) (perform registry (.exists path)) :=
  trimmed_looking hd rfl trivial (fun _ => rfl) fun _ => rfl

/-- What is a directory is one by its name, so no link is on the way to its entries. -/
theorem trimmed_isDirectory (hstraight : world.disk.fs.Straight (nativePath world.disk.fs path))
    (hthrough : ¬ world.disk.fs.ThroughLink (nativePath world.disk.fs path)) :
    Gives (Trimmed world region)
      (fun answer : Bool => answer = true → nativePath world.disk.fs path ≠ [] ∧
        ∃ key, world.disk.fs.named? (nativePath world.disk.fs path) = some key ∧
          world.disk.fs.LeadsTo (nativePath world.disk.fs path) key)
      (perform registry (.isDirectory path)) := by
  rintro now ⟨fs, rfl, hp, hw⟩
  have hkept : Keeps (Trimmed world region) (perform registry (.isDirectory path)) :=
    trimmed_looking hd rfl trivial (fun _ => rfl) fun _ => rfl
  refine ⟨hkept _ ⟨fs, rfl, hp, hw⟩, fun {answer} hanswer htrue => ?_⟩
  rw [outcome_withFiles hd rfl fun _ => rfl] at hanswer
  obtain ⟨value, hvalue, hmapped⟩ := exists_of_map_eq_ok hanswer
  obtain rfl : value = true := hmapped.trans htrue
  let disk : Disk := { world.disk with fs }
  have hdir : isDirectoryAt fs (nativePath world.disk.fs path) = true := by
    have hseen : isDirectoryAt disk.fs (nativePath disk.fs path) = true := isDirectoryAt_of_isDirectory hvalue
    rwa [hp.nativePath] at hseen
  have hfound : leadsToDirectory fs (nativePath world.disk.fs path) = true := by
    rw [isDirectoryAt, Bool.and_eq_true] at hdir
    exact hdir.1
  -- a directory that is found by its name and not through a link at the end
  obtain ⟨key, hfind, hnamed, hstretch⟩ := stretch_of_isDirectoryAt (hstraight.pruned hp) hdir
    fun hslash {key target} hnamed hlink => hthrough
      ⟨hslash, hp.leadsToDirectory hfound, key, target, named?_of_pruned hp hnamed, hp.entry? hlink⟩
  refine ⟨?_, key, named?_of_pruned hp hnamed, fun {stretched} hs => ?_⟩
  · intro hempty
    rw [hempty] at hfind
    simp [find, checkPath, bind, Except.bind] at hfind
  · rw [hp.work] at hstretch
    -- what is left leads where it led before anything was removed
    rcases hp.stretch (origin world.disk.fs.work (nativePath world.disk.fs path))
      (segments (nativePath world.disk.fs path)) with hsame | ⟨fault, hfault⟩
    · rw [hsame, hs] at hstretch
      exact Except.ok.inj hstretch
    · rw [hfault] at hstretch
      simp at hstretch

/-- A listing answers the path with names behind it. -/
theorem trimmed_listFiles (hproper : world.disk.fs.Proper) :
    Gives (Trimmed world region)
      (fun entries : List Text =>
        ∀ entry ∈ entries, ∃ name, Key.IsName name ∧ entry = NativePath.joined path name)
      (perform registry (.listFiles path)) := by
  rintro now ⟨fs, rfl, hp, hw⟩
  have hkept : Keeps (Trimmed world region) (perform registry (.listFiles path)) :=
    trimmed_looking hd rfl trivial (fun _ => rfl) fun _ => rfl
  refine ⟨hkept _ ⟨fs, rfl, hp, hw⟩, fun {entries} hanswer entry hentry => ?_⟩
  rw [outcome_withFiles hd rfl fun _ => rfl] at hanswer
  obtain ⟨value, hvalue, rfl⟩ := exists_of_map_eq_ok hanswer
  let disk : Disk := { world.disk with fs }
  obtain ⟨names, hlist, rfl⟩ : ∃ names, disk.fs.list (nativePath disk.fs path) = .ok names ∧
      value = names.map (NativePath.joined path) := exists_of_listFiles hvalue
  obtain ⟨name, hname, rfl⟩ := List.mem_map.mp hentry
  refine ⟨name, ?_, rfl⟩
  -- what is listed are names of entries that have been there from the start
  rw [FileSystem.list] at hlist
  obtain ⟨key, -, hlist⟩ := exists_of_bind_eq_ok hlist
  split_ifs at hlist
  obtain rfl := Except.ok.inj hlist
  obtain ⟨found, hfound⟩ := KeyMap.has_iff.mp (KeyMap.mem_childrenNames.mp hname)
  exact hproper (hp.entry? hfound) name (by simp)

/-- A deletion removes what the path names, if anything. -/
theorem trimmed_delete (hstraight : world.disk.fs.Straight (nativePath world.disk.fs path))
    (hregion : ∀ {key : Key}, world.disk.fs.named? (nativePath world.disk.fs path) = some key → region key) :
    Keeps (Trimmed world region) (perform registry (.delete path)) := by
  rintro now ⟨fs, rfl, hp, hw⟩
  rw [outcome_withFiles hd rfl fun _ => rfl]
  -- whatever is removed goes from the directory that the straight path leads to
  have hgone : ∀ {directory : Key} {name : Text} {slash : Bool},
      fs.parentOf (nativePath fs path) = .ok (directory, .name name slash) →
        Pruned region world.disk.fs (fs.remove (directory ++ [name])) := by
    intro directory name slash hparent
    rw [hp.nativePath] at hparent
    have hnamed := named?_of_parentOf (hstraight.pruned hp) hparent
    exact hp.trans (pruned_remove (hregion (named?_of_pruned hp hnamed)))
  have hout : ∀ {fs' : FileSystem}, ((Disk.delete path).outcome { world.disk with fs }).2 =
      { world.disk with fs := fs' } → Pruned region world.disk.fs fs' → fs'.WellFormed →
        Trimmed world region
          { withDisk ((Disk.delete path).outcome { world.disk with fs }).2 world with
            tokens := world.tokens } := by
    intro fs' hleft hp' hw'
    rw [hleft]
    exact ⟨fs', rfl, hp', hw'⟩
  rcases delete_cases path { world.disk with fs } with hsame | ⟨fs', hremoved, hleft⟩
  · exact hout hsame hp hw
  · rcases hremoved with hremoved | hremoved
    · obtain ⟨directory, name, slash, hparent, -, rfl⟩ := removeDirectory_cases hremoved
      exact hout hleft (hgone hparent) ((step_removeDirectory hremoved).wellFormed hw)
    · obtain ⟨directory, name, hparent, -, rfl⟩ := removeFile_cases hremoved
      exact hout hleft (hgone hparent) ((step_removeFile hremoved).wellFormed hw)

theorem trimmed_remove (hstraight : world.disk.fs.Straight (nativePath world.disk.fs path))
    (hregion : ∀ {key : Key}, world.disk.fs.named? (nativePath world.disk.fs path) = some key → region key)
    (tryOnly : Bool) : Keeps (Trimmed world region) ((store registry).remove tryOnly path) := by
  have hdelete := trimmed_delete hd hstraight hregion
  cases tryOnly with
  | true => exact keeps_bind (keeps_bind (keeps_failure? hdelete) fun _ => keeps_pure _) fun _ => keeps_pure _
  | false => exact hdelete

end Requests

/-! ### The recursion -/

/-- What a recursion removes lies at or below the key that its path names, at every level. -/
theorem trimmed_levels (hl : Layered world registry found) (hproper : world.disk.fs.Proper) (tryOnly : Bool)
    (levels : Nat) {path : Text} (hd : world.IsDisk (world.owner registry path))
    (hstraight : world.disk.fs.Straight (nativePath world.disk.fs path))
    (hthrough : ¬ world.disk.fs.ThroughLink (nativePath world.disk.fs path))
    (hregion : ∀ {key other : Key}, world.disk.fs.named? (nativePath world.disk.fs path) = some key →
      key <+: other → region other) :
    Keeps (Trimmed world region) ((store registry).deleteRecursive tryOnly levels path) := by
  induction levels generalizing path with
  | zero => exact keeps_throw _
  | succ levels ih =>
    have hremove := trimmed_remove hd hstraight (fun hn => hregion hn (List.prefix_refl _)) tryOnly
    rw [Store.deleteRecursive_succ]
    refine keeps_bind (trimmed_exists hd) fun there => ?_
    split_ifs
    · refine keeps_of_gives (trimmed_isDirectory hd hstraight hthrough) fun isDirectory hdirectory => ?_
      split_ifs with hdir
      · obtain ⟨hne, key, hnamed, hleads⟩ := hdirectory hdir
        refine keeps_of_gives (trimmed_listFiles hd hproper) fun entries hentries => ?_
        refine keeps_bind (keeps_forM fun entry he => ?_) fun _ => hremove
        -- an entry's path leads through the directory, and ends in no slash
        obtain ⟨name, hname, rfl⟩ := hentries entry he
        have hpath : path ≠ [] := by
          rintro rfl
          exact hne rfl
        have hnative := nativePath_joined world.disk.fs hname hne
        refine ih (hl.isDisk_joined hd hpath hname) ?_ ?_ ?_
        · rw [hnative]
          exact hleads.straight hname hne
        · rw [hnative]
          rintro ⟨hslash, -⟩
          simp [endsInSlash_joined hname] at hslash
        · intro child other hchild hbelow
          rw [hnative] at hchild
          obtain rfl := hleads.named? hname hne hchild
          exact hregion hnamed ((List.prefix_append key [name]).trans hbelow)
      · exact hremove
    · exact keeps_pure _

/-- **Deleting a subtree of the disk spares everything else.** When no link is on the way to the last segment of
the path and the path does not lead through a link by a slash behind it, all that can be gone is the entry
that the path names and what this entry holds; a link holds itself alone. -/
theorem pruned_deleteRecursive (hl : Layered world registry found)
    (hd : world.IsDisk (world.owner registry path)) (hw : world.disk.fs.WellFormed)
    (hproper : world.disk.fs.Proper) (hstraight : world.disk.fs.Straight (nativePath world.disk.fs path))
    (hthrough : ¬ world.disk.fs.ThroughLink (nativePath world.disk.fs path)) (tryOnly : Bool) :
    ∃ fs, ((deleteRecursive registry path tryOnly).outcome world).2 = withFiles fs world ∧
      Pruned (fun key => ∃ named, world.disk.fs.named? (nativePath world.disk.fs path) = some named ∧
        world.disk.fs.Holds named key) world.disk.fs fs ∧
      ∀ {named : Key} {target : Text},
        world.disk.fs.named? (nativePath world.disk.fs path) = some named →
        world.disk.fs.entry? named = some (.link target) →
          Pruned (fun key => key = named) world.disk.fs fs := by
  let below := fun key : Key => ∃ named,
    world.disk.fs.named? (nativePath world.disk.fs path) = some named ∧ named <+: key
  have hkeeps : Keeps (Trimmed world below) (deleteRecursive registry path tryOnly) :=
    keeps_get fun now hnow => trimmed_levels hl hproper tryOnly now.levels hd hstraight hthrough
      (fun {key _} hn hbelow => ⟨key, hn, hbelow⟩) now hnow
  obtain ⟨fs, hleft, hp, -⟩ := hkeeps world (trimmed_self below hw)
  -- what is gone below the name was there, so the name holds it
  have hheld : Pruned (fun key => ∃ named,
      world.disk.fs.named? (nativePath world.disk.fs path) = some named ∧ world.disk.fs.Holds named key)
      world.disk.fs fs := by
    refine ⟨fun key => ?_, hp.rest⟩
    rcases hp.entries key with hsame | ⟨⟨named, hnamed, hbelow⟩, hgone⟩
    · exact Or.inl hsame
    · cases he : world.disk.fs.entry? key with
      | none => exact Or.inl hgone
      | some entry => exact Or.inr ⟨⟨named, hnamed, hw.holds hbelow he⟩, hgone⟩
  refine ⟨fs, hleft, hheld, fun {named target} hnamed hlink => hheld.mono ?_⟩
  rintro key ⟨named', hnamed', hholds⟩
  obtain rfl := Option.some.inj (hnamed.symm.trans hnamed')
  exact hholds.eq_of_link hlink

/-! ### Links -/

/-- A file in a directory, and a link to that directory. -/
def linkedFiles : FileSystem :=
  { FileSystem.fresh [] with
    entries := [([], .directory directoryMode 0), ([['d']], .directory directoryMode 0),
      ([['d'], ['x']], .file 0), ([['l']], .link "/d".toList)]
    bodies := [⟨[120], fileMode, 0⟩] }

/-- The disk alone, with that file system. -/
def linkedRegistry : Registry := ⟨[], ⟨0, Disk.scheme, .ownSchemeOrNone⟩⟩

@[inherit_doc linkedRegistry]
def linkedWorld : World :=
  { fresh [] 0 (.counting []) with
    disk := ⟨linkedFiles, [], []⟩
    providers := [⟨Disk.scheme, .ownSchemeOrNone, none, .disk⟩]
    registries := [linkedRegistry] }

theorem layered_linkedWorld : Layered linkedWorld 0 linkedRegistry where
  here := rfl
  keyed := ⟨fun {member} hm => by simp [linkedRegistry] at hm, by decide⟩
  claims {member} hm := by simp [linkedRegistry] at hm
  layer {member} hm := by simp [linkedRegistry] at hm
  fallback := ⟨_, _, _, rfl⟩

theorem isDisk_linkedWorld (path : Text) : linkedWorld.IsDisk (linkedWorld.owner 0 path) :=
  ⟨_, _, _, rfl⟩

theorem mem_linkedFiles {key : Key} {entry : Entry} (h : linkedFiles.entry? key = some entry) :
    key ∈ [[], [['d']], [['d'], ['x']], [['l']]] ∧ (∀ body, entry = .file body → body = 0) := by
  have hmem := KeyMap.mem_of_get? h
  simp only [linkedFiles, List.mem_cons, Prod.mk.injEq, List.not_mem_nil, or_false] at hmem
  rcases hmem with ⟨rfl, rfl⟩ | ⟨rfl, rfl⟩ | ⟨rfl, rfl⟩ | ⟨rfl, rfl⟩ <;> simp

theorem wellFormed_linkedFiles : linkedFiles.WellFormed := by
  refine ⟨⟨by unfold KeyMap.Distinct; decide, ⟨_, rfl, rfl⟩, fun {key value} hg hne => ?_⟩,
    fun {key body} hf => ?_⟩
  · obtain ⟨hkey, -⟩ := mem_linkedFiles hg
    simp only [List.mem_cons, List.not_mem_nil, or_false] at hkey
    rcases hkey with rfl | rfl | rfl | rfl
    · exact absurd rfl hne
    · exact ⟨_, rfl, rfl⟩
    · exact ⟨_, rfl, rfl⟩
    · exact ⟨_, rfl, rfl⟩
  · obtain ⟨-, hbody⟩ := mem_linkedFiles hf
    rw [hbody body rfl]
    decide

theorem proper_linkedFiles : linkedFiles.Proper := by
  intro key entry he
  obtain ⟨hkey, -⟩ := mem_linkedFiles he
  have hname : ∀ c : Char, c ≠ '/' → c ≠ '.' → Key.IsName [c] := fun c hslash hdot =>
    ⟨by simp, by simpa using Ne.symm hslash, by simpa [Key.here] using hdot, by simp [Key.above]⟩
  simp only [List.mem_cons, List.not_mem_nil, or_false] at hkey
  rcases hkey with rfl | rfl | rfl | rfl <;> intro name hn <;>
    simp only [List.mem_cons, List.not_mem_nil, or_false] at hn
  · exact hn ▸ hname 'd' (by decide) (by decide)
  · rcases hn with rfl | rfl
    · exact hname 'd' (by decide) (by decide)
    · exact hname 'x' (by decide) (by decide)
  · exact hn ▸ hname 'l' (by decide) (by decide)

theorem straight_linkedFiles {path : Text} (h : segments path = [['l']]) : linkedFiles.Straight path := by
  intro directory target rest hs
  rw [h] at hs
  exact absurd (Except.ok.inj hs) (by simp)

/-- Deleting the link by its name removes the link. -/
theorem pruned_deleteRecursive_linked :
    let path := "/l".toList
    Layered linkedWorld 0 linkedRegistry ∧ linkedWorld.IsDisk (linkedWorld.owner 0 path) ∧
      linkedFiles.WellFormed ∧ linkedFiles.Proper ∧
      linkedFiles.Straight (nativePath linkedFiles path) ∧
      ¬ linkedFiles.ThroughLink (nativePath linkedFiles path) ∧
      ∃ fs, ((deleteRecursive 0 path true).outcome linkedWorld).2 = withFiles fs linkedWorld ∧
        Pruned (fun key => key = [['l']]) linkedFiles fs := by
  intro path
  have hstraight : linkedFiles.Straight (nativePath linkedFiles path) := straight_linkedFiles rfl
  have hthrough : ¬ linkedFiles.ThroughLink (nativePath linkedFiles path) :=
    fun h => absurd h.1 (by decide)
  have hentry : linkedFiles.entry? [['l']] = some (.link "/d".toList) := rfl
  obtain ⟨fs, hleft, -, hlink⟩ := pruned_deleteRecursive layered_linkedWorld (isDisk_linkedWorld path)
    wellFormed_linkedFiles proper_linkedFiles hstraight hthrough true
  exact ⟨layered_linkedWorld, isDisk_linkedWorld path, wellFormed_linkedFiles, proper_linkedFiles, hstraight,
    hthrough, fs, hleft, hlink rfl hentry⟩

/-- **A slash behind a link leads through it**: the file in the directory is deleted, and the link stays. -/
theorem not_forall_pruned_deleteRecursive :
    ¬ ∀ (world : World) (registry : Nat) (found : Registry) (path : Text) (tryOnly : Bool),
      Layered world registry found → world.IsDisk (world.owner registry path) →
      world.disk.fs.WellFormed → world.disk.fs.Proper →
      world.disk.fs.Straight (nativePath world.disk.fs path) →
        ∃ fs, ((deleteRecursive registry path tryOnly).outcome world).2 = withFiles fs world ∧
          Pruned (fun key => ∃ named, world.disk.fs.named? (nativePath world.disk.fs path) = some named ∧
            world.disk.fs.Holds named key) world.disk.fs fs := by
  intro hall
  obtain ⟨fs, hleft, hp⟩ := hall linkedWorld 0 linkedRegistry "/l/".toList false layered_linkedWorld
    (isDisk_linkedWorld _) wellFormed_linkedFiles proper_linkedFiles (straight_linkedFiles rfl)
  have hgone : ((deleteRecursive 0 "/l/".toList false).outcome linkedWorld).2.disk.fs.entry?
      [['d'], ['x']] = none := by rfl
  rw [hleft] at hgone
  rcases hp.entries [['d'], ['x']] with hsame | ⟨⟨named, hnamed, hholds⟩, -⟩
  · exact absurd (hsame.symm.trans hgone) (by decide)
  · obtain rfl : [['l']] = named := Option.some.inj hnamed
    have hentry : linkedFiles.entry? [['l']] = some (.link "/d".toList) := rfl
    exact absurd (hholds.eq_of_link hentry) (by decide)

end World

end FileRouter
