import FileRouter.Proofs.Store.DiskCopy
import FileRouter.Proofs.Store.DriveCopy
import FileRouter.World.Providers
/-!
Copying a file onto itself.

The two paths of a copy may lead to one provider and name one file there. Then the copy is refused when it
recognizes that, which is when both paths belong to one provider and have one canonical path. When it does not,
since the paths lead through different views, the target is opened for writing, and emptied, before the source
is read. A drive has handed out the bytes by then and gets them back, but the disk has not: there the file is
lost (`bytesAt_copy_iff`).
-/

namespace FileRouter.World

variable {world : World} {registry id : Nat} {source target inner inner' : Text}
  {chain chain' : List (Text × Bool)} {place : Place}

/-- What keeps a copy from emptying the file that it reads from: the file is on a drive, the target does not
name it, a read-only view is on the way of the target, or the copy recognizes that both paths name one file. -/
def Spared (world : World) (registry id : Nat) (source target : Text) (chain chain' : List (Text × Bool))
    (inner inner' : Text) : Prop :=
  (world.drive? id).isSome = true ∨ world.place? id inner' ≠ world.place? id inner ∨
    (∃ scheme, (scheme, true) ∈ chain') ∨
    world.Recognized registry id source target chain chain' inner inner'

theorem lt_length_of_bodyAt {disk : Disk} {path : Text} {body : Nat} (hw : disk.fs.WellFormed)
    (h : disk.bodyAt? path = some body) : body < disk.fs.bodies.length := by
  obtain ⟨-, -, hopen⟩ := Disk.bodyAt?_eq_some_iff.mp h
  obtain ⟨-, key, left, -, he⟩ := Disk.FileSystem.openBody_eq_ok_iff.mp hopen
  exact hw.bodies he

/-- A drive has handed out the bytes of the file before it is emptied. -/
theorem bytesAt_copy_drive {drive : Drive} {count : Int} (hfits : Fits count) (hcount : count ≠ 0)
    (hs : world.Leads registry source chain id inner) (ht : world.Leads registry target chain' id inner')
    (hd : world.drive? id = some drive) (hplace : world.place? id inner = some place) :
    ((copy registry source target count).outcome world).2.bytesAt id place = world.bytesAt id place := by
  obtain ⟨rfl, -⟩ := (place?_drive hd).mp hplace
  have hkept := nodeAt?_copy_source ⟨source, chain, id, inner, drive, hs.routed, hd⟩
    ⟨target, chain', id, inner', drive, ht.routed, hd⟩ hfits hcount
  rw [DrivePath.node?, ← nodeAt?_of_drive hd] at hkept
  exact congrArg (Option.getD · []) hkept

theorem bytesAt_copy_of_spared (hs : world.Leads registry source chain id inner)
    (ht : world.Leads registry target chain' id inner') (hw : world.disk.fs.WellFormed)
    (hplace : world.place? id inner = some place)
    (h : world.Spared registry id source target chain chain' inner inner') :
    ((copy registry source target Store.defaultChunk).outcome world).2.bytesAt id place =
      world.bytesAt id place := by
  rcases hs.isBase.cases with ⟨drive, hd⟩ | ⟨hd, hdisk⟩
  · exact bytesAt_copy_drive (by decide : Fits 8192) (by decide) hs ht hd hplace
  · obtain ⟨body, hbody, rfl⟩ := (place?_disk hd).mp hplace
    have hlt := lt_length_of_bodyAt hw hbody
    have hother := bytesOf_copy_of_other Store.defaultChunk hs ht hdisk hlt hbody
    -- If both names lead to one body, that body is not read, or the copy onto itself is recognized and refused.
    by_cases hsame : world.place? id inner' = some (.body body)
    · rcases h with hdrive | hplace' | hread | hrecognized
      · simp [hd] at hdrive
      · exact absurd (hsame.trans hplace.symm) hplace'
      · exact hother (Or.inr hread)
      · have hcheck := outcome_checkDistinct hs ht hplace hsame
        rw [if_pos hrecognized] at hcheck
        rw [outcome_copy_of_refused _ hcheck]
    · refine hother (Or.inl fun hbody' => hsame ?_)
      exact (place?_disk hd).mpr ⟨body, hbody', rfl⟩

theorem bytesAt_copy_of_not_spared (hs : world.Leads registry source chain id inner)
    (ht : world.Leads registry target chain' id inner') (hw : world.disk.fs.WellFormed)
    (hplace : world.place? id inner = some place)
    (h : ¬ world.Spared registry id source target chain chain' inner inner') :
    ((copy registry source target Store.defaultChunk).outcome world).2.bytesAt id place = [] := by
  -- all four ways of being spared are ruled out
  obtain ⟨hdrive, hsame, hread, hrecognized⟩ :
      ¬ (world.drive? id).isSome = true ∧ world.place? id inner' = world.place? id inner ∧
        (¬ ∃ scheme, (scheme, true) ∈ chain') ∧
        ¬ world.Recognized registry id source target chain chain' inner inner' := by
    simpa [Spared, not_or] using h
  rcases hs.isBase.cases with ⟨drive, hd⟩ | ⟨hd, hdisk⟩
  · simp [hd] at hdrive
  · obtain ⟨body, hbody, rfl⟩ := (place?_disk hd).mp hplace
    obtain ⟨body', hbody', hbodies⟩ := (place?_disk hd).mp (hsame.trans hplace)
    obtain rfl : body = body' := Place.body.inj hbodies
    have hcheck := outcome_checkDistinct hs ht hplace (hsame.trans hplace)
    rw [if_neg hrecognized] at hcheck
    exact bytesOf_copy_of_same 8192 hs ht hdisk hw hbody hbody' (fun scheme hm => hread ⟨scheme, hm⟩) hcheck

/-- **What a copy leaves of its source.** Where both paths of a copy lead to one provider, the file that the
source names keeps its bytes exactly when it is spared or empty, and otherwise loses all of them. -/
theorem bytesAt_copy_iff (hs : world.Leads registry source chain id inner)
    (ht : world.Leads registry target chain' id inner') (hw : world.disk.fs.WellFormed)
    (hplace : world.place? id inner = some place) :
    (((copy registry source target Store.defaultChunk).outcome world).2.bytesAt id place =
        world.bytesAt id place ↔
      world.Spared registry id source target chain chain' inner inner' ∨ world.bytesAt id place = []) ∧
      (¬ world.Spared registry id source target chain chain' inner inner' →
        ((copy registry source target Store.defaultChunk).outcome world).2.bytesAt id place = []) := by
  have hspared := bytesAt_copy_of_spared hs ht hw hplace
  have hemptied := bytesAt_copy_of_not_spared hs ht hw hplace
  refine ⟨⟨fun hkept => ?_, fun h => ?_⟩, hemptied⟩
  · by_cases h : world.Spared registry id source target chain chain' inner inner'
    · exact Or.inl h
    · exact Or.inr (hkept.symm.trans (hemptied h))
  · by_cases hs : world.Spared registry id source target chain chain' inner inner'
    · exact hspared hs
    · rw [hemptied hs, h.resolve_left hs]

/-! ### A read-only view of the disk -/

/-- A disk with one file, `/a`. -/
def oneFile : Disk where
  fs :=
    { entries := [([], .directory Disk.FileSystem.directoryMode 0), ([['a']], .file 0)]
      bodies := [⟨[120], Disk.FileSystem.fileMode, 0⟩]
      work := []
      home := "/".toList
      temp := "/".toList
      users := [] }
  files := []
  leftovers := []

/-- The disk as the fallback of a registry, and a read-only view of that registry as its member. -/
def viewed : World where
  providers :=
    [⟨Disk.scheme, .ownSchemeOrNone, none, .disk⟩, ⟨readOnlyScheme, .ownScheme, none, .view 0 true⟩]
  registries := [⟨[⟨1, readOnlyScheme, .ownScheme⟩], ⟨0, Disk.scheme, .ownSchemeOrNone⟩⟩]
  disk := oneFile
  streams := []
  clock := 0
  tokens := .counting []
  events := []

theorem leads_a : viewed.Leads 0 "/a".toList [] 0 "/a".toList := by
  have howner : viewed.owner 0 "/a".toList = 0 := by decide
  have hbase : viewed.IsBase 0 := ⟨_, rfl, Or.inl rfl⟩
  have hleads := @Leads.base viewed 0 "/a".toList
  rw [howner] at hleads
  exact hleads hbase

theorem leads_ro_a : viewed.Leads 0 "ro:/a".toList [(readOnlyScheme, true)] 0 "/a".toList := by
  have howner : viewed.owner 0 "ro:/a".toList = 1 := by decide
  have hstrip : Scheme.strip "ro:/a".toList readOnlyScheme = "/a".toList := by decide
  have hview : viewed.provider? (viewed.owner 0 "ro:/a".toList) =
      some ⟨readOnlyScheme, .ownScheme, none, .view 0 true⟩ := by
    rw [howner]
    rfl
  refine .view hview ?_
  rw [hstrip]
  exact leads_a

theorem entries_oneFile (key : Key) :
    oneFile.fs.entry? key =
      if [] = key then some (.directory Disk.FileSystem.directoryMode 0)
      else if [['a']] = key then some (.file 0)
      else none := by
  show KeyMap.get? [_, _] key = _
  rw [KeyMap.get?_cons, KeyMap.get?_cons]
  rfl

theorem wellFormed_oneFile : oneFile.fs.WellFormed := by
  refine ⟨⟨by simp [KeyMap.Distinct, oneFile], ⟨_, rfl, rfl⟩, fun {key value} h hne => ?_⟩,
    fun {key body} h => ?_⟩
  · change oneFile.fs.entry? key = some value at h
    rw [entries_oneFile] at h
    split_ifs at h with hroot hfile
    · exact absurd hroot.symm hne
    · exact hfile ▸ ⟨_, rfl, rfl⟩
  · rw [entries_oneFile] at h
    split_ifs at h
    · simp at h
    · simp only [Option.some.injEq, Disk.Entry.file.injEq] at h
      exact h ▸ Nat.one_pos

theorem place?_a : viewed.place? 0 "/a".toList = some (.body 0) := by
  decide

theorem not_spared_viewed :
    ¬ viewed.Spared 0 0 "ro:/a".toList "/a".toList [(readOnlyScheme, true)] [] "/a".toList "/a".toList := by
  have howner : viewed.owner 0 "/a".toList ≠ viewed.owner 0 "ro:/a".toList := by decide
  rintro (hdrive | hplace | ⟨scheme, hread⟩ | hrecognized)
  · exact absurd hdrive (by decide)
  · exact hplace rfl
  · simp at hread
  · exact howner hrecognized.1

/-- Copying a file through the view onto itself empties it. -/
theorem bytesAt_copy_viewed :
    viewed.Leads 0 "ro:/a".toList [(readOnlyScheme, true)] 0 "/a".toList ∧
      viewed.Leads 0 "/a".toList [] 0 "/a".toList ∧ viewed.disk.fs.WellFormed ∧
      viewed.place? 0 "/a".toList = some (.body 0) ∧ viewed.bytesAt 0 (.body 0) = [120] ∧
      ((copy 0 "ro:/a".toList "/a".toList Store.defaultChunk).outcome viewed).2.bytesAt 0 (.body 0) = [] :=
  ⟨leads_ro_a, leads_a, wellFormed_oneFile, place?_a, rfl,
    (bytesAt_copy_iff leads_ro_a leads_a wellFormed_oneFile place?_a).2 not_spared_viewed⟩

/-- Not every file survives being copied onto itself. -/
theorem not_forall_bytesAt_copy :
    ¬ ∀ {world : World} {registry id : Nat} {source target inner inner' : Text}
      {chain chain' : List (Text × Bool)} {place : Place},
      world.Leads registry source chain id inner → world.Leads registry target chain' id inner' →
      world.disk.fs.WellFormed → world.place? id inner = some place →
      world.place? id inner' = some place →
      world.canonicalAt id inner = world.canonicalAt id inner' →
      ((copy registry source target Store.defaultChunk).outcome world).2.bytesAt id place =
        world.bytesAt id place := by
  intro h
  have hkept := h leads_ro_a leads_a wellFormed_oneFile place?_a place?_a rfl
  rw [bytesAt_copy_of_not_spared leads_ro_a leads_a wellFormed_oneFile place?_a not_spared_viewed] at hkept
  exact absurd hkept (by decide)

end FileRouter.World
