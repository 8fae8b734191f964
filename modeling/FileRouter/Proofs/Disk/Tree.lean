import FileRouter.Disk.FileSystem
import FileRouter.Proofs.Rooted
import Mathlib.Logic.Relation
/-!
File systems whose entries form a tree.

A file system is well formed when its entries are rooted in its directories and every file has a body, and proper
when all entries have names. `Step` lists everything that the operating system can do to a file system: make an
entry in a directory, replace one by another of its kind, write to a body, remove an entry that nothing lies below,
and carry one to a free place. Every step keeps a file system well formed (`Step.wellFormed`) and proper
(`Step.proper`).
-/

namespace FileRouter.Disk

/-- Whether an entry is a directory. -/
def Entry.isDirectory : Entry → Bool
  | .directory _ _ => true
  | _ => false

namespace FileSystem

open KeyMap

/-- The entries form a tree of directories, and every file has a body. -/
structure WellFormed (fs : FileSystem) : Prop where
  rooted : Rooted Entry.isDirectory fs.entries
  bodies : ∀ {key : Key} {body : Nat}, fs.entry? key = some (.file body) → body < fs.bodies.length

/-- The entries have names that a path can give them. -/
def Proper (fs : FileSystem) : Prop := ∀ {key : Key} {entry : Entry}, fs.entry? key = some entry → key.Proper

variable {fs fs' : FileSystem} {key : Key}

/-- A place for an entry: a name in a directory. -/
structure IsPlace (fs : FileSystem) (key : Key) : Prop where
  parent : fs.isDirectory key.parent = true
  name : ∀ name ∈ key.getLast?, Key.IsName name

/-- A place where nothing is yet. -/
structure IsFree (fs : FileSystem) (key : Key) : Prop extends fs.IsPlace key where
  nothing : fs.entry? key = none

theorem isDirectory_iff : fs.isDirectory key = true ↔ HasDir Entry.isDirectory fs.entries key := by
  rw [isDirectory, HasDir, entry?]
  cases fs.entries.get? key with
  | none => simp
  | some entry => cases entry <;> simp [Entry.isDirectory]

theorem entry?_of_isDirectory (h : fs.isDirectory key = true) :
    ∃ mode modified, fs.entry? key = some (.directory mode modified) := by
  rw [isDirectory] at h
  split at h
  next mode modified he => exact ⟨mode, modified, he⟩
  next => simp at h

/-- A directory is no file. -/
theorem not_file_of_isDirectory {body : Nat} (h : fs.isDirectory key = true) :
    fs.entry? key ≠ some (.file body) := by
  obtain ⟨mode, modified, he⟩ := entry?_of_isDirectory h
  rw [he]
  simp

theorem mem_chain {other : Key} : other ∈ chain key ↔ other <+: key := by
  rw [chain, List.mem_map]
  constructor
  · rintro ⟨n, -, rfl⟩
    exact List.take_prefix n key
  · intro hp
    exact ⟨other.length, List.mem_range.mpr (Nat.lt_succ_of_le hp.length_le),
      (List.prefix_iff_eq_take.mp hp).symm⟩

theorem nodup_chain (key : Key) : (chain key).Nodup := by
  refine List.Nodup.map_on (fun m hm n hn he => ?_) List.nodup_range
  have hlen : (key.take m).length = (key.take n).length := by rw [he]
  rw [List.length_take, List.length_take] at hlen
  rw [List.mem_range] at hm hn
  omega

theorem entryAt_put (key other : Key) (entry : Entry) :
    FileSystem.entry? (fs.put key entry) other = if other = key then some entry else fs.entry? other :=
  get?_put fs.entries key other entry

theorem entryAt_remove (key other : Key) :
    FileSystem.entry? (fs.remove key) other = if other = key then none else fs.entry? other :=
  get?_erase fs.entries key other

theorem bytesOf_changeBody (index other : Nat) (f : Body → Body) :
    (fs.changeBody index f).bytesOf other =
      if index = other then ((fs.body? other).map fun body => (f body).bytes).getD []
      else fs.bytesOf other := by
  rw [bytesOf, bytesOf, body?, body?, changeBody, List.getElem?_modify]
  by_cases he : index = other
  · rw [if_pos he]
    cases fs.bodies[other]? <;> simp [he]
  · rw [if_neg he]
    cases fs.bodies[other]? <;> simp [he]

theorem bytesOf_addFile_of_lt {body : Nat} (h : body < fs.bodies.length) (key : Key) (mode : Nat) :
    (fs.addFile key mode).2.bytesOf body = fs.bytesOf body := by
  rw [bytesOf, bytesOf, body?, body?, addFile]
  simp only
  rw [List.getElem?_append_left h]

namespace WellFormed

theorem root (h : fs.WellFormed) : fs.isDirectory [] = true :=
  isDirectory_iff.mpr h.rooted.root

theorem parents (h : fs.WellFormed) (he : (fs.entry? key).isSome = true) :
    fs.isDirectory key.parent = true := by
  obtain ⟨entry, hentry⟩ := Option.isSome_iff_exists.mp he
  by_cases hk : key = []
  · subst hk
    exact h.root
  · exact isDirectory_iff.mpr (h.rooted.parents hentry hk)

/-- A fresh host has directories only, with their parents. -/
theorem fresh (work : Key) : (FileSystem.fresh work).WellFormed := by
  refine ⟨Rooted.of_keys ?_ ?_ ?_ rfl, fun {key body} hf => ?_⟩
  · -- the two places are longer than the directories above them
    refine List.nodup_append.mpr ⟨nodup_chain work, by simp, fun key hk other ho => ?_⟩
    have hlen := (mem_chain.mp hk).length_le
    rintro rfl
    rcases List.mem_pair.mp ho with rfl | rfl
    all_goals
      rw [List.length_append, List.length_singleton] at hlen
      omega
  · exact List.mem_append_left _ (mem_chain.mpr List.nil_prefix)
  · intro key hk _
    refine List.mem_append_left _ (mem_chain.mpr ?_)
    rcases List.mem_append.mp hk with hk | hk
    · exact (List.dropLast_prefix key).trans (mem_chain.mp hk)
    · have hparent : key.parent = work := by
        rcases List.mem_pair.mp hk with rfl | rfl <;> exact Key.parent_append_singleton work _
      exact hparent ▸ List.prefix_rfl
  · change get? (List.map _ _) key = _ at hf
    rw [get?_map_key] at hf
    split at hf <;> simp at hf

/-- Where no directory is, or an empty one, nothing lies below. -/
theorem bareAt (h : fs.WellFormed) (hk : fs.isDirectory key = true → fs.entries.isEmptyAt key = true) :
    BareAt fs.entries key :=
  h.rooted.bareAt fun hg hdir => hk (isDirectory_iff.mpr ⟨_, hg, hdir⟩)

/-- A new entry in a directory. -/
theorem put_new (h : fs.WellFormed) (hfree : fs.IsFree key) {entry : Entry}
    (hentry : ∀ {body : Nat}, entry = .file body → body < fs.bodies.length) :
    (fs.put key entry).WellFormed := by
  refine ⟨h.rooted.put_new hfree.nothing (isDirectory_iff.mp hfree.parent) entry, fun {key body} hf => ?_⟩
  rw [entryAt_put] at hf
  split at hf
  · exact hentry (Option.some.inj hf)
  · exact h.bodies hf

/-- A new file in a directory. -/
theorem addFile (h : fs.WellFormed) (hfree : fs.IsFree key) (mode : Nat) :
    (fs.addFile key mode).2.WellFormed := by
  refine ⟨h.rooted.put_new hfree.nothing (isDirectory_iff.mp hfree.parent) (.file fs.bodies.length),
    fun {other body} hf => ?_⟩
  show body < (fs.bodies ++ [_]).length
  rw [List.length_append, List.length_singleton]
  change FileSystem.entry? (fs.put key (.file fs.bodies.length)) other = _ at hf
  rw [entryAt_put] at hf
  split at hf
  · obtain rfl : fs.bodies.length = body := by simpa using hf
    omega
  · have hlt := h.bodies hf
    omega

/-- A directory with other permission bits, or another time. -/
theorem put_directory (h : fs.WellFormed) {mode : Nat} {modified : Int}
    (hg : fs.entry? key = some (.directory mode modified)) (mode' : Nat) (modified' : Int) :
    (fs.put key (.directory mode' modified')).WellFormed := by
  refine ⟨h.rooted.put_same hg rfl, fun {other body} hf => ?_⟩
  rw [entryAt_put] at hf
  split at hf
  · simp at hf
  · exact h.bodies hf

/-- A file system with another body in the place of one. -/
theorem changeBody (h : fs.WellFormed) (index : Nat) (f : Body → Body) :
    (fs.changeBody index f).WellFormed := by
  refine ⟨h.rooted, fun hf => ?_⟩
  show _ < (fs.bodies.modify index f).length
  rw [List.length_modify]
  exact h.bodies hf

/-- A file system without an entry that nothing lies below. -/
theorem remove (h : fs.WellFormed) (hne : key ≠ []) (hb : BareAt fs.entries key) :
    (fs.remove key).WellFormed := by
  refine ⟨h.rooted.erase hne hb, fun {other body} hf => ?_⟩
  rw [entryAt_remove] at hf
  split at hf
  · simp at hf
  · exact h.bodies hf

/-- A file system in which an entry has been carried, with all below it, to a free place. -/
theorem relocate (h : fs.WellFormed) {source target : Key} {entry : Entry}
    (hs : fs.entry? source = some entry) (hroot : source ≠ []) (hout : ¬ source <+: target)
    (hp : fs.isDirectory target.parent = true) (hb : BareAt fs.entries target) :
    (fs.relocate source target).WellFormed := by
  refine ⟨h.rooted.rename hs hroot hout (isDirectory_iff.mp hp) hb, fun {key body} hf => ?_⟩
  rcases get?_rename_cases h.rooted.distinct hb hf with ⟨rest, -, ho⟩ | ⟨-, -, ho⟩
  · exact h.bodies ho
  · exact h.bodies ho

end WellFormed

/-! ### Names -/

namespace Proper

theorem fresh {work : Key} (h : work.Proper) : (FileSystem.fresh work).Proper := by
  intro key entry he
  change get? (List.map _ _) key = _ at he
  rw [get?_map_key] at he
  split_ifs at he with hkey
  rcases List.mem_append.mp hkey with hkey | hkey
  · exact fun name hn => h name ((mem_chain.mp hkey).subset hn)
  · rcases List.mem_pair.mp hkey with rfl | rfl
    · exact Key.proper_append.mpr ⟨h, Key.proper_singleton ⟨by decide, by decide, by decide, by decide⟩⟩
    · exact Key.proper_append.mpr ⟨h, Key.proper_singleton ⟨by decide, by decide, by decide, by decide⟩⟩

/-- A place for an entry gives it a key of names. -/
theorem place (h : fs.Proper) (hplace : fs.IsPlace key) : key.Proper := by
  obtain ⟨mode, modified, hparent⟩ := entry?_of_isDirectory hplace.parent
  rcases List.eq_nil_or_concat key with rfl | ⟨directory, last, rfl⟩
  · exact Key.proper_nil
  · have hname := hplace.name
    rw [List.concat_eq_append] at hparent hname ⊢
    rw [Key.parent_append_singleton] at hparent
    exact Key.proper_append.mpr ⟨h hparent, Key.proper_singleton (hname last (by simp))⟩

theorem put (h : fs.Proper) (hk : key.Proper) (entry : Entry) : (fs.put key entry).Proper := by
  intro other found hf
  rw [entryAt_put] at hf
  split_ifs at hf with he
  · exact he ▸ hk
  · exact h hf

theorem remove (h : fs.Proper) (key : Key) : (fs.remove key).Proper := by
  intro other found hf
  rw [entryAt_remove] at hf
  split_ifs at hf
  exact h hf

theorem relocate (h : fs.Proper) (hw : fs.WellFormed) {source target : Key} (ht : target.Proper)
    (hb : BareAt fs.entries target) : (fs.relocate source target).Proper := by
  intro key found hf
  rcases get?_rename_cases hw.rooted.distinct hb hf with ⟨rest, rfl, ho⟩ | ⟨-, -, ho⟩
  · exact Key.proper_append.mpr ⟨ht, (Key.proper_append.mp (h ho)).2⟩
  · exact h ho

end Proper

/-! ### Steps -/

/-- What one change does to a file system, if anything. -/
inductive Step (fs : FileSystem) : FileSystem → Prop
  | idle : Step fs fs
  | made {key : Key} {entry : Entry} : fs.IsFree key → (∀ {body : Nat}, entry ≠ .file body) →
      Step fs (fs.put key entry)
  | madeFile {key : Key} (mode : Nat) : fs.IsFree key → Step fs (fs.addFile key mode).2
  | marked {key : Key} {mode : Nat} {modified : Int} (mode' : Nat) (modified' : Int) :
      fs.entry? key = some (.directory mode modified) → Step fs (fs.put key (.directory mode' modified'))
  | written (body : Nat) (f : Body → Body) : Step fs (fs.changeBody body f)
  | removed {key : Key} : key ≠ [] → (fs.isDirectory key = true → fs.entries.isEmptyAt key = true) →
      Step fs (fs.remove key)
  | moved {source target : Key} {entry : Entry} : fs.entry? source = some entry → source ≠ [] →
      ¬ source <+: target → fs.IsPlace target →
      (fs.isDirectory target = true → fs.entries.isEmptyAt target = true) →
      Step fs (fs.relocate source target)

/-- Every change keeps a file system well formed. -/
theorem Step.wellFormed (hstep : fs.Step fs') (h : fs.WellFormed) : fs'.WellFormed := by
  cases hstep with
  | idle => exact h
  | made hfree hentry => exact h.put_new hfree fun he => absurd he hentry
  | madeFile mode hfree => exact h.addFile hfree mode
  | marked mode modified hentry => exact h.put_directory hentry mode modified
  | written body f => exact h.changeBody body f
  | removed hne hempty => exact h.remove hne (h.bareAt hempty)
  | moved hs hne hout hplace hempty => exact h.relocate hs hne hout hplace.parent (h.bareAt hempty)

/-- Every change gives entries names only. -/
theorem Step.proper (hstep : fs.Step fs') (hw : fs.WellFormed) (h : fs.Proper) : fs'.Proper := by
  cases hstep with
  | idle => exact h
  | made hfree _ => exact h.put (h.place hfree.toIsPlace) _
  | madeFile mode hfree => exact h.put (h.place hfree.toIsPlace) _
  | marked mode modified hentry => exact h.put (h hentry) _
  | written body f => exact h
  | removed _ _ => exact h.remove _
  | moved _ _ _ hplace hempty => exact h.relocate hw (h.place hplace) (hw.bareAt hempty)

theorem wellFormed_of_steps (hsteps : Relation.ReflTransGen Step fs fs') (h : fs.WellFormed) :
    fs'.WellFormed := by
  induction hsteps with
  | refl => exact h
  | tail _ hstep ih => exact hstep.wellFormed ih

theorem proper_of_steps (hsteps : Relation.ReflTransGen Step fs fs') (hw : fs.WellFormed) (h : fs.Proper) :
    fs'.Proper := by
  induction hsteps with
  | refl => exact h
  | tail hbefore hstep ih => exact hstep.proper (wellFormed_of_steps hbefore hw) ih

end FileSystem

end FileRouter.Disk
