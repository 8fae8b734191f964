import FileRouter.Proofs.Disk.Opening
import FileRouter.Proofs.Disk.Path
/-!
Canonical paths on the disk.

Every canonical path begins with a slash (`head?_canonical`). On an inhabited disk, where the working directory is
there and the homes can be taken as paths, every path without a NUL has one (`outcome_canonicalPath_of_inhabited`).
-/

namespace FileRouter.Disk

open FileSystem NativePath

variable {fs : FileSystem} {disk : Disk} {path : Text}

/-- A working directory that is there, and homes that the operating system takes as paths. -/
structure Inhabited (fs : FileSystem) : Prop where
  work : fs.isDirectory fs.work = true
  home : '\x00' ∉ fs.home
  users : ∀ user ∈ fs.users, '\x00' ∉ user.2

theorem head?_toText (key : Key) : key.toText.head? = some '/' := by
  cases key <;> rfl

theorem head?_canonical (fs : FileSystem) (native : Text) : (fs.canonical native).head? = some '/' := by
  rw [canonical, absolute]
  split_ifs
  · rfl
  · exact head?_toText _

theorem mem_of_mem_strip {scheme : Text} {c : Char} (h : c ∈ Scheme.strip path scheme) : c ∈ path := by
  rw [Scheme.strip] at h
  split_ifs at h
  · exact List.mem_of_mem_drop h
  · exact h

theorem hasBadUser_of_notMem (h : '\x00' ∉ path) : hasBadUser path = false := by
  have hstrip : '\x00' ∉ Scheme.strip path scheme := fun hm => h (mem_of_mem_strip hm)
  rw [hasBadUser]
  split
  next rest hrest =>
    rw [List.contains_eq_mem, decide_eq_false_iff_not]
    rw [hrest] at hstrip
    exact fun hm => hstrip (List.mem_cons_of_mem _ ((List.takeWhile_prefix _).subset hm))
  next => rfl

theorem Inhabited.homeOf (h : Inhabited fs) {user home : Text} (hu : homeOf? fs user = some home) :
    '\x00' ∉ home := by
  rcases homeOf?_cases hu with rfl | ⟨entry, hm, rfl⟩
  · exact h.home
  · exact h.users entry hm

theorem Inhabited.notMem_nativePath (h : Inhabited fs) (hp : '\x00' ∉ path) : '\x00' ∉ nativePath fs path := by
  have hstrip : '\x00' ∉ Scheme.strip path scheme := fun hm => hp (mem_of_mem_strip hm)
  rw [nativePath]
  rcases expanded_cases fs (Scheme.strip path scheme) with ⟨hsame, -⟩ | ⟨user, home, -, hhome, hin⟩
  · rwa [hsame]
  · rw [hin, inHome]
    split_ifs
    · decide
    · rw [List.mem_append, not_or]
      exact ⟨fun hm => h.homeOf hhome ((Text.prefix_dropTrailing '/' home).subset hm),
        fun hm => hstrip (((List.dropWhile_suffix _).trans (List.tail_suffix _)).subset hm)⟩

/-- On an inhabited disk every path without a NUL has a canonical path. -/
theorem outcome_canonicalPath_of_inhabited (h : Inhabited disk.fs) (hp : '\x00' ∉ path) :
    (canonicalPath path).outcome disk = (.ok (disk.fs.canonical (nativePath disk.fs path)), disk) := by
  refine outcome_canonicalPath_of_taken (hasBadUser_of_notMem hp) (h.notMem_nativePath hp) ?_
  rw [isStranded, h.work]
  simp

end FileRouter.Disk
