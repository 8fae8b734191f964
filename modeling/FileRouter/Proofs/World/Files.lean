import FileRouter.Proofs.Disk.Opening
import FileRouter.Proofs.Memory.Handle
import FileRouter.Proofs.World.Views
/-!
The files of the providers that serve paths themselves.

A path names a file at a place: a key of a drive or a body of the disk. What requests and handles do to such a
file is said here for worlds, from what they do to the drive or to the disk; the paths lead where they did
before (`SameWays`).
-/

namespace FileRouter.World

variable {world world' : World} {registry id : Nat} {path : Text}

/-- Whether the disk stands behind a provider. -/
def IsDisk (world : World) (id : Nat) : Prop :=
  ∃ scheme claim label, world.provider? id = some ⟨scheme, claim, label, .disk⟩

theorem IsBase.cases (h : world.IsBase id) :
    (∃ drive, world.drive? id = some drive) ∨ (world.drive? id = none ∧ world.IsDisk id) := by
  obtain ⟨⟨scheme, claim, label, backing⟩, hp, rfl | ⟨drive, rfl⟩⟩ := h
  · exact Or.inr ⟨by rw [drive?, hp], scheme, claim, label, hp⟩
  · exact Or.inl ⟨drive, drive?_eq_some_iff.mpr ⟨scheme, claim, label, hp⟩⟩

/-! ### Places -/

/-- Where a provider keeps a file: under a key of its drive, or in a body of the disk. -/
inductive Place where
  | entry (key : Key)
  | body (index : Nat)
  deriving Repr, DecidableEq

/-- The place of the file that a path names at a provider that serves it. -/
def place? (world : World) (id : Nat) (path : Text) : Option Place :=
  match world.drive? id with
  | some drive =>
    match drive.node? path with
    | some node => if node.isDirectory then none else some (.entry (drive.keyOf path))
    | none => none
  | none => (world.disk.bodyAt? path).map .body

/-- The bytes of the file at a place. -/
def bytesAt (world : World) (id : Nat) (place : Place) : Bytes :=
  match place with
  | .entry key => (((world.drive? id).bind fun drive => drive.tree.get? key).map Node.bytes).getD []
  | .body index => world.disk.fs.bytesOf index

/-- The canonical path that a provider gives for a path that it serves. -/
def canonicalAt (world : World) (id : Nat) (path : Text) : Text :=
  match world.drive? id with
  | some drive => drive.pathOf (drive.keyOf path)
  | none => world.disk.fs.canonical (Disk.nativePath world.disk.fs path)

theorem place?_drive {drive : Drive} {place : Place} (hd : world.drive? id = some drive) :
    world.place? id path = some place ↔ place = .entry (drive.keyOf path) ∧
      ∃ node, drive.tree.get? (drive.keyOf path) = some node ∧ node.isDirectory = false := by
  rw [place?, hd]
  simp only [Drive.node?]
  cases drive.tree.get? (drive.keyOf path) with
  | none => simp
  | some node =>
    simp only [Option.some.injEq, exists_eq_left']
    cases node.isDirectory with
    | true => simp
    | false => simpa using eq_comm

theorem place?_disk {place : Place} (hd : world.drive? id = none) :
    world.place? id path = some place ↔
      ∃ body, world.disk.bodyAt? path = some body ∧ place = .body body := by
  rw [place?, hd]
  simp only [Option.map_eq_some_iff]
  exact exists_congr fun body => and_congr_right fun _ => eq_comm

/-! ### Requests -/

/-- The world with another disk. -/
def withDisk (disk : Disk) (world : World) : World := { world with disk }

theorem outcome_direct_memory {drive : Drive} (hd : world.drive? id = some drive) (request : Request) :
    (direct id request).outcome world =
      let out := (Drive.perform (millis world.clock) request).outcome (drive, world.tokens)
      (out.1.map (request.mapHandle (.memory id)),
        { withDrive id out.2.1 world with tokens := out.2.2 }) :=
  outcome_performWithin_memory 0 .all request hd

theorem outcome_direct_disk (hd : world.IsDisk id) (request : Request) :
    (direct id request).outcome world =
      let out := (Disk.perform request).outcome (world.disk, world.tokens)
      (out.1.map (request.mapHandle .disk), { withDisk out.2.1 world with tokens := out.2.2 }) := by
  obtain ⟨scheme, claim, label, hp⟩ := hd
  rw [direct, performWithin, Call.outcome_bind, Call.outcome_get]
  simp only [hp]
  rw [Call.outcome_map]
  rfl

/-- A handle of the disk works on the disk. -/
theorem outcome_onHandle_disk (index : Nat) (request : StreamRequest) (world : World) :
    (onHandle (.disk index) request).outcome world =
      (((Disk.onFile index request).outcome world.disk).1,
        withDisk ((Disk.onFile index request).outcome world.disk).2 world) :=
  rfl

/-- A handle of a drive works on the drive. -/
theorem outcome_onHandle_memory {drive : Drive} (hd : world.drive? id = some drive) (index : Nat)
    (request : StreamRequest) :
    (onHandle (.memory id index) request).outcome world =
      (((Drive.onFile (millis world.clock) index request).outcome drive).1,
        withDrive id ((Drive.onFile (millis world.clock) index request).outcome drive).2 world) := by
  rw [onHandle, Call.outcome_bind, Call.outcome_get]
  simp only [hd]
  rfl

/-! ### Ways -/

/-- Two worlds in which every path takes the same way. -/
structure SameWays (world world' : World) : Prop where
  owner : ∀ registry path, world'.owner registry path = world.owner registry path
  view : ∀ {id registry : Nat} {scheme : Text} {claim : Claim} {label : Option Text} {readOnly : Bool},
    world.provider? id = some ⟨scheme, claim, label, .view registry readOnly⟩ →
      world'.provider? id = some ⟨scheme, claim, label, .view registry readOnly⟩
  base : ∀ {id : Nat}, world.IsBase id → world'.IsBase id

theorem sameWays_withDisk (disk : Disk) (world : World) : SameWays world (withDisk disk world) :=
  ⟨fun _ _ => rfl, fun h => h, fun h => h⟩

theorem sameWays_withDrive {drive : Drive} (hd : world.drive? id = some drive) (drive' : Drive) :
    SameWays world (withDrive id drive' world) := by
  obtain ⟨scheme, claim, label, hp⟩ := drive?_eq_some_iff.mp hd
  rw [provider?] at hp
  have hother : ∀ {other : Nat}, id ≠ other →
      (withDrive id drive' world).provider? other = world.provider? other := by
    intro other hne
    simp [provider?, withDrive, setBacking, hne]
  refine ⟨fun registry path => ?_, fun {other _ _ _ _ _} h => ?_, fun {other} h => ?_⟩
  · simp [owner, owner?, withDrive, setBacking]
  · rw [hother, h]
    rintro rfl
    rw [provider?, hp] at h
    simp at h
  · -- the drive that is replaced is still a drive
    by_cases he : id = other
    · subst he
      refine ⟨⟨scheme, claim, label, .memory drive'⟩, ?_, Or.inr ⟨drive', rfl⟩⟩
      simp [provider?, withDrive, setBacking, hp]
    · obtain ⟨provider, hprovider, hbacking⟩ := h
      exact ⟨provider, (hother he).trans hprovider, hbacking⟩

/-- A provider hands a path on in the same way in both worlds. -/
theorem Routed.of_sameWays {base : Nat} {chain : List (Text × Bool)} {inner : Text} (hs : SameWays world world')
    (h : Routed world id path chain base inner) : Routed world' id path chain base inner := by
  induction h with
  | base hb => exact .base (hs.base hb)
  | view hp _ ih =>
    rw [← hs.owner] at ih
    exact .view (hs.view hp) ih

/-- A path takes the same way in both worlds. -/
theorem Leads.of_sameWays {chain : List (Text × Bool)} {inner : Text} (hs : SameWays world world')
    (h : Leads world registry path chain id inner) : Leads world' registry path chain id inner := by
  induction h with
  | @base path hb =>
    have hbase : world'.IsBase (world'.owner registry path) := by
      rw [hs.owner]
      exact hs.base hb
    rw [← hs.owner]
    exact .base hbase
  | @view path scheme inner claim label readOnly chain id hp _ ih =>
    have hview := hs.view hp
    rw [← hs.owner registry path] at hview
    exact .view hview ih

end FileRouter.World
