import FileRouter.Proofs.Memory.Drive
import FileRouter.Proofs.Registry
import FileRouter.World.Stores
/-!
Requests that a registry hands to a drive.

A registry `Serves` a provider under a scheme when the provider is one of its members. A request for a path
with that scheme then does to the drive of the provider what the drive itself would do, and nothing to the
rest of the world (`outcome_perform`).
-/

namespace FileRouter.World

/-- The world with another drive behind a provider. -/
def withDrive (id : Nat) (drive : Drive) (world : World) : World :=
  setBacking id (.memory drive) world

variable {world : World} {registry id : Nat} {drive : Drive}

theorem drive?_eq_some_iff :
    world.drive? id = some drive ↔
      ∃ scheme claim label, world.provider? id = some ⟨scheme, claim, label, .memory drive⟩ := by
  rw [drive?]
  constructor
  · intro h
    split at h
    next scheme claim label drive' hp =>
      obtain rfl := Option.some.inj h
      exact ⟨scheme, claim, label, hp⟩
    next => simp at h
  · rintro ⟨scheme, claim, label, hp⟩
    rw [hp]

theorem mem_drives (hd : world.drive? id = some drive) : drive ∈ world.drives := by
  obtain ⟨scheme, claim, label, hp⟩ := drive?_eq_some_iff.mp hd
  exact List.mem_filterMap.mpr ⟨_, List.mem_of_getElem? hp, rfl⟩

/-! ### Bounds -/

/-- There are more levels than any drive has entries. -/
theorem length_lt_levels (hd : world.drive? id = some drive) : drive.tree.length < world.levels := by
  have hle : drive.tree.length ≤ total (fun drive => drive.tree.length) world.drives :=
    le_total_of_mem (fun drive => drive.tree.length) (mem_drives hd)
  rw [levels]
  omega

/-- There are more chunks than any file of a drive has bytes. -/
theorem length_lt_volume {key : Key} {node : Node} (hd : world.drive? id = some drive)
    (hg : drive.tree.get? key = some node) : node.bytes.length < world.volume := by
  have hnode : node.bytes.length ≤ drive.tree.volume :=
    le_total_of_mem (fun entry : Key × Node => entry.2.bytes.length) (KeyMap.mem_of_get? hg)
  have htree : drive.tree.volume ≤ total (fun drive => drive.tree.volume) world.drives :=
    le_total_of_mem (fun drive => drive.tree.volume) (mem_drives hd)
  rw [volume]
  omega

/-- A request gets at least as far as the owner of its path. -/
theorem exists_handOverLimit (world : World) (path : Text) : ∃ limit, world.handOverLimit path = limit + 1 :=
  Nat.exists_eq_succ_of_ne_zero (Nat.mul_ne_zero (Nat.succ_ne_zero _) (Nat.succ_ne_zero _))

/-- There are more steps than a path and the home that it may lead to have slashes. -/
theorem count_add_homes_le_climb (world : World) (path : Text) :
    path.count '/' + (world.disk.fs.home.length + total (fun user => user.2.length) world.disk.fs.users) + 8 ≤
      world.climb path := by
  rw [climb, Nat.add_mul, Nat.one_mul]
  exact Nat.le_trans (by omega) (Nat.le_add_left _ _)

/-- There are more steps than a path has slashes. -/
theorem count_add_le_climb (world : World) (path : Text) : path.count '/' + 8 ≤ world.climb path := by
  have hclimb := count_add_homes_le_climb world path
  omega

/-! ### Changing a drive -/

@[simp] theorem withDrive_withDrive (first second : Drive) :
    withDrive id second (withDrive id first world) = withDrive id second world := by
  simp only [withDrive, setBacking, List.modify_modify_eq]
  rfl

@[simp] theorem registries_withDrive : (withDrive id drive world).registries = world.registries := rfl

@[simp] theorem clock_withDrive : (withDrive id drive world).clock = world.clock := rfl

@[simp] theorem tokens_withDrive : (withDrive id drive world).tokens = world.tokens := rfl

/-- Putting back the drive that is there changes nothing. -/
theorem withDrive_self (h : world.drive? id = some drive) : withDrive id drive world = world := by
  obtain ⟨scheme, claim, label, hp⟩ := drive?_eq_some_iff.mp h
  have hproviders : world.providers.modify id (fun provider => { provider with backing := .memory drive }) =
      world.providers := by
    refine List.ext_getElem? fun other => ?_
    rw [List.getElem?_modify]
    by_cases he : id = other
    · subst he
      rw [provider?] at hp
      simp [hp]
    · simp [he]
  rw [withDrive, setBacking, hproviders]

theorem drive?_withDrive {other : Drive} (h : world.drive? id = some other) :
    (withDrive id drive world).drive? id = some drive := by
  obtain ⟨scheme, claim, label, hp⟩ := drive?_eq_some_iff.mp h
  refine drive?_eq_some_iff.mpr ⟨scheme, claim, label, ?_⟩
  rw [provider?] at hp
  simp [provider?, withDrive, setBacking, hp]

/-! ### Who serves a path -/

/-- The registry with a number has the provider with a number as the member for a scheme, and its members
claim paths by their schemes. -/
def Serves (world : World) (registry id : Nat) (scheme : Text) : Prop :=
  ∃ found member, world.registries[registry]? = some found ∧ found.Keyed ∧ found.ByScheme ∧
    member ∈ found.members ∧ member.id = id ∧ member.scheme = scheme

theorem Serves.withDrive {scheme : Text} (h : world.Serves registry id scheme) (drive : Drive) :
    (World.withDrive id drive world).Serves registry id scheme := h

/-- A served scheme is valid. -/
theorem Serves.isValid {scheme : Text} (h : world.Serves registry id scheme) :
    Scheme.isValid scheme = true := by
  obtain ⟨found, member, -, hk, -, hm, -, rfl⟩ := h
  exact hk.valid hm

theorem Serves.owner {scheme path : Text} (h : world.Serves registry id scheme)
    (hp : Scheme.has path scheme = true) : world.owner registry path = id := by
  obtain ⟨found, member, hr, hk, hc, hm, rfl, rfl⟩ := h
  rw [World.owner, owner?, hr]
  simp [hk.resolve_of_has hc hm hp]

/-! ### What a request does -/

theorem outcome_onDrive {α : Type} (call : Call (Drive × TokenSource) α) :
    (onDrive id drive call).outcome world =
      ((call.outcome (drive, world.tokens)).1,
        { withDrive id (call.outcome (drive, world.tokens)).2.1 world with
          tokens := (call.outcome (drive, world.tokens)).2.2 }) :=
  rfl

/-- A drive answers without handing a request on. -/
theorem outcome_performWithin_memory (limit : Nat) (given : Given) (request : Request)
    (hd : world.drive? id = some drive) :
    (performWithin (limit + 1) given id request).outcome world =
      let out := (Drive.perform (millis world.clock) request).outcome (drive, world.tokens)
      (out.1.map (request.mapHandle (.memory id)),
        { withDrive id out.2.1 world with tokens := out.2.2 }) := by
  obtain ⟨scheme, claim, label, hp⟩ := drive?_eq_some_iff.mp hd
  rw [performWithin, Call.outcome_bind, Call.outcome_get]
  simp only [hp]
  rw [Call.outcome_map, outcome_onDrive]

/-- A request to a provider that a drive is behind is answered by the drive. -/
theorem outcome_performAt (given : Given) (request : Request) (hd : world.drive? id = some drive) :
    (performAt given id request).outcome world =
      let out := (Drive.perform (millis world.clock) request).outcome (drive, world.tokens)
      (out.1.map (request.mapHandle (.memory id)),
        { withDrive id out.2.1 world with tokens := out.2.2 }) := by
  obtain ⟨limit, hlimit⟩ := exists_handOverLimit world request.path
  rw [performAt, Call.outcome_bind, Call.outcome_get]
  simp only [hlimit]
  exact outcome_performWithin_memory limit given request hd

/-- A request through a registry that serves the drive is answered by the drive. -/
theorem outcome_perform {scheme : Text} (request : Request) (hs : world.Serves registry id scheme)
    (hd : world.drive? id = some drive) (hp : Scheme.has request.path scheme = true)
    (hm : world.mismatch? registry request = none) :
    (perform registry request).outcome world =
      let out := (Drive.perform (millis world.clock) request).outcome (drive, world.tokens)
      (out.1.map (request.mapHandle (.memory id)),
        { withDrive id out.2.1 world with tokens := out.2.2 }) := by
  rw [perform, Call.outcome_bind, Call.outcome_get]
  simp only [hm, hs.owner hp]
  exact outcome_performAt .all request hd

end FileRouter.World
