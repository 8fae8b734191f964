import FileRouter.Proofs.Store.Directories
import FileRouter.Proofs.World.Grounded
/-!
The parents of paths in grounded registries.

At the end of its way, a path has a next one upwards (`upward`) that has the same scheme and is lower by a name of a key
or by a slash (`upward_lower`). With the schemes of the way in front it is what a registry answers
(`Route.outcome_parent`), so going upwards comes to an end, on the same way, without meeting a path twice
(`Route.exists_lineage`). Of the disk nothing can be asked about a path that begins with `~` and a name that nobody can
have (`NamesNobody`).
-/

namespace FileRouter.World

variable {world : World} {known : Nat → Prop} {registry id base : Nat} {path inner next : Text}
  {chain : List (Text × Bool)}

/-! ### Through views -/

/-- A parent comes back with the schemes of the way in front. -/
theorem Routed.outcome_parent_within (h : Routed world id path chain base inner) {limit : Nat}
    (hl : chain.length < limit) (given : Given) :
    (performWithin limit given id (.parent path)).outcome world =
      (((direct base (.parent inner)).outcome world).1.map (Option.map (wrapped chain)),
        ((direct base (.parent inner)).outcome world).2) := by
  refine h.outcome_handedOn (fun limit given id path => performWithin limit given id (.parent path))
    (fun chain => Option.map (wrapped chain)) (fun _ => Option.map_id') (fun _ _ answer => ?_)
    (fun hb => outcome_performWithin_base hb _ _ _) (fun {limit _ id behind path scheme _ _ readOnly} hp => ?_) hl given
  · cases answer <;> rfl
  have hforward : (View.forward scheme (world.owner behind) (fun id request => performWithin limit .all id request)
      (.parent path)).outcome world =
      let out := (performWithin limit .all (world.owner behind (Scheme.strip path scheme))
        (.parent (Scheme.strip path scheme))).outcome world
      (out.1.map (Option.map (Scheme.join scheme)), out.2) := by
    rw [View.forward, Call.outcome_bind]
    simp only [Request.path]
    rcases (performWithin limit .all (world.owner behind (Scheme.strip path scheme))
      (.parent (Scheme.strip path scheme))).outcome world with ⟨_ | _, _⟩ <;> rfl
  rw [outcome_performWithin_view hp]
  -- A question for the parent passes a read-only view like any other.
  cases readOnly <;> exact hforward

theorem Routed.outcome_exists_within (h : Routed world id path chain base inner) {limit : Nat}
    (hl : chain.length < limit) (given : Given) :
    (performWithin limit given id (.exists path)).outcome world = (direct base (.exists inner)).outcome world := by
  refine h.outcome_handedOn_as_is (fun limit given id path => performWithin limit given id (.exists path))
    (fun hb => outcome_performWithin_base hb _ _ _) (fun {_ _ _ _ _ _ _ _ readOnly} hp => ?_) hl given
  rw [outcome_performWithin_view hp]
  cases readOnly <;> rfl

/-- A directory is not made because a read-only view refuses, or because the provider at the end of the way does. -/
theorem Routed.failure_createDirectory_within (h : Routed world id path chain base inner) {limit : Nat}
    (hl : chain.length < limit) (given : Given) {failure : Failure}
    (hfails : ((performWithin limit given id (.createDirectory path)).outcome world).1 = .error failure) :
    (∃ refused, failure = View.readOnlyFault refused) ∨
      ((direct base (.createDirectory inner)).outcome world).1 = .error failure := by
  induction h generalizing limit given with
  | base hb =>
    obtain ⟨limit, rfl⟩ : ∃ n, limit = n + 1 := Nat.exists_eq_succ_of_ne_zero (Nat.ne_of_gt hl)
    rw [outcome_performWithin_base hb] at hfails
    exact Or.inr hfails
  | @view id behind base path scheme inner claim label readOnly chain hp _ ih =>
    rw [List.length_cons] at hl
    obtain ⟨limit, rfl⟩ : ∃ n, limit = n + 1 := ⟨limit - 1, by omega⟩
    rw [outcome_performWithin_view hp] at hfails
    cases readOnly with
    -- a read-only view refuses by itself, with its own message
    | true => exact Or.inl ⟨path, (Except.error.inj hfails).symm⟩
    | false => exact ih (show chain.length < limit by omega) .all hfails

/-! ### At the end of a way -/

/-- The next path upwards at a provider that serves paths itself. -/
def upward (world : World) (base : Nat) (inner : Text) : Option Text :=
  match world.drive? base with
  | some drive => parentOn drive inner
  | none => Disk.parent? world.disk.fs inner

/-- Whether something is at a path at a provider that serves paths itself. -/
def present (world : World) (base : Nat) (inner : Text) : Bool :=
  match world.drive? base with
  | some drive => drive.tree.has (drive.keyOf inner)
  | none => Disk.existsAt world.disk.fs (Disk.nativePath world.disk.fs inner)

/-- How far a path can lead upwards: by the names of its key, or by the cuts that it can bear. -/
def rank (world : World) (base : Nat) (inner : Text) : Nat :=
  match world.drive? base with
  | some drive => (drive.keyOf inner).length
  | none => Disk.height (Disk.trimmedNative world.disk.fs inner)

/-- A path of the disk begins with `~` and a name that nobody can have. -/
def NamesNobody (world : World) (base : Nat) (inner : Text) : Prop :=
  world.drive? base = none ∧ Disk.hasBadUser inner = true

section Seated

variable (hs : Seated world base inner)
include hs

theorem Seated.outcome_parent (hn : ¬ NamesNobody world base inner) :
    (direct base (.parent inner)).outcome world = (.ok (world.upward base inner), world) := by
  cases hs with
  | @drive drive hd hv hhas =>
    have hself : withDrive base drive world = world := withDrive_self hd
    rw [outcome_direct_memory hd, upward, hd]
    exact Prod.ext rfl (congrArg (fun w : World => { w with tokens := world.tokens }) hself)
  | disk hd hdisk =>
    have hgood : ¬ Disk.hasBadUser inner = true := fun hbad => hn ⟨hd, hbad⟩
    rw [outcome_direct_disk hdisk, Disk.outcome_parent, if_neg hgood, upward, hd]
    rfl

theorem Seated.outcome_exists (hn : ¬ NamesNobody world base inner) :
    (direct base (.exists inner)).outcome world = (.ok (world.present base inner), world) := by
  cases hs with
  | @drive drive hd hv hhas =>
    have hself : withDrive base drive world = world := withDrive_self hd
    rw [outcome_direct_memory hd, present, hd]
    exact Prod.ext rfl (congrArg (fun w : World => { w with tokens := world.tokens }) hself)
  | disk hd hdisk =>
    have hgood : ¬ Disk.hasBadUser inner = true := fun hbad => hn ⟨hd, hbad⟩
    rw [outcome_direct_disk hdisk, Disk.outcome_exists, if_neg hgood, present, hd]
    rfl

/-- The disk refuses to answer about a path that names nobody. -/
theorem Seated.outcome_refused (hn : NamesNobody world base inner) :
    (direct base (.parent inner)).outcome world = (.error Disk.nulFault, world) ∧
      (direct base (.exists inner)).outcome world = (.error Disk.nulFault, world) := by
  obtain ⟨hnone, hbad⟩ := hn
  cases hs with
  | drive hd _ _ => simp [hd] at hnone
  | disk _ hdisk =>
    rw [outcome_direct_disk hdisk, outcome_direct_disk hdisk, Disk.outcome_parent, Disk.outcome_exists, if_pos hbad,
      if_pos hbad]
    exact ⟨rfl, rfl⟩

/-- **The next path upwards** has the same scheme, names nobody only if the path does, and is lower. -/
theorem Seated.upward_lower (hh : Disk.AbsoluteHomes world.disk.fs) (hn : ¬ NamesNobody world base inner)
    (h : world.upward base inner = some next) :
    Scheme.parse? next = Scheme.parse? inner ∧ ¬ NamesNobody world base next ∧
      world.rank base next < world.rank base inner := by
  cases hs with
  | @drive drive hd hv hhas =>
    rw [upward, hd] at h
    simp only [parentOn] at h
    split_ifs at h with hroot
    obtain rfl := Option.some.inj h
    -- on a drive the rank is the length of the key, and the parent is the key without its last name
    have hkey := Drive.keyOf_pathOf (Scheme.ne_nil_of_isValid hv) (drive.keyOf_proper inner).parent
    refine ⟨?_, fun hnobody => absurd (hd.symm.trans hnobody.1) (Option.some_ne_none _), ?_⟩
    · rw [Scheme.parse?_of_has hv hhas]
      exact Scheme.parse?_join hv _
    · rw [rank, rank, hd]
      simp only
      rw [hkey, Key.parent, List.length_dropLast]
      exact Nat.sub_lt (List.length_pos_iff.mpr hroot) Nat.one_pos
  | disk hd hdisk =>
    rw [upward, hd] at h
    -- on the disk the parent is expanded once more, which changes nothing, since the homes are absolute
    obtain ⟨hparse, hgood, hlower⟩ := hh.parent? h
    have hinner : Disk.hasBadUser inner = false := Bool.eq_false_iff.mpr fun hbad => hn ⟨hd, hbad⟩
    refine ⟨hparse, fun hnobody => Bool.false_ne_true ((hgood hinner).symm.trans hnobody.2), ?_⟩
    rw [rank, rank, hd]
    exact hlower

end Seated

/-! ### Through a registry -/

section Route

variable (h : Route world registry path chain base inner)
include h

theorem Route.outcome_parent (hn : ¬ NamesNobody world base inner) :
    (perform registry (.parent path)).outcome world = (.ok ((world.upward base inner).map (wrapped chain)), world) := by
  rw [outcome_perform_owner rfl, Request.path, h.routed.outcome_parent_within h.routed.length_lt_handOverLimit,
    h.seated.outcome_parent hn]
  rfl

theorem Route.outcome_exists (hn : ¬ NamesNobody world base inner) :
    (perform registry (.exists path)).outcome world = (.ok (world.present base inner), world) := by
  rw [outcome_perform_owner rfl, Request.path, h.routed.outcome_exists_within h.routed.length_lt_handOverLimit,
    h.seated.outcome_exists hn]

theorem Route.outcome_refused (hn : NamesNobody world base inner) :
    (perform registry (.parent path)).outcome world = (.error Disk.nulFault, world) ∧
      (perform registry (.exists path)).outcome world = (.error Disk.nulFault, world) := by
  obtain ⟨hparent, hexists⟩ := h.seated.outcome_refused hn
  rw [outcome_perform_owner rfl, outcome_perform_owner rfl, Request.path, Request.path,
    h.routed.outcome_parent_within h.routed.length_lt_handOverLimit,
    h.routed.outcome_exists_within h.routed.length_lt_handOverLimit, hparent, hexists]
  exact ⟨rfl, rfl⟩

end Route

/-! ### Lineages -/

/-- The paths that one comes to by asking for the parent of a path, for the parent of that, and so on until there is none.
Asking changes nothing. -/
inductive Lineage (world : World) (registry : Nat) : Text → List Text → Prop
  | last {path : Text} : (perform registry (.parent path)).outcome world = (.ok none, world) →
      Lineage world registry path [path]
  | next {path parent : Text} {paths : List Text} :
      (perform registry (.parent path)).outcome world = (.ok (some parent), world) →
      Lineage world registry parent paths → Lineage world registry path (path :: paths)

/-- **Going upwards comes to an end**, on the same way, and no path comes twice. -/
theorem Route.exists_lineage (hg : Grounded world known) (hr : known registry)
    (hh : Disk.AbsoluteHomes world.disk.fs) (h : Route world registry path chain base inner)
    (hn : ¬ NamesNobody world base inner) :
    ∃ paths, Lineage world registry path paths ∧ paths.Nodup ∧ paths.length ≤ world.rank base inner + 1 ∧
      ∀ other ∈ paths, world.owner registry other = world.owner registry path ∧
        ∃ rest, Route world registry other chain base rest ∧ ¬ NamesNobody world base rest ∧
          world.rank base rest ≤ world.rank base inner := by
  induction hrank : world.rank base inner using Nat.strong_induction_on generalizing path inner with
  | _ n ih =>
    subst hrank
    have hparent := h.outcome_parent hn
    cases hup : world.upward base inner with
    | none =>
      rw [hup] at hparent
      refine ⟨[path], .last hparent, List.nodup_singleton path, Nat.le_add_left _ _, fun other hm => ?_⟩
      obtain rfl := List.mem_singleton.mp hm
      exact ⟨rfl, inner, h, hn, Nat.le_refl _⟩
    | some next =>
      rw [hup] at hparent
      obtain ⟨hparse, hnext, hlower⟩ := h.seated.upward_lower hh hn hup
      have howner := hg.owner_eq hr (h.like hparse).1
      obtain ⟨paths, hlineage, hnodup, hlength, hall⟩ := ih _ hlower (h.again hparse) hnext rfl
      refine ⟨path :: paths, .next hparent hlineage, List.nodup_cons.mpr ⟨fun hm => ?_, hnodup⟩, ?_, fun other hm => ?_⟩
      · -- a path has one rest only, and that of the path itself is higher
        obtain ⟨-, rest, hrest, -, hle⟩ := hall path hm
        obtain ⟨-, -, rfl⟩ := h.routed.unique hrest.routed
        omega
      · rw [List.length_cons]
        omega
      · rcases List.mem_cons.mp hm with rfl | hm
        · exact ⟨rfl, inner, h, hn, Nat.le_refl _⟩
        · obtain ⟨hsame, rest, hrest, hgood, hle⟩ := hall other hm
          exact ⟨hsame.trans howner, rest, hrest, hgood, by omega⟩

end FileRouter.World
