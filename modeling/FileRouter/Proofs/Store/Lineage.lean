import FileRouter.Proofs.World.Parents
/-!
Making directories in grounded registries.

In a grounded registry the way up from a path is its lineage (`Lineage.ancestor`), which has no path twice and fewer paths
than a climb may take steps (`Route.rank_lt_climb`). So the climb comes to an end, and what making a directory with its
parents fails with is neither that the climb goes on for ever nor that a path is among its own ancestors (`parents_end`).
-/

namespace FileRouter

/-! ### Failures -/

namespace Failure

/-- A failure that comes of a way up without an end: it goes on, or leads to a path again. -/
def Circular (failure : Failure) : Prop := failure = .endless ∨ ∃ path, failure = .refused .parentLoop path

theorem not_circular_atPath {cause : Cause} (h : cause ≠ .refused .parentLoop) (path : Text) :
    ¬ (atPath cause path).Circular := by
  rintro (hendless | ⟨other, hloop⟩)
  · cases hendless
  · exact h (congrArg ProviderError.cause (Failure.provider.inj hloop))

theorem not_circular_badValue (message : Text) : ¬ (badValue message).Circular := by
  rintro (hendless | ⟨other, hloop⟩)
  · cases hendless
  · cases hloop

end Failure

/-- No failure of the operating system is reported as a loop. -/
theorem SystemError.cause_toProvider_ne (error : SystemError) (path : Text) :
    (error.toProvider path).cause ≠ .refused .parentLoop := by
  simp only [toProvider]
  split <;> grind

namespace Drive

variable {now : Int} {drive : Drive} {path : Text} {failure : Failure}

theorem not_circular_parentFault? {key : Key} (h : drive.parentFault? key path = some failure) :
    ¬ failure.Circular := by
  rcases parentFault?_cases h with rfl | rfl <;> exact Failure.not_circular_atPath (by simp) _

theorem not_circular_createDirectory (h : ((createDirectory now path).outcome drive).1 = .error failure) :
    ¬ failure.Circular := by
  rw [outcome_createDirectory] at h
  cases hg : drive.tree.get? (drive.keyOf path) with
  | none =>
    simp only [hg, outcome_create] at h
    cases hfault : drive.parentFault? (drive.keyOf path) path with
    | none => simp [hfault] at h
    | some fault =>
      rw [hfault] at h
      exact Except.error.inj h ▸ not_circular_parentFault? hfault
  | some node =>
    simp only [hg] at h
    split_ifs at h
    exact Except.error.inj h ▸ Failure.not_circular_atPath (by simp) _

end Drive

namespace World

open Store

variable {world : World} {known : Nat → Prop} {registry base : Nat} {path inner : Text} {paths : List Text}
  {chain : List (Text × Bool)}

/-! ### How far a path leads upwards -/

theorem Routed.suffix {id : Nat} (h : Routed world id path chain base inner) : inner <:+ path := by
  induction h with
  | base _ => exact List.suffix_refl _
  | view _ _ ih => exact ih.trans (Scheme.strip_suffix _ _)

/-- The lineage of a path has fewer paths than a climb may take steps. -/
theorem Route.rank_lt_climb (h : Route world registry path chain base inner) :
    world.rank base inner + 1 < world.climb path := by
  -- stripping schemes adds no slash, so the bound for the inner path holds for the whole one
  have hinner : inner.count '/' ≤ path.count '/' := h.routed.suffix.sublist.count_le _
  have hclimb := count_add_homes_le_climb world path
  have hrank : world.rank base inner ≤
      inner.count '/' + (world.disk.fs.home.length + total (fun user => user.2.length) world.disk.fs.users) + 2 := by
    rw [rank]
    cases world.drive? base with
    | none => exact Disk.height_le world.disk.fs inner
    | some drive =>
      have hkey := drive.length_keyOf_le inner
      simp only
      omega
  omega

/-! ### The climb -/

/-- Whether something is at a path, by what a registry answers. -/
def foundIn (world : World) (registry : Nat) (path : Text) : Bool :=
  match ((perform registry (.exists path)).outcome world).1 with
  | .ok answer => answer
  | .error _ => false

/-- The next path upwards, by what a registry answers. -/
def nextIn (world : World) (registry : Nat) (path : Text) : Option Text :=
  match ((perform registry (.parent path)).outcome world).1 with
  | .ok answer => answer
  | .error _ => none

/-- **The way up from a path is its lineage.** -/
theorem Lineage.ancestor (h : Lineage world registry path paths) (n : Nat) :
    Store.ancestor (nextIn world registry) path n = paths[n]? := by
  induction h generalizing n with
  | last hout =>
    cases n with
    | zero => rfl
    | succ n =>
      rw [Store.ancestor_succ, nextIn, hout]
      rfl
  | next hout _ ih =>
    cases n with
    | zero => rfl
    | succ n =>
      rw [Store.ancestor_succ, nextIn, hout, List.getElem?_cons_succ]
      exact ih n

theorem Lineage.unique (h : Lineage world registry path paths) {others : List Text}
    (h' : Lineage world registry path others) : paths = others :=
  List.ext_getElem? fun n => (h.ancestor n).symm.trans (h'.ancestor n)

/-- Where a registry answers about all paths of a lineage, it does so steadily. -/
theorem Lineage.steady (h : Lineage world registry path paths)
    (hall : ∀ other ∈ paths, ∃ chain base rest, Route world registry other chain base rest ∧
      ¬ NamesNobody world base rest) :
    Steady (store registry) (fun s => s = world) (foundIn world registry) (nextIn world registry) path := by
  constructor
  · rintro n above _ habove rfl
    obtain ⟨chain, base, rest, hroute, hgood⟩ := hall above (List.mem_of_getElem? (h.ancestor n ▸ habove))
    have hout := hroute.outcome_exists hgood
    exact ⟨_, by rw [foundIn, hout]; exact hout, rfl⟩
  · rintro n above _ habove - rfl
    obtain ⟨chain, base, rest, hroute, hgood⟩ := hall above (List.mem_of_getElem? (h.ancestor n ▸ habove))
    have hout := hroute.outcome_parent hgood
    exact ⟨_, by rw [nextIn, hout]; exact hout, rfl⟩

/-! ### Making directories -/

theorem Seated.not_circular_createDirectory (hs : Seated world base inner) {failure : Failure}
    (h : ((direct base (.createDirectory inner)).outcome world).1 = .error failure) : ¬ failure.Circular := by
  -- neither a drive nor the disk has a failure of its own that speaks of a circle
  cases hs with
  | @drive drive hd _ _ =>
    rw [outcome_direct_memory hd, Drive.perform, Drive.outcome_plain] at h
    cases hout : ((Drive.createDirectory (millis world.clock) inner).outcome drive).1 with
    | ok value => simp [hout, Except.map] at h
    | error fault =>
      simp only [hout, Except.map] at h
      exact Except.error.inj h ▸ Drive.not_circular_createDirectory hout
  | disk _ hdisk =>
    rw [outcome_direct_disk hdisk] at h
    cases hout : ((Disk.perform (.createDirectory inner)).outcome (world.disk, world.tokens)).1 with
    | ok value => simp [hout, Except.map] at h
    | error fault =>
      simp only [hout, Except.map] at h
      obtain rfl := Except.error.inj h
      rcases Disk.failure_createDirectory inner _ hout with rfl | ⟨error, rfl⟩
      · exact Failure.not_circular_badValue _
      · exact Failure.not_circular_atPath (error.cause_toProvider_ne inner) inner

/-- That a directory cannot be made is never because of a loop. -/
theorem Grounded.not_circular_createDirectory (hg : Grounded world known) (hr : known registry) (path : Text)
    {failure : Failure} (h : (((store registry).createDirectory path).outcome world).1 = .error failure) :
    ¬ failure.Circular := by
  obtain ⟨chain, base, inner, hroute⟩ := hg.exists_route hr path
  have howner : ((store registry).createDirectory path).outcome world =
      (performWithin (world.handOverLimit path) .all (world.owner registry path) (.createDirectory path)).outcome world :=
    outcome_perform_owner rfl
  rw [howner] at h
  rcases hroute.routed.failure_createDirectory_within hroute.routed.length_lt_handOverLimit .all h with ⟨refused, rfl⟩ | h
  · exact Failure.not_circular_atPath (by simp) _
  · exact hroute.seated.not_circular_createDirectory h

/-- Nor is it for one of many. -/
theorem Grounded.not_circular_forM (hg : Grounded world known) (hr : known registry) {paths : List Text}
    {failure : Failure} (h : ((paths.forM (store registry).createDirectory).outcome world).1 = .error failure) :
    ¬ failure.Circular := by
  induction paths generalizing world with
  | nil => cases h
  | cons path paths ih =>
    have hnext : Grounded (((store registry).createDirectory path).outcome world).2 known := hg.perform registry _
    rw [List.forM, Call.outcome_bind] at h
    rcases hmake : ((store registry).createDirectory path).outcome world with ⟨fault | value, next⟩
    · rw [hmake] at h
      exact Except.error.inj h ▸ hg.not_circular_createDirectory hr path (congrArg Prod.fst hmake)
    · rw [hmake] at h hnext
      exact ih hnext h

/-- The climb comes to an end, and to the same however many steps it may take beyond those that it needs. -/
theorem Route.exists_climbed (hg : Grounded world known) (hr : known registry) (hh : Disk.AbsoluteHomes world.disk.fs)
    (h : Route world registry path chain base inner) (hn : ¬ NamesNobody world base inner) :
    ∃ n < world.climb path, ∃ made : List Text, ∀ steps, n < steps →
      ((store registry).createDirectories steps (some path)).outcome world =
        (made.forM (store registry).createDirectory).outcome world := by
  obtain ⟨paths, hlineage, -, hlength, hall⟩ := h.exists_lineage hg hr hh hn
  have hsteady := hlineage.steady fun other hm => by
    obtain ⟨-, rest, hroute, hgood, -⟩ := hall other hm
    exact ⟨chain, base, rest, hroute, hgood⟩
  -- behind the last path of the lineage there is none, so the way up ends there, or before at something
  have hlast : ancestor (nextIn world registry) path paths.length = none := by
    rw [hlineage.ancestor, List.getElem?_eq_none (Nat.le_refl _)]
  obtain ⟨n, hle, hends⟩ : ∃ n ≤ paths.length, EndsAfter (foundIn world registry) (nextIn world registry) path n :=
    exists_endsAfter hlast
  have hclimb := h.rank_lt_climb
  refine ⟨n, by omega, (ascent (nextIn world registry) path n).reverse, fun steps hsteps => ?_⟩
  obtain ⟨t, hmissing, rfl⟩ := hsteady.yields_missing rfl hends hsteps
  rw [Store.createDirectories, Call.outcome_bind, hmissing]

/-- Of a path that names nobody it cannot be asked whether anything is there. -/
theorem Route.outcome_createDirectories_refused (h : Route world registry path chain base inner)
    (hn : NamesNobody world base inner) {steps : Nat} (hsteps : 0 < steps) :
    ((store registry).createDirectories steps (some path)).outcome world = (.error Disk.nulFault, world) := by
  obtain ⟨steps, rfl⟩ : ∃ left, steps = left + 1 := Nat.exists_eq_succ_of_ne_zero (Nat.ne_of_gt hsteps)
  have hexists : ((store registry).exists? path).outcome world = (.error Disk.nulFault, world) := (h.outcome_refused hn).2
  rw [Store.createDirectories, Call.outcome_bind, missing, Call.outcome_bind, hexists]

/-- **Parents come to an end.** In grounded registries, where all homes are absolute, a path has a lineage, without any
path twice, and every path of it takes the same way to the same provider; only where the disk is asked about a path that
begins with `~` and a name that nobody can have, it refuses. For every path, making a directory with its parents comes to
an end, which more steps would not change, and never fails because of a loop. -/
theorem parents_end (hg : Grounded world known) (hr : known registry) (hh : Disk.AbsoluteHomes world.disk.fs)
    (path : Text) :
    (∃ chain base inner, Routed world (world.owner registry path) path chain base inner ∧
      (¬ NamesNobody world base inner → ∃ paths, Lineage world registry path paths ∧ paths.Nodup ∧
        ∀ other ∈ paths, world.owner registry other = world.owner registry path ∧
          ∃ rest, Routed world (world.owner registry path) other chain base rest) ∧
      (NamesNobody world base inner →
        (perform registry (.parent path)).outcome world = (.error Disk.nulFault, world))) ∧
    (∃ n < world.climb path, ∀ steps, n < steps →
      ((store registry).createDirectories steps (some path)).outcome world =
        (createDirectories registry (some path)).outcome world) ∧
    ∀ failure, ((createDirectories registry (some path)).outcome world).1 = .error failure → ¬ failure.Circular := by
  obtain ⟨chain, base, inner, h⟩ := hg.exists_route hr path
  have hmake : (createDirectories registry (some path)).outcome world =
      ((store registry).createDirectories (world.climb path) (some path)).outcome world := by
    rw [createDirectories, Call.outcome_bind, Call.outcome_get]
    rfl
  rw [hmake]
  refine ⟨⟨chain, base, inner, h.routed, fun hn => ?_, fun hn => (h.outcome_refused hn).1⟩, ?_⟩
  · obtain ⟨paths, hlineage, hnodup, -, hall⟩ := h.exists_lineage hg hr hh hn
    refine ⟨paths, hlineage, hnodup, fun other hm => ?_⟩
    obtain ⟨howner, rest, hroute, -, -⟩ := hall other hm
    exact ⟨howner, rest, howner ▸ hroute.routed⟩
  · -- a path that names nobody is refused at the first question, otherwise the rank ends the climb
    by_cases hn : NamesNobody world base inner
    · have hclimb : 0 < world.climb path := Nat.lt_of_le_of_lt (Nat.zero_le _) h.rank_lt_climb
      have hout := h.outcome_createDirectories_refused hn hclimb
      refine ⟨⟨0, hclimb, fun steps hsteps => (h.outcome_createDirectories_refused hn hsteps).trans hout.symm⟩,
        fun failure hfails => ?_⟩
      rw [hout] at hfails
      exact Except.error.inj hfails ▸ Failure.not_circular_badValue _
    · obtain ⟨n, hlt, made, hmade⟩ := h.exists_climbed hg hr hh hn
      refine ⟨⟨n, hlt, fun steps hsteps => (hmade steps hsteps).trans (hmade _ hlt).symm⟩, fun failure hfails => ?_⟩
      rw [hmade _ hlt] at hfails
      exact hg.not_circular_forM hr hfails

theorem parents_end_home :
    Grounded viewedWorld (· = 0) ∧ Disk.AbsoluteHomes viewedWorld.disk.fs ∧
      ∃ paths, Lineage viewedWorld 0 "via:ro:file:~/a//b/".toList paths ∧ paths.Nodup ∧
        paths = ["via:ro:file:~/a//b/".toList, "via:ro:file:/home/a".toList, "via:ro:file:/home".toList,
          "via:ro:file:/".toList] := by
  have hroute : Routed viewedWorld (viewedWorld.owner 0 "via:ro:file:~/a//b/".toList) "via:ro:file:~/a//b/".toList
      [("via".toList, false), ("ro".toList, true)] 0 "file:~/a//b/".toList :=
    .view rfl (.view rfl (.base ⟨_, rfl, Or.inl rfl⟩))
  have hg := layered_viewedWorld.grounded
  have hh : Disk.AbsoluteHomes viewedWorld.disk.fs := Disk.absoluteHomes_fresh []
  obtain ⟨⟨chain, base, inner, hrouted, hlineage, -⟩, -⟩ := parents_end hg rfl hh "via:ro:file:~/a//b/".toList
  obtain ⟨rfl, rfl, rfl⟩ := hroute.unique hrouted
  obtain ⟨paths, hpaths, hnodup, -⟩ := hlineage fun hn => absurd hn.2 (by decide)
  exact ⟨hg, hh, paths, hpaths, hnodup, hpaths.unique (.next rfl (.next rfl (.next rfl (.last rfl))))⟩

/-- A world where a user's home begins with that user. -/
def nestedHomeWorld : World :=
  { viewedWorld with
    disk := { viewedWorld.disk with fs := { viewedWorld.disk.fs with users := [("u".toList, "~u/a".toList)] } } }

/-- Where nobody can have a name there is no lineage, and the home of a user has to be absolute too: below one that begins
with its user again, a path is its own parent. -/
theorem not_forall_lineage :
    (¬ ∀ (world : World) (known : Nat → Prop) (registry : Nat) (path : Text), Grounded world known → known registry →
      Disk.AbsoluteHomes world.disk.fs → ∃ paths, Lineage world registry path paths) ∧
    ¬ ∀ (world : World) (known : Nat → Prop) (registry : Nat) (path : Text), Grounded world known → known registry →
      world.disk.fs.home.head? = some '/' →
      ((createDirectories registry (some path)).outcome world).1 ≠ .error (.refused .parentLoop path) := by
  have hg := layered_viewedWorld.grounded
  refine ⟨fun h => ?_, fun h => ?_⟩
  · obtain ⟨paths, hpaths⟩ := h viewedWorld _ 0 "~\x00".toList hg rfl (Disk.absoluteHomes_fresh [])
    have hout : ((perform 0 (.parent "~\x00".toList)).outcome viewedWorld).1 = .error Disk.nulFault := rfl
    cases hpaths with
    | last hparent => rw [hparent] at hout; cases hout
    | next hparent _ => rw [hparent] at hout; cases hout
  · exact h nestedHomeWorld _ 0 "~u/a".toList (hg.of_outline rfl) rfl rfl rfl

end World

end FileRouter
