import FileRouter.Proofs.Store.Climbing
import FileRouter.Proofs.Store.Delete
import Mathlib.Data.List.Infix
/-!
Making directories on a drive.

The way up from a path of a drive takes one name after the other off its key (`ancestor_spelled`), so the climb comes to
the nearest entry on it. If that is a directory, every directory that is made has just become the parent of the next
one, and none can be refused; if it is a file, already the first is refused (`outcome_createDirectories`).
-/

namespace FileRouter

namespace Tree

open KeyMap

variable {tree tree' : Tree} {key near : Key} {node : Node} {now : Int}

/-- The last entry on the way from the root to a key. -/
structure Nearest (tree : Tree) (key near : Key) (node : Node) : Prop where
  above : near <+: key
  found : tree.get? near = some node
  last : ∀ {other : Key}, other <+: key → near.length < other.length → tree.get? other = none

/-- New directories are at the keys on the way to a key where nothing was, and everything else is as it was. -/
def Gains (now : Int) (key : Key) (tree tree' : Tree) : Prop :=
  ∀ other, tree'.get? other =
    if other <+: key ∧ tree.get? other = none then some (.newDirectory now) else tree.get? other

/-- The root is on every way, so some entry is the last. -/
theorem WellFormed.exists_nearest (h : tree.WellFormed) (key : Key) : ∃ near node, tree.Nearest key near node := by
  classical
  obtain ⟨root, hroot, -⟩ := h.root
  -- the fewest names that have to be taken off to come to an entry
  have hex : ∃ j, ∃ node, tree.get? (key.take (key.length - j)) = some node :=
    ⟨key.length, root, by rwa [Nat.sub_self, List.take_zero]⟩
  obtain ⟨node, hnode⟩ := Nat.find_spec hex
  refine ⟨_, node, List.take_prefix _ key, hnode, fun {other} hother hlt => ?_⟩
  by_contra hsome
  obtain ⟨found, hfound⟩ := Option.ne_none_iff_exists'.mp hsome
  have hlength := hother.length_le
  rw [List.length_take, Nat.min_eq_left (Nat.sub_le _ _)] at hlt
  refine Nat.find_min hex (m := key.length - other.length) (by omega) ⟨found, ?_⟩
  rwa [Nat.sub_sub_self hlength, ← List.prefix_iff_eq_take.mp hother]

/-- Only one entry is the last. -/
theorem Nearest.unique (h : tree.Nearest key near node) {near' : Key} {node' : Node}
    (h' : tree.Nearest key near' node') : near = near' ∧ node = node' := by
  have hle : near.length ≤ near'.length := Nat.not_lt.mp fun hlt => by simpa [h.found] using h'.last h.above hlt
  have hge : near'.length ≤ near.length := Nat.not_lt.mp fun hlt => by simpa [h'.found] using h.last h'.above hlt
  obtain rfl : near = near' :=
    (List.prefix_of_prefix_length_le h.above h'.above hle).eq_of_length (Nat.le_antisymm hle hge)
  exact ⟨rfl, Option.some.inj (h.found.symm.trans h'.found)⟩

/-- What is missing on the way lies beyond the last entry. -/
theorem Nearest.get?_eq_none_iff (h : tree.Nearest key near node) (hw : tree.WellFormed) {other : Key}
    (hother : other <+: key) : tree.get? other = none ↔ near.length < other.length := by
  refine ⟨fun hnone => ?_, h.last hother⟩
  by_contra hle
  obtain ⟨rest, rfl⟩ := List.prefix_of_prefix_length_le hother h.above (Nat.not_lt.mp hle)
  by_cases hrest : rest = []
  · have hfound := h.found
    rw [hrest, List.append_nil, hnone] at hfound
    cases hfound
  · obtain ⟨value, hvalue, -⟩ := hw.rooted.above h.found hrest
    rw [hnone] at hvalue
    cases hvalue

theorem Gains.has (h : Gains now key tree tree') : tree'.has key = true := by
  rw [has_iff, h key]
  split_ifs with hnone
  · exact ⟨_, rfl⟩
  · exact Option.ne_none_iff_exists'.mp fun hn => hnone ⟨List.prefix_refl key, hn⟩

end Tree

namespace World

open KeyMap FileRouter.Tree Store

variable {world : World} {registry id : Nat} {drive : Drive} {path : Text}

/-! ### The way up -/

/-- The path that a drive names as the parent of another. -/
def parentOn (drive : Drive) (path : Text) : Option Text :=
  if drive.keyOf path = [] then none else some (drive.pathOf (drive.keyOf path).parent)

theorem keyOf_spelled (hv : drive.scheme ≠ []) {key : Key} (h : key.Proper) :
    drive.keyOf (spelled drive path key) = key := by
  rw [spelled]
  split_ifs with hkey
  · exact hkey.symm
  · exact Drive.keyOf_pathOf hv h

theorem has_spelled (hp : Scheme.has path drive.scheme = true) (key : Key) :
    Scheme.has (spelled drive path key) drive.scheme = true := by
  rw [spelled]
  split_ifs
  · exact hp
  · exact Scheme.has_join (Scheme.has_iff.mp hp).1 _

/-- The key of the entry that a number of names above that of a path. -/
def keyAbove (drive : Drive) (path : Text) (n : Nat) : Key :=
  (drive.keyOf path).take ((drive.keyOf path).length - n)

theorem proper_keyAbove (n : Nat) : (keyAbove drive path n).Proper :=
  fun name hm => drive.keyOf_proper path name (List.mem_of_mem_take hm)

theorem length_keyAbove (n : Nat) : (keyAbove drive path n).length = (drive.keyOf path).length - n := by
  rw [keyAbove, List.length_take, Nat.min_eq_left (Nat.sub_le _ _)]

theorem parent_keyAbove (n : Nat) :
    (keyAbove drive path n).parent = keyAbove drive path (n + 1) := by
  rw [Key.parent, List.dropLast_eq_take, length_keyAbove, keyAbove, keyAbove, List.take_take, Nat.sub_sub,
    Nat.min_eq_left (Nat.sub_le_sub_left (Nat.le_succ n) _)]

theorem eq_keyAbove_iff {n : Nat} {other : Key} (hn : n ≤ (drive.keyOf path).length) :
    other = keyAbove drive path n ↔ other <+: drive.keyOf path ∧ other.length + n = (drive.keyOf path).length := by
  constructor
  · rintro rfl
    exact ⟨List.take_prefix _ _, by rw [length_keyAbove, Nat.sub_add_cancel hn]⟩
  · rintro ⟨hother, hlength⟩
    rw [keyAbove, ← hlength, Nat.add_sub_cancel]
    exact List.prefix_iff_eq_take.mp hother

/-- Beyond the last entry on the way to the key of a path, nothing is. -/
theorem exists_keyAbove {tree : Tree} {near : Key} {node : Node} (h : tree.Nearest (drive.keyOf path) near node) :
    ∃ n ≤ (drive.keyOf path).length, near = keyAbove drive path n ∧ near.length + n = (drive.keyOf path).length ∧
      ∀ i < n, get? tree (keyAbove drive path i) = none := by
  obtain ⟨n, hn⟩ := Nat.le.dest h.above.length_le
  have hle : n ≤ (drive.keyOf path).length := hn ▸ Nat.le_add_left _ _
  refine ⟨n, hle, (eq_keyAbove_iff hle).mpr ⟨h.above, hn⟩, hn, fun i hi => h.last (List.take_prefix _ _) ?_⟩
  rw [length_keyAbove]
  omega

/-- Each step upwards takes a name off the key. Only the path itself is in the spelling that was given. -/
theorem ancestor_spelled (hv : drive.scheme ≠ []) {n : Nat} (hn : n ≤ (drive.keyOf path).length) :
    ancestor (parentOn drive) path n = some (spelled drive path (keyAbove drive path n)) := by
  induction n with
  | zero => rw [ancestor, keyAbove, Nat.sub_zero, List.take_length, spelled, if_pos rfl]
  | succ n ih =>
    have hne : keyAbove drive path n ≠ [] := by
      rw [← List.length_pos_iff, length_keyAbove]
      omega
    have hshorter : keyAbove drive path (n + 1) ≠ drive.keyOf path := by
      intro hsame
      have hlength := congrArg List.length hsame
      rw [length_keyAbove] at hlength
      omega
    rw [ancestor, ih (Nat.le_of_succ_le hn), Option.bind_some, parentOn, keyOf_spelled hv (proper_keyAbove n), if_neg hne,
      parent_keyAbove n, spelled, if_neg hshorter]

theorem has_of_ancestor (hp : Scheme.has path drive.scheme = true) {n : Nat} {other : Text}
    (h : ancestor (parentOn drive) path n = some other) : Scheme.has other drive.scheme = true := by
  cases n with
  | zero => exact Option.some.inj h ▸ hp
  | succ n =>
    obtain ⟨below, -, hparent⟩ := Option.bind_eq_some_iff.mp h
    rw [parentOn] at hparent
    split_ifs at hparent
    exact Option.some.inj hparent ▸ Scheme.has_join (Scheme.has_iff.mp hp).1 _

section Making

variable (hs : world.Serves registry id drive.scheme) (hd : world.drive? id = some drive)
  (hp : Scheme.has path drive.scheme = true)

include hs hd

theorem outcome_parent (tree : Tree) {path : Text} (hp : Scheme.has path drive.scheme = true) :
    ((store registry).parent? path).outcome (withTree id drive tree world) =
      (.ok (parentOn drive path), withTree id drive tree world) :=
  outcome_withTree hs hd (.parent path) tree hp rfl

theorem outcome_createDirectory (tree : Tree) {path : Text} (hp : Scheme.has path drive.scheme = true) :
    ((store registry).createDirectory path).outcome (withTree id drive tree world) =
      (((Drive.createDirectory (millis world.clock) path).outcome { drive with tree }).1,
        withDrive id ((Drive.createDirectory (millis world.clock) path).outcome { drive with tree }).2 world) := by
  refine (outcome_withTree hs hd (.createDirectory path) tree hp rfl).trans ?_
  rw [Drive.perform, Drive.outcome_plain]
  rcases (Drive.createDirectory (millis world.clock) path).outcome { drive with tree } with ⟨_ | _, _⟩ <;> rfl

/-- In a directory a new one can be made. -/
theorem outcome_createDirectory_made {tree : Tree} {path : Text} (hp : Scheme.has path drive.scheme = true)
    (hnone : get? tree (drive.keyOf path) = none) (hdir : HasDirectory tree (drive.keyOf path).parent) :
    ((store registry).createDirectory path).outcome (withTree id drive tree world) =
      (.ok (), withTree id drive (put tree (drive.keyOf path) (.newDirectory (millis world.clock))) world) := by
  have hfault : ({ drive with tree } : Drive).parentFault? (drive.keyOf path) path = none :=
    Drive.parentFault?_eq_none_iff.mpr hdir
  have hmade : (Drive.createDirectory (millis world.clock) path).outcome { drive with tree } =
      (.ok (), { drive with tree := put tree (drive.keyOf path) (.newDirectory (millis world.clock)) }) := by
    rw [Drive.outcome_createDirectory]
    simp only [show ({ drive with tree } : Drive).keyOf path = drive.keyOf path from rfl, hnone]
    rw [Drive.outcome_create, hfault]
  rw [outcome_createDirectory hs hd tree hp, hmade]
  rfl

/-- In a file no directory can be made. -/
theorem outcome_createDirectory_refused {tree : Tree} {path : Text} {node : Node}
    (hp : Scheme.has path drive.scheme = true) (hnone : get? tree (drive.keyOf path) = none)
    (hg : get? tree (drive.keyOf path).parent = some node) (hfile : node.isDirectory = false) :
    ((store registry).createDirectory path).outcome (withTree id drive tree world) =
      (.error (.refused .parentNotDirectory path), withTree id drive tree world) := by
  have hfault : ({ drive with tree } : Drive).parentFault? (drive.keyOf path) path =
      some (.refused .parentNotDirectory path) := by
    rw [Drive.parentFault?]
    simp [hg, hfile]
  have hrefused : (Drive.createDirectory (millis world.clock) path).outcome { drive with tree } =
      (.error (.refused .parentNotDirectory path), { drive with tree }) := by
    rw [Drive.outcome_createDirectory]
    simp only [show ({ drive with tree } : Drive).keyOf path = drive.keyOf path from rfl, hnone]
    rw [Drive.outcome_create, hfault]
  rw [outcome_createDirectory hs hd tree hp, hrefused]
  rfl

include hp

/-- A drive answers steadily while nothing is made. -/
theorem steady_drive (tree : Tree) :
    Steady (store registry) (fun s => s = withTree id drive tree world) (fun other => has tree (drive.keyOf other))
      (parentOn drive) path := by
  constructor
  · rintro n other _ hother rfl
    exact ⟨_, outcome_exists hs hd tree (has_of_ancestor hp hother), rfl⟩
  · rintro n other _ hother - rfl
    exact ⟨_, outcome_parent hs hd tree (has_of_ancestor hp hother), rfl⟩

/-- From a directory on the way, what is missing is made from the top down. -/
theorem outcome_forM_createDirectory {tree : Tree} {n : Nat} (hn : n ≤ (drive.keyOf path).length)
    (hdir : HasDirectory tree (keyAbove drive path n)) (hnone : ∀ i < n, get? tree (keyAbove drive path i) = none) :
    ∃ tree', (∀ other, get? tree' other =
        if other <+: drive.keyOf path ∧ (drive.keyOf path).length < other.length + n then
          some (.newDirectory (millis world.clock))
        else get? tree other) ∧
      ((ascent (parentOn drive) path n).reverse.forM (store registry).createDirectory).outcome
        (withTree id drive tree world) = (.ok (), withTree id drive tree' world) := by
  have hv := Scheme.ne_nil_of_isValid hs.isValid
  induction n generalizing tree with
  | zero =>
    refine ⟨tree, fun other => (if_neg ?_).symm, rfl⟩
    rintro ⟨hother, hlt⟩
    exact absurd hother.length_le (Nat.not_le.mpr hlt)
  | succ n ih =>
    have hkey : drive.keyOf (spelled drive path (keyAbove drive path n)) = keyAbove drive path n :=
      keyOf_spelled hv (proper_keyAbove n)
    have hmade := outcome_createDirectory_made hs hd (has_spelled hp (keyAbove drive path n))
      (by rw [hkey]; exact hnone n (Nat.lt_succ_self n)) (by rw [hkey, parent_keyAbove n]; exact hdir)
    rw [hkey] at hmade
    -- what has just been made is the directory that the next one goes into
    let made : Tree := put tree (keyAbove drive path n) (.newDirectory (millis world.clock))
    have hdir' : HasDirectory made (keyAbove drive path n) := ⟨_, by rw [get?_put, if_pos rfl], rfl⟩
    have hnone' : ∀ i < n, get? made (keyAbove drive path i) = none := by
      intro i hi
      rw [get?_put, if_neg, hnone i (Nat.lt_succ_of_lt hi)]
      intro hsame
      have hlength := congrArg List.length hsame
      rw [length_keyAbove, length_keyAbove] at hlength
      omega
    obtain ⟨tree', hget, hout⟩ := ih (Nat.le_of_succ_le hn) hdir' hnone'
    refine ⟨tree', fun other => ?_, ?_⟩
    · rw [hget, get?_put]
      have hlast : other = keyAbove drive path n ↔
          other <+: drive.keyOf path ∧ other.length + n = (drive.keyOf path).length :=
        eq_keyAbove_iff (Nat.le_of_succ_le hn)
      by_cases hother : other <+: drive.keyOf path
      · simp only [hlast, hother, true_and]
        split_ifs <;> first | rfl | omega
      · simp only [hlast, hother, false_and, if_false]
    · rw [ascent_succ (ancestor_spelled hv (Nat.le_of_succ_le hn)), List.reverse_append, List.reverse_singleton,
        List.singleton_append, List.forM, Call.outcome_bind, hmade]
      exact hout

/-- The climb passes just what is missing on the way. -/
theorem yields_missing_drive {tree : Tree} {n : Nat} (hn : n ≤ (drive.keyOf path).length)
    (hnone : ∀ i < n, get? tree (keyAbove drive path i) = none) (hhas : has tree (keyAbove drive path n) = true)
    {steps : Nat} (hsteps : n < steps) :
    Call.Yields ((store registry).missing steps (some path) []) (withTree id drive tree world)
      (ascent (parentOn drive) path n).reverse (fun s => s = withTree id drive tree world) := by
  have hv := Scheme.ne_nil_of_isValid hs.isValid
  refine (steady_drive hs hd hp tree).yields_missing rfl ⟨fun i hi => ?_, ?_⟩ hsteps
  · refine ⟨_, ancestor_spelled hv (by omega), ?_⟩
    change has tree (drive.keyOf (spelled drive path (keyAbove drive path i))) = false
    rw [keyOf_spelled hv (proper_keyAbove i), has_eq_false_iff]
    exact hnone i hi
  · rintro ⟨other, hother, hmiss⟩
    obtain rfl := Option.some.inj ((ancestor_spelled hv hn).symm.trans hother)
    change has tree (drive.keyOf (spelled drive path (keyAbove drive path n))) = false at hmiss
    rw [keyOf_spelled hv (proper_keyAbove n), hhas] at hmiss
    cases hmiss

end Making

/-! ### Making directories -/

/-- A climb may take more steps than the key of its path has names. -/
theorem length_keyOf_lt_climb (drive : Drive) (path : Text) (world : World) :
    (drive.keyOf path).length < world.climb path := by
  have hkey := drive.length_keyOf_le path
  have hclimb := count_add_le_climb world path
  omega

section

variable (hs : world.Serves registry id drive.scheme) (hd : world.drive? id = some drive)
  (hp : Scheme.has path drive.scheme = true)

include hs hd hp

/-- What has been passed on the way up to something is made. -/
theorem outcome_createDirectories_climbed {tree : Tree} {n : Nat} (hn : n ≤ (drive.keyOf path).length)
    (hnone : ∀ i < n, get? tree (keyAbove drive path i) = none) (hhas : has tree (keyAbove drive path n) = true) :
    (createDirectories registry (some path)).outcome (withTree id drive tree world) =
      ((ascent (parentOn drive) path n).reverse.forM (store registry).createDirectory).outcome
        (withTree id drive tree world) := by
  have hsteps := length_keyOf_lt_climb drive path (withTree id drive tree world)
  obtain ⟨t, hclimb, rfl⟩ := yields_missing_drive hs hd hp hn hnone hhas (Nat.lt_of_le_of_lt hn hsteps)
  rw [createDirectories, Call.outcome_bind, Call.outcome_get]
  simp only [Option.getD_some]
  rw [Store.createDirectories, Call.outcome_bind, hclimb]

/-- Where something is already, nothing is made. -/
theorem outcome_createDirectories_of_has {tree : Tree} (hhas : has tree (drive.keyOf path) = true) :
    (createDirectories registry (some path)).outcome (withTree id drive tree world) =
      (.ok (), withTree id drive tree world) := by
  have hself : keyAbove drive path 0 = drive.keyOf path := by rw [keyAbove, Nat.sub_zero, List.take_length]
  exact outcome_createDirectories_climbed hs hd hp (Nat.zero_le _) (fun i hi => absurd hi (Nat.not_lt_zero i))
    (hself ▸ hhas)

variable {tree : Tree} {near : Key} {node : Node} (hnear : tree.Nearest (drive.keyOf path) near node)

include hnear

/-- In a directory everything that is missing is made. -/
theorem outcome_createDirectories_in_directory (hw : tree.WellFormed) (hdir : node.isDirectory = true) :
    ∃ tree', Gains (millis world.clock) (drive.keyOf path) tree tree' ∧
      (createDirectories registry (some path)).outcome (withTree id drive tree world) =
        (.ok (), withTree id drive tree' world) := by
  obtain ⟨n, hn, hat, hlength, hnone⟩ := exists_keyAbove hnear
  obtain ⟨tree', hget, hout⟩ := outcome_forM_createDirectory hs hd hp hn ⟨node, hat ▸ hnear.found, hdir⟩ hnone
  refine ⟨tree', fun other => ?_, ?_⟩
  · rw [hget]
    refine if_congr (and_congr_right fun hother => ?_) rfl rfl
    rw [hnear.get?_eq_none_iff hw hother]
    omega
  · rw [outcome_createDirectories_climbed hs hd hp hn hnone (has_iff.mpr ⟨node, hat ▸ hnear.found⟩), hout]

/-- In a file nothing is made: already the first that is missing is refused. -/
theorem outcome_createDirectories_in_file (hno : has tree (drive.keyOf path) = false)
    (hfile : node.isDirectory = false) :
    (createDirectories registry (some path)).outcome (withTree id drive tree world) =
      (.error (.refused .parentNotDirectory (spelled drive path ((drive.keyOf path).take (near.length + 1)))),
        withTree id drive tree world) := by
  have hv := Scheme.ne_nil_of_isValid hs.isValid
  obtain ⟨n, hn, hat, hlength, hnone⟩ := exists_keyAbove hnear
  -- the path itself is missing, so it is not the last entry
  obtain ⟨m, rfl⟩ : ∃ m, n = m + 1 := by
    refine Nat.exists_eq_succ_of_ne_zero fun hzero => ?_
    rw [hzero, keyAbove, Nat.sub_zero, List.take_length] at hat
    rw [← hat, has_eq_false_iff, hnear.found] at hno
    cases hno
  have hfirst : keyAbove drive path m = (drive.keyOf path).take (near.length + 1) := by
    rw [keyAbove]
    congr 1
    omega
  have hkey : drive.keyOf (spelled drive path (keyAbove drive path m)) = keyAbove drive path m :=
    keyOf_spelled hv (proper_keyAbove m)
  have hrefused := outcome_createDirectory_refused hs hd (has_spelled hp (keyAbove drive path m))
    (by rw [hkey]; exact hnone m (Nat.lt_succ_self m))
    (by rw [hkey, parent_keyAbove m, ← hat]; exact hnear.found) hfile
  rw [outcome_createDirectories_climbed hs hd hp hn hnone (has_iff.mpr ⟨node, hat ▸ hnear.found⟩),
    ascent_succ (ancestor_spelled hv (Nat.le_of_succ_le hn)), List.reverse_append, List.reverse_singleton,
    List.singleton_append, List.forM, Call.outcome_bind, hrefused, hfirst]

omit hnear

/-- **What making a directory with its parents does.** Where something is at the path nothing happens. Otherwise the
last entry on the way decides: in a directory everything that is missing is made, and nothing else changes, so that
doing it again changes nothing; in a file nothing can be made, and nothing has been. -/
theorem outcome_createDirectories (hr : drive.Reached) :
    (drive.tree.has (drive.keyOf path) = true →
      (createDirectories registry (some path)).outcome world = (.ok (), world)) ∧
    (drive.tree.has (drive.keyOf path) = false →
      ∃ near node, drive.tree.Nearest (drive.keyOf path) near node ∧
        (node.isDirectory = true → ∃ tree,
          Gains (millis world.clock) (drive.keyOf path) drive.tree tree ∧
          (createDirectories registry (some path)).outcome world = (.ok (), withTree id drive tree world) ∧
          (createDirectories registry (some path)).outcome (withTree id drive tree world) =
            (.ok (), withTree id drive tree world)) ∧
        (node.isDirectory = false →
          (createDirectories registry (some path)).outcome world =
            (.error (.refused .parentNotDirectory
              (spelled drive path ((drive.keyOf path).take (near.length + 1)))), world))) := by
  have hself : withTree id drive drive.tree world = world := withDrive_self hd
  constructor
  · intro hhas
    have hdone := outcome_createDirectories_of_has hs hd hp hhas
    rwa [hself] at hdone
  · intro hno
    obtain ⟨near, node, hnear⟩ := hr.wellFormed.exists_nearest (drive.keyOf path)
    refine ⟨near, node, hnear, fun hdir => ?_, fun hfile => ?_⟩
    · obtain ⟨tree, hgains, hout⟩ := outcome_createDirectories_in_directory hs hd hp hnear hr.wellFormed hdir
      rw [hself] at hout
      exact ⟨tree, hgains, hout, outcome_createDirectories_of_has hs hd hp hgains.has⟩
    · have hrefused := outcome_createDirectories_in_file hs hd hp hnear hno hfile
      rwa [hself] at hrefused

end

theorem nearest_guarded : guardedDrive.tree.Nearest [['d'], ['x'], ['y']] [['d']] (.newDirectory 0) where
  above := ⟨[['x'], ['y']], rfl⟩
  found := by decide
  last := by
    intro other hother hlt
    have hall : ∀ other ∈ [['d'], ['x'], ['y']].inits, 1 < other.length → get? guardedDrive.tree other = none := by
      decide
    exact hall other ((List.mem_inits _ _).mpr hother) hlt

theorem outcome_createDirectories_guarded :
    guardedWorld.Serves 0 1 guardedDrive.scheme ∧ guardedWorld.drive? 1 = some guardedDrive ∧
      Scheme.has "mem:d//x/./y".toList guardedDrive.scheme = true ∧ guardedDrive.Reached ∧
      guardedDrive.tree.has [['d'], ['x'], ['y']] = false ∧
      ∃ tree, Gains 0 [['d'], ['x'], ['y']] guardedDrive.tree tree ∧
        (createDirectories 0 (some "mem:d//x/./y".toList)).outcome guardedWorld =
          (.ok (), withTree 1 guardedDrive tree guardedWorld) := by
  have hp : Scheme.has "mem:d//x/./y".toList guardedDrive.scheme = true := by decide
  have hkey : guardedDrive.keyOf "mem:d//x/./y".toList = [['d'], ['x'], ['y']] := by decide
  have hr : guardedDrive.Reached := ⟨"mem".toList, 0, .counting [], _, rfl⟩
  have hno : guardedDrive.tree.has [['d'], ['x'], ['y']] = false := by decide
  have h := (outcome_createDirectories guardedWorld_serves rfl hp hr).2 (by rw [hkey]; exact hno)
  rw [hkey] at h
  obtain ⟨near, node, hnear, hmade, -⟩ := h
  obtain ⟨rfl, rfl⟩ := hnear.unique nearest_guarded
  obtain ⟨tree, hgains, hout, -⟩ := hmade rfl
  exact ⟨guardedWorld_serves, rfl, hp, hr, hno, tree, hgains, hout⟩

end World

end FileRouter
