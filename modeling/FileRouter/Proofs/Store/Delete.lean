import FileRouter.Proofs.Memory.Clearing
import FileRouter.Proofs.Memory.Run
import FileRouter.Proofs.World.Memory
import Mathlib.Algebra.Order.BigOperators.Group.List
import Mathlib.Algebra.Order.Group.Nat
/-!
Deleting a subtree of a drive.

The recursion asks for what is below a path again and again while the tree shrinks under it. Its state is
always the world `withTree`: the same world with another tree on the drive. By induction on the levels that
are left, with an induction over the remaining children inside, each call clears its subtree up to the first
blocked entry (`outcome_deleteRecursive`).
-/

namespace FileRouter.World

open KeyMap FileRouter.Tree

/-- The world with another tree on a drive. -/
def withTree (id : Nat) (drive : Drive) (tree : Tree) (world : World) : World :=
  withDrive id { drive with tree } world

/-- How a walk ends: well, or with the refusal of the entry it stops at, by the path it goes by. -/
def walkResult (spelling : Key → Text) : Option Key → Except Failure Unit
  | none => .ok ()
  | some stop =>
    .error (.denied (if stop = [] then "Cannot delete the root".toList else "File is read-only".toList)
      (spelling stop))

/-- The path of a key on a drive, except that one key goes by the path it has been given by. -/
def spelled (drive : Drive) (path : Text) (key : Key) : Text :=
  if key = drive.keyOf path then path else drive.pathOf key

/-- How many entries of a tree are in a region. -/
def count (tree : Tree) (region : Key → Bool) : Nat :=
  (tree.filter fun entry => region entry.1).length

theorem count_cleared_le (tree : Tree) (region region' : Key → Bool) (stop : Option Key) :
    count (tree.cleared region' stop) region ≤ count tree region :=
  (List.filter_sublist.filter _).length_le

theorem count_pos {tree : Tree} {key : Key} (h : has tree key = true) :
    0 < count tree key.isPrefixOf := by
  obtain ⟨node, hg⟩ := has_iff.mp h
  refine List.length_pos_of_mem (a := (key, node)) (List.mem_filter.mpr ⟨mem_of_get? hg, ?_⟩)
  exact List.isPrefixOf_iff_prefix.mpr (List.prefix_refl key)

/-- Fewer entries lie below an entry than at and below it. -/
theorem count_below_lt {tree : Tree} {key : Key} (h : has tree key = true) :
    count tree (·.isBelow key) < count tree key.isPrefixOf := by
  obtain ⟨node, hg⟩ := has_iff.mp h
  have hsplit : (tree.filter fun entry => entry.1.isBelow key) =
      (tree.filter fun entry => key.isPrefixOf entry.1).filter fun entry => entry.1.isBelow key := by
    rw [List.filter_filter]
    refine List.filter_congr fun entry _ => ?_
    rw [isPrefixOf_eq]
    cases entry.1.isBelow key <;> rfl
  rw [count, count, hsplit, List.length_filter_lt_length_iff_exists]
  -- the key itself is at the key and not below it
  refine ⟨(key, node), List.mem_filter.mpr ⟨mem_of_get? hg, ?_⟩, ?_⟩
  · exact List.isPrefixOf_iff_prefix.mpr (List.prefix_refl key)
  · rw [isBelow_self]
    simp

variable {world : World} {registry id : Nat} {drive : Drive}

/-! ### Single requests -/

section Requests

variable (hs : world.Serves registry id drive.scheme) (hd : world.drive? id = some drive)

include hs hd

/-- A request to a drive with another tree. -/
theorem outcome_withTree (request : Request) (tree : Tree)
    (hp : Scheme.has request.path drive.scheme = true)
    (hm : mismatch? (withTree id drive tree world) registry request = none) :
    (perform registry request).outcome (withTree id drive tree world) =
      let out := (Drive.perform (millis world.clock) request).outcome ({ drive with tree }, world.tokens)
      (out.1.map (request.mapHandle (.memory id)),
        { withDrive id out.2.1 world with tokens := out.2.2 }) := by
  have hd' : (withTree id drive tree world).drive? id = some { drive with tree } := drive?_withDrive hd
  have hs' : (withTree id drive tree world).Serves registry id drive.scheme := hs
  rw [outcome_perform request hs' hd' hp hm]
  simp only [withTree, withDrive_withDrive, clock_withDrive, tokens_withDrive]

theorem outcome_exists (tree : Tree) {path : Text} (hp : Scheme.has path drive.scheme = true) :
    ((store registry).exists? path).outcome (withTree id drive tree world) =
      (.ok (has tree (drive.keyOf path)), withTree id drive tree world) :=
  outcome_withTree hs hd (.exists path) tree hp rfl

theorem outcome_isDirectory (tree : Tree) {path : Text} (hp : Scheme.has path drive.scheme = true) :
    ((store registry).isDirectory path).outcome (withTree id drive tree world) =
      (.ok ((get? tree (drive.keyOf path)).any Node.isDirectory), withTree id drive tree world) :=
  outcome_withTree hs hd (.isDirectory path) tree hp rfl

theorem outcome_listFiles (tree : Tree) {path : Text} (hp : Scheme.has path drive.scheme = true)
    (hdir : HasDirectory tree (drive.keyOf path)) :
    ((store registry).listFiles path).outcome (withTree id drive tree world) =
      (.ok ((childrenNames tree (drive.keyOf path)).map fun name =>
        drive.pathOf (drive.keyOf path ++ [name])), withTree id drive tree world) := by
  obtain ⟨node, hg, hdir⟩ := hdir
  have h := Drive.outcome_listFiles path { drive with tree }
  have hkey : ({ drive with tree } : Drive).keyOf path = drive.keyOf path := rfl
  rw [hkey, hg] at h
  simp only [hdir, if_true] at h
  refine (outcome_withTree hs hd (.listFiles path) tree hp rfl).trans ?_
  rw [Drive.perform, Drive.outcome_plain, h]
  rfl

theorem outcome_delete (tree : Tree) {path : Text} (hp : Scheme.has path drive.scheme = true) :
    ((store registry).delete path).outcome (withTree id drive tree world) =
      (((Drive.delete path).outcome { drive with tree }).1,
        withDrive id ((Drive.delete path).outcome { drive with tree }).2 world) := by
  refine (outcome_withTree hs hd (.delete path) tree hp rfl).trans ?_
  rw [Drive.perform, Drive.outcome_plain]
  rcases (Drive.delete path).outcome { drive with tree } with ⟨_ | _, _⟩ <;> rfl

/-! ### The walk -/

omit hs hd

theorem spelled_pathOf (hv : drive.scheme ≠ []) {key : Key} (h : key.Proper) :
    spelled drive (drive.pathOf key) = drive.pathOf := by
  funext other
  rw [spelled, Drive.keyOf_pathOf hv h]
  split_ifs with he
  · rw [he]
  · rfl

/-- What a recursion with some levels left does to every path with few enough entries at and below it. -/
def Walks (world : World) (registry id : Nat) (drive : Drive) (levels : Nat) : Prop :=
  ∀ (path : Text) {tree : Tree}, tree.WellFormed → Scheme.has path drive.scheme = true →
    has tree (drive.keyOf path) = true → count tree (drive.keyOf path).isPrefixOf ≤ levels →
    ∃ stop, StopsAt tree (drive.keyOf path).isPrefixOf stop ∧
      ((store registry).deleteRecursive false levels path).outcome (withTree id drive tree world) =
        (walkResult (spelled drive path) stop,
          withTree id drive (tree.cleared (drive.keyOf path).isPrefixOf stop) world)

theorem Walks.child {levels : Nat} (hw : Walks world registry id drive levels)
    (hv : drive.scheme ≠ []) {key : Key} {name : Text} {tree : Tree} (ht : tree.WellFormed)
    (hm : name ∈ childrenNames tree key) (hcount : count tree (·.isBelow key) ≤ levels) :
    ∃ stop, StopsAt tree (key ++ [name]).isPrefixOf stop ∧
      ((store registry).deleteRecursive false levels (drive.pathOf (key ++ [name]))).outcome
          (withTree id drive tree world) =
        (walkResult drive.pathOf stop,
          withTree id drive (tree.cleared (key ++ [name]).isPrefixOf stop) world) := by
  have hhas := mem_childrenNames.mp hm
  have hproper : Key.Proper (key ++ [name]) := by
    obtain ⟨node, hg⟩ := has_iff.mp hhas
    exact ht.proper hg
  have hkey := Drive.keyOf_pathOf hv hproper
  -- what is at the child is below the key, so the levels are enough for it
  have hle : count tree (key ++ [name]).isPrefixOf ≤ levels := by
    refine le_trans ?_ hcount
    refine (List.monotone_filter_right tree fun entry he => ?_).length_le
    exact isBelow_of_child (List.isPrefixOf_iff_prefix.mp he)
  have h := hw (drive.pathOf (key ++ [name])) ht (Scheme.has_join hv _)
  rw [hkey, spelled_pathOf hv hproper] at h
  exact h hhas hle

/-- The calls for the children of a directory clear what is below it. -/
theorem Walks.children {levels : Nat} (hw : Walks world registry id drive levels)
    (hv : drive.scheme ≠ []) {key : Key} (names : List Text) {tree : Tree} (ht : tree.WellFormed)
    (hn : childrenNames tree key = names) (hcount : count tree (·.isBelow key) ≤ levels) :
    ∃ stop, StopsAt tree (·.isBelow key) stop ∧
      ((names.map fun name => drive.pathOf (key ++ [name])).forM
          ((store registry).deleteRecursive false levels)).outcome (withTree id drive tree world) =
        (walkResult drive.pathOf stop,
          withTree id drive (tree.cleared (·.isBelow key) stop) world) := by
  induction names generalizing tree with
  | nil =>
    have hempty : tree.isEmptyAt key = true := by
      refine isEmptyAt_iff.mpr fun name => has_eq_false_iff.mp ?_
      rw [← Bool.not_eq_true, ← mem_childrenNames, hn]
      simp
    have hbare := ht.rooted.bareAt_of_isEmptyAt hempty
    refine ⟨none, stopsAt_bare hbare, ?_⟩
    rw [cleared_bare ht hbare]
    rfl
  | cons first rest ih =>
    obtain ⟨stop, hstop, hout⟩ := hw.child hv ht (by rw [hn]; exact List.mem_cons_self) hcount
    rw [List.map_cons, List.forM, Call.outcome_bind, hout]
    cases stop with
    | some stop =>
      -- the walk stops in the subtree of the first child; the others are not tried
      refine ⟨some stop, hstop.of_first ht hn, ?_⟩
      rw [← cleared_of_first ht hn hstop]
      rfl
    | none =>
      have hne : key ++ [first] ≠ [] := by simp
      obtain ⟨stop, hrest, hout'⟩ := ih (ht.cleared_subtree hne) (childrenNames_cleared ht hn)
        (le_trans (count_cleared_le tree _ _ none) hcount)
      refine ⟨stop, hstop.of_rest hrest, ?_⟩
      rw [← cleared_of_rest ht hn hrest]
      exact hout'

include hs hd

/-- Once everything below an entry is gone, the entry itself goes, or it is where the walk stops. -/
theorem outcome_delete_cleared {tree : Tree} {path : Text} (hp : Scheme.has path drive.scheme = true)
    (hhas : has tree (drive.keyOf path) = true)
    (hbelow : StopsAt tree (·.isBelow (drive.keyOf path)) none) :
    ∃ stop, StopsAt tree (drive.keyOf path).isPrefixOf stop ∧
      ((store registry).delete path).outcome
          (withTree id drive (tree.cleared (·.isBelow (drive.keyOf path)) none) world) =
        (walkResult (spelled drive path) stop,
          withTree id drive (tree.cleared (drive.keyOf path).isPrefixOf stop) world) := by
  obtain ⟨node, hg⟩ := has_iff.mp hhas
  let left : Tree := tree.cleared (·.isBelow (drive.keyOf path)) none
  have hleft : get? left (drive.keyOf path) = some node := by
    rw [get?_cleared, isBelow_self, Bool.false_and, if_neg (by simp), hg]
  have hempty : isEmptyAt left (drive.keyOf path) = true := by
    refine isEmptyAt_iff.mpr fun name => ?_
    rw [get?_cleared, isBelow_of_child (List.prefix_refl _), Option.all_none, Bool.and_true, if_pos rfl]
  have hkey : ({ drive with tree := left } : Drive).keyOf path = drive.keyOf path := rfl
  have hout := Drive.outcome_delete path { drive with tree := left }
  rw [hkey, hleft] at hout
  simp only [hempty, Bool.not_true, Bool.and_false, Bool.false_eq_true, if_false] at hout
  rw [outcome_delete hs hd left hp, hout]
  have hself : spelled drive path (drive.keyOf path) = path := if_pos rfl
  -- the root and a protected entry stay, and are reported by the path that was given
  by_cases hroot : drive.keyOf path = []
  · refine ⟨some (drive.keyOf path), stopsAt_self hbelow ⟨node, hg, Or.inl hroot⟩, ?_⟩
    rw [if_pos hroot, ← cleared_self, walkResult, if_pos hroot, hself]
    rfl
  · rw [if_neg hroot]
    by_cases hro : node.readOnly = true
    · refine ⟨some (drive.keyOf path), stopsAt_self hbelow ⟨node, hg, Or.inr hro⟩, ?_⟩
      rw [if_pos hro, ← cleared_self, walkResult, if_neg hroot, hself]
      rfl
    · have hfree : ¬ tree.Blocked (drive.keyOf path) := by
        rintro ⟨other, ho, hblocked⟩
        rw [hg] at ho
        exact hblocked.elim hroot (Option.some.inj ho ▸ hro)
      refine ⟨none, stopsAt_none hbelow hfree, ?_⟩
      rw [if_neg hro, ← erase_cleared]
      rfl

/-- Every number of levels is enough for what it has to be enough for. -/
theorem walks (hv : drive.scheme ≠ []) (levels : Nat) : Walks world registry id drive levels := by
  induction levels with
  | zero =>
    intro path tree _ _ hhas hcount
    -- the entry itself is one too many
    have hpos := count_pos hhas
    omega
  | succ levels ih =>
    intro path tree ht hp hhas hcount
    obtain ⟨node, hg⟩ := has_iff.mp hhas
    have hlevels : count tree (·.isBelow (drive.keyOf path)) ≤ levels := by
      have hlt := count_below_lt hhas
      omega
    rw [Store.deleteRecursive, Call.outcome_bind, outcome_exists hs hd tree hp, hhas]
    simp only [if_true]
    rw [Call.outcome_bind, outcome_isDirectory hs hd tree hp, hg, Option.any_some]
    by_cases hdir : node.isDirectory = true
    · obtain ⟨stop, hstop, hout⟩ := ih.children hv _ ht rfl hlevels
      simp only [hdir, if_true]
      rw [Call.outcome_bind, outcome_listFiles hs hd tree hp ⟨node, hg, hdir⟩]
      simp only
      rw [Call.outcome_bind, hout]
      cases stop with
      | none => exact outcome_delete_cleared hs hd hp hhas hstop
      | some stop =>
        -- the refusal comes from below, so the entry itself goes by its own path
        have hin : stop.isBelow (drive.keyOf path) = true := hstop.1
        have hne : stop ≠ drive.keyOf path := (Key.isBelow_iff.mp hin).2
        refine ⟨some stop, hstop.of_below, ?_⟩
        rw [← cleared_of_below hin, walkResult, walkResult, spelled, if_neg hne]
    -- below a file there is nothing
    · have hbare := ht.rooted.bareAt_of_not_dir (not_hasDirectory_of_file hg hdir)
      have h := outcome_delete_cleared hs hd hp hhas (stopsAt_bare hbare)
      rw [cleared_bare ht hbare] at h
      simp only [hdir]
      exact h

end Requests

/-! ### The whole deletion -/

/-- **What deleting a subtree does.** Where nothing is at the path nothing happens. Otherwise the entries at
and below it go in the order of a walk, up to the first blocked one; the call is refused for that one, or
ends well if there is none, and nothing else in the world changes. -/
theorem outcome_deleteRecursive (hs : world.Serves registry id drive.scheme)
    (hd : world.drive? id = some drive) (hr : drive.Reached) {path : Text}
    (hp : Scheme.has path drive.scheme = true) :
    (drive.tree.has (drive.keyOf path) = false →
      (deleteRecursive registry path false).outcome world = (.ok (), world)) ∧
    (drive.tree.has (drive.keyOf path) = true →
      ∃ stop, StopsAt drive.tree (drive.keyOf path).isPrefixOf stop ∧
        (deleteRecursive registry path false).outcome world =
          (walkResult (spelled drive path) stop,
            withTree id drive (drive.tree.cleared (drive.keyOf path).isPrefixOf stop) world)) := by
  have hself : withTree id drive drive.tree world = world := withDrive_self hd
  have hlevels := length_lt_levels hd
  rw [deleteRecursive, Call.outcome_bind, Call.outcome_get]
  constructor
  · intro hno
    obtain ⟨levels, hl⟩ : ∃ levels, world.levels = levels + 1 := ⟨world.levels - 1, by omega⟩
    have hexists := outcome_exists hs hd drive.tree hp
    rw [hself, hno] at hexists
    simp only [hl]
    rw [Store.deleteRecursive, Call.outcome_bind, hexists]
    rfl
  · intro hhas
    -- every level of the walk uses up an entry below the key, of which there are no more than entries at all
    have hcount : count drive.tree (drive.keyOf path).isPrefixOf ≤ world.levels := by
      have hle : count drive.tree (drive.keyOf path).isPrefixOf ≤ drive.tree.length :=
        List.length_filter_le _ _
      omega
    have hwalk := walks hs hd (Scheme.ne_nil_of_isValid hs.isValid) world.levels path
      hr.wellFormed hp hhas hcount
    rwa [hself] at hwalk

/-- A drive with a directory of two files, of which the second is protected. -/
def guardedDrive : Drive :=
  (Drive.run (.fresh "mem".toList 0, .counting [])
    [.ask 0 (.createDirectory "mem:/d".toList), .ask 0 (.createFile "mem:/d/a".toList),
      .ask 0 (.createFile "mem:/d/b".toList), .ask 0 (.setReadOnly "mem:/d/b".toList)]).1

/-- A world in which it is registered beside the disk. -/
def guardedWorld : World :=
  { fresh [] 0 (.counting []) with
    providers := [⟨Disk.scheme, .ownSchemeOrNone, none, .disk⟩,
      ⟨"mem".toList, .ownScheme, none, .memory guardedDrive⟩]
    registries := [⟨[⟨1, "mem".toList, .ownScheme⟩], ⟨0, Disk.scheme, .ownSchemeOrNone⟩⟩] }

theorem guardedWorld_serves : guardedWorld.Serves 0 1 guardedDrive.scheme := by
  refine ⟨_, ⟨1, "mem".toList, .ownScheme⟩, rfl, ⟨?_, by decide⟩, ?_, List.mem_singleton.mpr rfl, rfl,
    by decide⟩
  · intro member hm
    rw [List.mem_singleton.mp hm]
    decide
  · intro member hm start
    rw [List.mem_singleton.mp hm]
    simp

theorem outcome_deleteRecursive_guarded :
    guardedWorld.Serves 0 1 guardedDrive.scheme ∧ guardedWorld.drive? 1 = some guardedDrive ∧
      guardedDrive.Reached ∧ Scheme.has "mem://d/".toList guardedDrive.scheme = true ∧
      ∃ stop, StopsAt guardedDrive.tree [['d']].isPrefixOf stop ∧
        (deleteRecursive 0 "mem://d/".toList false).outcome guardedWorld =
          (walkResult (spelled guardedDrive "mem://d/".toList) stop,
            withTree 1 guardedDrive (guardedDrive.tree.cleared [['d']].isPrefixOf stop) guardedWorld) := by
  have hr : guardedDrive.Reached := ⟨"mem".toList, 0, .counting [], _, rfl⟩
  have hp : Scheme.has "mem://d/".toList guardedDrive.scheme = true := by decide
  have hkey : guardedDrive.keyOf "mem://d/".toList = [['d']] := by decide
  have h := outcome_deleteRecursive guardedWorld_serves rfl hr hp
  rw [hkey] at h
  exact ⟨guardedWorld_serves, rfl, hr, hp, h.2 (by decide)⟩

end FileRouter.World
