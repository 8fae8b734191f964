import FileRouter.Proofs.Memory.Sweeping
import FileRouter.Proofs.Store.Delete
/-!
Deleting what can be deleted of a subtree of a drive.

When failures are passed over, no entry stops the walk: each call sweeps its subtree, whatever is in it. As for
the walk that stops, the proof is by induction on the levels that are left, with an induction over the children
inside; here the children need not be gone when the directory's own turn comes. Main statement: exactly the
entries that are held stay (`outcome_deleteRecursive_tryOnly`).
-/

namespace FileRouter.World

open KeyMap FileRouter.Tree

variable {world : World} {registry id : Nat} {drive : Drive}

theorem count_swept_le (tree : Tree) (region region' : Key → Bool) :
    count (tree.swept region') region ≤ count tree region :=
  (List.filter_sublist.filter _).length_le

section Requests

variable (hs : world.Serves registry id drive.scheme) (hd : world.drive? id = some drive)

/-- What a recursion with some levels left does to every path with fewer entries at and below it. -/
def Sweeps (world : World) (registry id : Nat) (drive : Drive) (levels : Nat) : Prop :=
  ∀ (path : Text) {tree : Tree}, tree.WellFormed → Scheme.has path drive.scheme = true →
    count tree (drive.keyOf path).isPrefixOf < levels →
    ((store registry).deleteRecursive true levels path).outcome (withTree id drive tree world) =
      (.ok (), withTree id drive (tree.swept (drive.keyOf path).isPrefixOf) world)

/-- The calls for some children of a directory sweep the subtrees of these children. -/
theorem Sweeps.children {levels : Nat} (hw : Sweeps world registry id drive levels)
    (hv : drive.scheme ≠ []) {key : Key} (names : List Text) {tree : Tree} (ht : tree.WellFormed)
    (hproper : ∀ name ∈ names, Key.Proper (key ++ [name]))
    (hcount : count tree (·.isBelow key) < levels) :
    ((names.map fun name => drive.pathOf (key ++ [name])).forM
        ((store registry).deleteRecursive true levels)).outcome (withTree id drive tree world) =
      (.ok (), withTree id drive (tree.swept (amongChildren key names)) world) := by
  induction names generalizing tree with
  | nil =>
    have hsame : tree.swept (amongChildren key []) = tree := swept_empty fun _ => rfl
    rw [hsame]
    rfl
  | cons first rest ih =>
    have hkey := Drive.keyOf_pathOf hv (hproper first List.mem_cons_self)
    have hle : count tree (key ++ [first]).isPrefixOf ≤ count tree (·.isBelow key) :=
      (List.monotone_filter_right tree fun entry he =>
        isBelow_of_child (List.isPrefixOf_iff_prefix.mp he)).length_le
    have hfirst := hw (drive.pathOf (key ++ [first])) ht (Scheme.has_join hv _)
    rw [hkey] at hfirst
    -- the first child leaves a well-formed tree, in which the others are as they were
    have hdown : ∀ other : Key, (key ++ [first]).isPrefixOf other.parent = true →
        (key ++ [first]).isPrefixOf other = true := by
      intro other hp
      rw [List.isPrefixOf_iff_prefix] at hp ⊢
      exact hp.trans (List.dropLast_prefix other)
    have hrest := ih (ht.swept hdown) (fun name hm => hproper name (List.mem_cons_of_mem _ hm))
      (lt_of_le_of_lt (count_swept_le tree _ _) hcount)
    rw [swept_amongChildren_cons ht.distinct] at hrest
    rw [List.map_cons, List.forM, Call.outcome_bind, hfirst (lt_of_le_of_lt hle hcount)]
    exact hrest

/-- Once everything below an entry is swept, a deletion of the entry itself sweeps its subtree. -/
theorem delete_swept {tree : Tree} (ht : tree.WellFormed) {path : Text} {node : Node}
    (hg : tree.get? (drive.keyOf path) = some node) :
    ((Drive.delete path).outcome { drive with tree := tree.swept (·.isBelow (drive.keyOf path)) }).2 =
      { drive with tree := tree.swept (drive.keyOf path).isPrefixOf } := by
  let left : Tree := tree.swept (·.isBelow (drive.keyOf path))
  have hleft : get? left (drive.keyOf path) = some node := by
    rw [get?_swept, isBelow_self, Bool.false_and, if_neg (by simp), hg]
  have hkey : ({ drive with tree := left } : Drive).keyOf path = drive.keyOf path := rfl
  have hdelete := Drive.outcome_delete path { drive with tree := left }
  rw [hkey, hleft] at hdelete
  simp only at hdelete
  rw [hdelete]
  cases hheld : tree.held (drive.keyOf path) with
  -- an entry that is held stays: it is blocked itself, or it is a directory in which something is left
  | true =>
    rw [← swept_of_held hheld]
    by_cases hroot : drive.keyOf path = []
    · rw [if_pos hroot]
    · rw [if_neg hroot]
      by_cases hro : node.readOnly = true
      · rw [if_pos hro]
      · have hfree : ¬ tree.Blocked (drive.keyOf path) := by
          rintro ⟨other, ho, hblocked⟩
          rw [hg] at ho
          exact hblocked.elim hroot (Option.some.inj ho ▸ hro)
        have hempty := isEmptyAt_swept_of_held ht hheld hfree
        rw [if_neg hro, ht.isDirectory_of_held hg hheld hfree, hempty]
        rfl
  -- an entry that is not held is neither blocked nor a directory with something in it
  | false =>
    have hfree : ¬ tree.Blocked (drive.keyOf path) := by
      intro hb
      rw [(held_iff ht.distinct).mpr ⟨_, List.prefix_refl _, hb⟩] at hheld
      simp at hheld
    have hroot : drive.keyOf path ≠ [] := fun hroot => hfree ⟨node, hg, Or.inl hroot⟩
    have hro : ¬ node.readOnly = true := fun hro => hfree ⟨node, hg, Or.inr hro⟩
    have hempty := isEmptyAt_swept_of_free hheld
    rw [if_neg hroot, if_neg hro, hempty, Bool.not_true, Bool.and_false, if_neg (by simp),
      ← erase_swept hheld]

include hs hd

/-- Once everything below an entry is swept, trying to delete the entry itself sweeps its subtree. -/
theorem outcome_attemptDelete_swept {tree : Tree} (ht : tree.WellFormed) {path : Text} {node : Node}
    (hp : Scheme.has path drive.scheme = true) (hg : tree.get? (drive.keyOf path) = some node) :
    ∃ failure, ((store registry).attemptDelete path).outcome
        (withTree id drive (tree.swept (·.isBelow (drive.keyOf path))) world) =
      (.ok ⟨path, failure⟩, withTree id drive (tree.swept (drive.keyOf path).isPrefixOf) world) := by
  have hleft := delete_swept ht hg
  rw [Store.attemptDelete, Call.outcome_bind, Call.outcome_failure?, outcome_delete hs hd _ hp]
  revert hleft
  generalize (Drive.delete path).outcome
    { drive with tree := tree.swept (·.isBelow (drive.keyOf path)) } = out
  obtain ⟨failure | _, left⟩ := out
  · rintro rfl
    exact ⟨some failure, rfl⟩
  · rintro rfl
    exact ⟨none, rfl⟩

/-- Every number of levels is enough for what it has to be enough for. -/
theorem sweeps (hv : drive.scheme ≠ []) (levels : Nat) : Sweeps world registry id drive levels := by
  induction levels with
  | zero =>
    intro path tree _ _ hcount
    omega
  | succ levels ih =>
    intro path tree ht hp hcount
    rw [Store.deleteRecursive, Call.outcome_bind, outcome_exists hs hd tree hp]
    cases hhas : has tree (drive.keyOf path) with
    -- where nothing is, nothing is below either
    | false =>
      rw [ht.swept_missing (has_eq_false_iff.mp hhas)]
      rfl
    | true =>
      obtain ⟨node, hg⟩ := has_iff.mp hhas
      obtain ⟨failure, hown⟩ := outcome_attemptDelete_swept hs hd ht hp hg
      have hlevels : count tree (·.isBelow (drive.keyOf path)) < levels := by
        have hlt := count_below_lt hhas
        omega
      simp only [if_true]
      rw [Call.outcome_bind, outcome_isDirectory hs hd tree hp, hg, Option.any_some]
      by_cases hdir : node.isDirectory = true
      · have hproper : ∀ name ∈ childrenNames tree (drive.keyOf path),
            Key.Proper (drive.keyOf path ++ [name]) := by
          intro name hm
          obtain ⟨child, hc⟩ := has_iff.mp (mem_childrenNames.mp hm)
          exact ht.proper hc
        have hchildren := ih.children hv _ ht hproper hlevels
        rw [ht.swept_children] at hchildren
        simp only [hdir, if_true]
        rw [Call.outcome_bind, outcome_listFiles hs hd tree hp ⟨node, hg, hdir⟩]
        simp only
        rw [Call.outcome_bind, hchildren]
        simp only
        rw [Call.outcome_bind, hown]
        rfl
      -- below a file there is nothing to sweep
      · rw [ht.swept_below (not_hasDirectory_of_file hg hdir)] at hown
        simp only [hdir, Bool.false_eq_true, if_false]
        rw [Call.outcome_bind, hown]
        rfl

end Requests

/-! ### The whole deletion -/

/-- **What deleting as much as possible of a subtree does.** The call ends well. Of what was at and below the
path exactly these entries stay: the root, those that are protected, and those with something protected below
them. Whatever stays is as it was, and so is all the rest of the world. -/
theorem outcome_deleteRecursive_tryOnly (hs : world.Serves registry id drive.scheme)
    (hd : world.drive? id = some drive) (hr : drive.Reached) {path : Text}
    (hp : Scheme.has path drive.scheme = true) :
    ∃ tree : Tree,
      (deleteRecursive registry path true).outcome world = (.ok (), withTree id drive tree world) ∧
      (∀ {key : Key} {node : Node}, drive.tree.get? key = some node → drive.keyOf path <+: key →
        (tree.has key = true ↔ key = [] ∨ node.readOnly = true ∨
          ∃ (other : Key) (found : Node), other.isBelow key = true ∧ drive.tree.get? other = some found ∧
            found.readOnly = true)) ∧
      (∀ {key : Key} {node : Node}, tree.get? key = some node → drive.tree.get? key = some node) ∧
      ∀ {key : Key}, ¬ drive.keyOf path <+: key → tree.get? key = drive.tree.get? key := by
  have ht := hr.wellFormed
  refine ⟨drive.tree.swept (drive.keyOf path).isPrefixOf, ?_, ?_, get?_of_swept, ?_⟩
  · have hself : withTree id drive drive.tree world = world := withDrive_self hd
    have hlevels := length_lt_levels hd
    have hle : count drive.tree (drive.keyOf path).isPrefixOf ≤ drive.tree.length :=
      List.length_filter_le _ _
    have hsweep := sweeps hs hd (Scheme.ne_nil_of_isValid hs.isValid) world.levels path ht hp (by omega)
    rw [hself] at hsweep
    rw [deleteRecursive, Call.outcome_bind, Call.outcome_get]
    exact hsweep
  · intro key node hg hin
    have hstays : (drive.tree.swept (drive.keyOf path).isPrefixOf).has key = true ↔
        drive.tree.held key = true := by
      rw [has, get?_swept, List.isPrefixOf_iff_prefix.mpr hin, Bool.true_and, hg]
      cases drive.tree.held key <;> simp
    rw [hstays, held_iff ht.distinct]
    constructor
    · rintro ⟨other, hext, found, hfound, hblocked⟩
      by_cases he : other = key
      · subst he
        rw [hg] at hfound
        obtain rfl := Option.some.inj hfound
        exact hblocked.imp_right Or.inl
      · -- what lies below something is not the root
        have hbelow : Key.isBelow other key = true := Key.isBelow_iff.mpr ⟨hext, he⟩
        refine Or.inr (Or.inr ⟨other, found, hbelow, hfound, hblocked.resolve_left fun hroot => ?_⟩)
        rw [hroot] at hext he
        exact he (List.prefix_nil.mp hext).symm
    · rintro (hroot | hro | ⟨other, found, hbelow, hfound, hro⟩)
      · exact ⟨key, List.prefix_refl key, node, hg, Or.inl hroot⟩
      · exact ⟨key, List.prefix_refl key, node, hg, Or.inr hro⟩
      · exact ⟨other, (Key.isBelow_iff.mp hbelow).1, found, hfound, Or.inr hro⟩
  · intro key hout
    rw [get?_swept, Bool.eq_false_iff.mpr fun hin => hout (List.isPrefixOf_iff_prefix.mp hin),
      Bool.false_and, if_neg (by simp)]

/-- From the directory `d` of the guarded drive, only what is neither protected nor above something protected
goes. -/
theorem outcome_deleteRecursive_tryOnly_guarded :
    guardedDrive.Reached ∧ Scheme.has "mem://d/".toList guardedDrive.scheme = true ∧
      ∃ tree : Tree,
        (deleteRecursive 0 "mem://d/".toList true).outcome guardedWorld =
          (.ok (), withTree 1 guardedDrive tree guardedWorld) ∧
        tree.has [['d']] = true ∧ tree.has [['d'], ['a']] = false ∧ tree.has [['d'], ['b']] = true := by
  have hr : guardedDrive.Reached := ⟨"mem".toList, 0, .counting [], _, rfl⟩
  have hp : Scheme.has "mem://d/".toList guardedDrive.scheme = true := by decide
  have hkey : guardedDrive.keyOf "mem://d/".toList = [['d']] := by decide
  obtain ⟨tree, hout, hstays, -, -⟩ := outcome_deleteRecursive_tryOnly guardedWorld_serves rfl hr hp
  rw [hkey] at hstays
  have hd : guardedDrive.tree.get? [['d']] = some ⟨true, [], 0, false⟩ := by decide
  have ha : guardedDrive.tree.get? [['d'], ['a']] = some ⟨false, [], 0, false⟩ := by decide
  have hb : guardedDrive.tree.get? [['d'], ['b']] = some ⟨false, [], 0, true⟩ := by decide
  have ha' : ¬ tree.has [['d'], ['a']] = true := by
    rw [hstays ha (by decide)]
    rintro (hroot | hro | ⟨other, found, hbelow, hfound, hro⟩)
    · simp at hroot
    · simp at hro
    -- the only protected entry is not below the file
    · have hall : ∀ entry ∈ guardedDrive.tree, entry.2.readOnly = true →
          Key.isBelow entry.1 [['d'], ['a']] = false := by decide
      rw [hall _ (mem_of_get? hfound) hro] at hbelow
      simp at hbelow
  refine ⟨hr, hp, tree, hout, ?_, Bool.eq_false_iff.mpr ha', ?_⟩
  · exact (hstays hd (by decide)).mpr (Or.inr (Or.inr ⟨_, _, by decide, hb, rfl⟩))
  · exact (hstays hb (by decide)).mpr (Or.inr (Or.inl rfl))

end FileRouter.World
