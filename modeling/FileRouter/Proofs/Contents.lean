import FileRouter.Bytes.Cursor
import FileRouter.Proofs.Key
import Mathlib.Data.List.Induction
import Mathlib.Data.List.Infix
/-!
What is in a tree, wherever the tree is kept.

`Contents` says for every key whether a directory is there, or a file with which bytes, or nothing. It leaves out
everything in which a drive and a disk differ. The operations on whole trees are stated here as changes of contents:
`prune` takes away a key with all that lies below it, `withPath` puts in the directories that are missing on the way
to a key, and `Removable`, `Writable` and `Passable` say when an entry can be deleted, a file written, and a way made.
-/

namespace FileRouter

/-- An entry of a tree. -/
inductive Item where
  | directory
  | file (bytes : Bytes)
  deriving Repr, DecidableEq

/-- What is at each key. -/
abbrev Contents := Key → Option Item

namespace Contents

/-- The root is a directory, and every other entry is in one. -/
structure WellFormed (items : Contents) : Prop where
  root : items [] = some .directory
  parents : ∀ {key : Key} {item : Item}, items key = some item → key ≠ [] → items key.parent = some .directory

/-- The contents of an empty tree. -/
def bare : Contents := fun key => if key = [] then some .directory else none

/-- The contents with an entry at a key. -/
def put (items : Contents) (key : Key) (item : Item) : Contents :=
  fun other => if other = key then some item else items other

/-- The contents without the entry at a key. -/
def erase (items : Contents) (key : Key) : Contents := fun other => if other = key then none else items other

/-- The contents without a key and all that lies below it. -/
def prune (items : Contents) (key : Key) : Contents := fun other => if key <+: other then none else items other

/-- The contents with a directory at a key and above it wherever nothing is. -/
def withPath (items : Contents) (key : Key) : Contents :=
  fun other => if other <+: key ∧ items other = none then some .directory else items other

/-- An entry that can be deleted: a file, or a directory with nothing in it. -/
def Removable (items : Contents) (key : Key) : Prop :=
  ∃ item, items key = some item ∧ (item = .directory → ∀ name, items (key ++ [name]) = none)

/-- A place where a file can be written: it is one, or nothing is there in a directory. -/
def Writable (items : Contents) (key : Key) : Prop :=
  (∃ bytes, items key = some (.file bytes)) ∨ (items key = none ∧ items key.parent = some .directory)

/-- Either something is at a key, or no file is in the way to it. -/
def Passable (items : Contents) (key : Key) : Prop :=
  items key ≠ none ∨ ∀ {other : Key} {bytes : Bytes}, other <+: key → items other ≠ some (.file bytes)

/-- Everything at and below a key is less than some levels deep. -/
def Within (items : Contents) (key : Key) (levels : Nat) : Prop :=
  ∀ {rest : Key} {item : Item}, items (key ++ rest) = some item → rest.length < levels

variable {items : Contents} {key : Key} {item : Item}

namespace WellFormed

/-- Above an entry are directories. -/
theorem above (h : items.WellFormed) {rest : Key} (hitem : items (key ++ rest) = some item) (hrest : rest ≠ []) :
    items key = some .directory := by
  induction rest using List.reverseRecOn generalizing item with
  | nil => exact absurd rfl hrest
  | append_singleton rest name ih =>
    have hparent := h.parents hitem (by simp)
    rw [← List.append_assoc, Key.parent_append_singleton] at hparent
    by_cases hr : rest = []
    · rwa [hr, List.append_nil] at hparent
    · exact ih hparent hr

/-- Where no directory is, nothing lies below. -/
theorem eq_none_below (h : items.WellFormed) (hkey : items key ≠ some .directory) {rest : Key} (hrest : rest ≠ []) :
    items (key ++ rest) = none := by
  cases hitem : items (key ++ rest) with
  | none => rfl
  | some item => exact absurd (h.above hitem hrest) hkey

/-- Nothing is below what is not there. -/
theorem eq_none_of_prefix (h : items.WellFormed) (hkey : items key = none) {other : Key} (hle : key <+: other) :
    items other = none := by
  obtain ⟨rest, rfl⟩ := hle
  by_cases hrest : rest = []
  · rwa [hrest, List.append_nil]
  · exact h.eq_none_below (by simp [hkey]) hrest

/-- There is no more at and below what is no directory. -/
theorem prune_eq_erase (h : items.WellFormed) (hkey : items key ≠ some .directory) :
    items.prune key = items.erase key := by
  funext other
  rw [prune, erase]
  split_ifs with hle heq heq
  · rfl
  · obtain ⟨rest, rfl⟩ := hle
    exact (h.eq_none_below hkey fun hr => heq (by rw [hr, List.append_nil])).symm
  · exact absurd (heq ▸ List.prefix_refl other) hle
  · rfl

theorem prune_eq_self (h : items.WellFormed) (hkey : items key = none) : items.prune key = items := by
  funext other
  rw [prune]
  split_ifs with hle
  · exact (h.eq_none_of_prefix hkey hle).symm
  · rfl

end WellFormed

theorem put_put (items : Contents) (key : Key) (first second : Item) :
    (items.put key first).put key second = items.put key second := by
  funext other
  rw [put, put, put]
  split_ifs <;> rfl

theorem Within.prune {levels : Nat} (h : items.Within key levels) (other : Key) :
    (items.prune other).Within key levels := by
  intro rest item hitem
  rw [Contents.prune] at hitem
  split_ifs at hitem
  exact h hitem

theorem Within.child {levels : Nat} (h : items.Within key (levels + 1)) (name : Text) :
    items.Within (key ++ [name]) levels := by
  intro rest item hitem
  rw [List.append_assoc] at hitem
  have hlt := h hitem
  rw [List.length_append, List.length_singleton] at hlt
  omega

/-! ### Directories cleared child by child -/

/-- The contents without some entries of a directory and all that lies below them. -/
def pruneEach (items : Contents) (key : Key) (names : List Text) : Contents :=
  names.foldl (fun items name => items.prune (key ++ [name])) items

theorem pruneEach_apply (items : Contents) (key : Key) (names : List Text) (other : Key) :
    items.pruneEach key names other = if ∃ name ∈ names, key ++ [name] <+: other then none else items other := by
  induction names generalizing items with
  | nil => simp [pruneEach]
  | cons first names ih =>
    have hstep : items.pruneEach key (first :: names) = (items.prune (key ++ [first])).pruneEach key names := rfl
    rw [hstep, ih, prune]
    by_cases hfirst : key ++ [first] <+: other
    · rw [if_pos hfirst, ite_self, if_pos ⟨first, List.mem_cons_self, hfirst⟩]
    · simp only [List.mem_cons, exists_eq_or_imp, hfirst, false_or, if_false]

/-- A directory is left as it is by what goes from it. -/
theorem pruneEach_self (items : Contents) (key : Key) (names : List Text) :
    items.pruneEach key names key = items key := by
  rw [pruneEach_apply, if_neg]
  rintro ⟨name, -, hle⟩
  have hlen := hle.length_le
  rw [List.length_append, List.length_singleton] at hlen
  omega

/-- When all entries of a directory are gone, it can go too, and then all that was below it is gone. -/
theorem WellFormed.erase_pruneEach (h : items.WellFormed) {names : List Text}
    (hnames : ∀ {name : Text}, items (key ++ [name]) ≠ none → name ∈ names) :
    (items.pruneEach key names).erase key = items.prune key := by
  funext other
  rw [erase, prune, pruneEach_apply]
  by_cases hle : key <+: other
  · rw [if_pos hle]
    obtain ⟨rest, rfl⟩ := hle
    cases rest with
    | nil => rw [List.append_nil, if_pos rfl]
    | cons name rest =>
      rw [if_neg (by simp)]
      split_ifs with hgone
      · -- it is at or below one of the names
        rfl
      · -- what is left below the key would be below one of its entries, which has a name among these
        by_contra hitem
        refine hgone ⟨name, hnames fun hnone => hitem ?_, ⟨rest, by simp⟩⟩
        exact h.eq_none_of_prefix hnone ⟨rest, by simp⟩
  · have hother : other ≠ key := fun he => hle (he ▸ List.prefix_refl other)
    rw [if_neg hother, if_neg hle, if_neg]
    rintro ⟨name, -, hpre⟩
    exact hle ((List.prefix_append key [name]).trans hpre)

/-! ### Ways -/

/-- The keys on the way to a key where nothing is, from the top down. -/
def gap (items : Contents) (key : Key) : List Key :=
  (key.inits.filter fun other => (items other).isNone)

theorem gap_append_singleton (items : Contents) (key : Key) (name : Text) :
    items.gap (key ++ [name]) =
      items.gap key ++ if (items (key ++ [name])).isNone then [key ++ [name]] else [] := by
  rw [gap, gap, List.inits_append]
  simp [List.filter_append, List.filter_cons]

/-- Nothing is missing on the way to an entry. -/
theorem WellFormed.gap_eq_nil (h : items.WellFormed) (hkey : items key ≠ none) : items.gap key = [] := by
  rw [gap, List.filter_eq_nil_iff]
  intro other hother hnone
  rw [List.mem_inits] at hother
  exact hkey (h.eq_none_of_prefix (Option.isNone_iff_eq_none.mp hnone) hother)

theorem gap_of_none {name : Text} (h : items (key ++ [name]) = none) :
    items.gap (key ++ [name]) = items.gap key ++ [key ++ [name]] := by
  rw [gap_append_singleton, h]
  rfl

theorem WellFormed.withPath_eq_self (h : items.WellFormed) (hkey : items key ≠ none) : items.withPath key = items := by
  funext other
  rw [withPath, if_neg]
  rintro ⟨hle, hnone⟩
  exact hkey (h.eq_none_of_prefix hnone hle)

/-- The way to an entry is the way to its directory, and the entry. -/
theorem put_withPath {name : Text} (h : items (key ++ [name]) = none) :
    (items.withPath key).put (key ++ [name]) .directory = items.withPath (key ++ [name]) := by
  funext other
  rw [put, withPath, withPath]
  simp only [List.prefix_concat_iff]
  by_cases heq : other = key ++ [name]
  · subst heq
    simp [h]
  · simp [heq]

end Contents

end FileRouter
