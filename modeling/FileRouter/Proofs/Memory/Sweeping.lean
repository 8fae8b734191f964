import FileRouter.Proofs.Memory.Clearing
/-!
Sweeping a part of a tree: everything goes that can go.

An entry is held when it is blocked itself or has something blocked below it (`held_iff`). Sweeping a region
takes every entry out of it that is not held. Since blocked entries stay, a sweep changes nothing about what is
held (`held_swept`), so sweeping two regions one after the other is sweeping both (`swept_swept`). The other
lemmas take a subtree apart the way the recursion does: into what is below its children and the entry itself.
-/

namespace FileRouter.Tree

open KeyMap

/-- Whether something at or below a key cannot be deleted. -/
def held (tree : Tree) (key : Key) : Bool :=
  tree.any fun entry => key.isPrefixOf entry.1 && (entry.1 == [] || entry.2.readOnly)

/-- The tree without the entries of a region that are not held. -/
def swept (tree : Tree) (region : Key → Bool) : Tree :=
  tree.filter fun entry => !(region entry.1 && !tree.held entry.1)

variable {tree : Tree} {region : Key → Bool} {key other : Key}

theorem held_iff (h : Distinct tree) :
    tree.held key = true ↔ ∃ other, key <+: other ∧ tree.Blocked other := by
  rw [held, List.any_eq_true]
  constructor
  · rintro ⟨⟨other, node⟩, hm, hentry⟩
    rw [Bool.and_eq_true, List.isPrefixOf_iff_prefix, Bool.or_eq_true, beq_iff_eq] at hentry
    exact ⟨other, hentry.1, node, get?_of_mem h hm, hentry.2⟩
  · rintro ⟨other, hp, node, hg, hblocked⟩
    refine ⟨(other, node), mem_of_get? hg, ?_⟩
    rw [Bool.and_eq_true, List.isPrefixOf_iff_prefix, Bool.or_eq_true, beq_iff_eq]
    exact ⟨hp, hblocked⟩

/-- What holds an entry holds the entries above it too. -/
theorem held_of_above (hp : key <+: other) (h : tree.held other = true) : tree.held key = true := by
  rw [held, List.any_eq_true] at h ⊢
  obtain ⟨entry, hm, hentry⟩ := h
  rw [Bool.and_eq_true, List.isPrefixOf_iff_prefix] at hentry
  refine ⟨entry, hm, ?_⟩
  rw [Bool.and_eq_true, List.isPrefixOf_iff_prefix]
  exact ⟨hp.trans hentry.1, hentry.2⟩

theorem get?_swept (tree : Tree) (region : Key → Bool) (key : Key) :
    get? (tree.swept region) key = if region key && !tree.held key then none else tree.get? key := by
  have h := get?_filter tree (fun key => !(region key && !tree.held key)) key
  rw [swept, h]
  cases region key && !tree.held key <;> rfl

/-- An entry that is left was there before. -/
theorem get?_of_swept {node : Node} (h : get? (tree.swept region) key = some node) :
    tree.get? key = some node := by
  rw [get?_swept] at h
  split_ifs at h
  exact h

/-- Two sweeps leave the same tree when their regions hold the same entries that can go. -/
theorem swept_congr {region' : Key → Bool}
    (h : ∀ {key : Key} {node : Node}, (key, node) ∈ tree → tree.held key = false →
      region key = region' key) :
    tree.swept region = tree.swept region' := by
  refine List.filter_congr fun entry hm => ?_
  cases hheld : tree.held entry.1 with
  | true => rw [Bool.not_true, Bool.and_false, Bool.and_false]
  | false => rw [h hm hheld]

/-- Where a region has no entry, sweeping it changes nothing. -/
theorem swept_empty (h : ∀ {key : Key} {node : Node}, (key, node) ∈ tree → region key = false) :
    tree.swept region = tree := by
  refine List.filter_eq_self.mpr fun entry hm => ?_
  rw [h hm, Bool.false_and]
  rfl

/-- Sweeping changes nothing about what is held. -/
theorem held_swept (h : Distinct tree) (region : Key → Bool) (key : Key) :
    (tree.swept region).held key = tree.held key := by
  have hdistinct : Distinct (tree.swept region) := distinct_filter h _
  rw [Bool.eq_iff_iff, held_iff hdistinct, held_iff h]
  constructor
  · rintro ⟨other, hp, node, hg, hblocked⟩
    exact ⟨other, hp, node, get?_of_swept hg, hblocked⟩
  · rintro ⟨other, hp, hb⟩
    refine ⟨other, hp, ?_⟩
    -- a blocked entry is held, so it is still there
    have hheld : tree.held other = true := (held_iff h).mpr ⟨other, List.prefix_refl other, hb⟩
    obtain ⟨node, hg, hblocked⟩ := hb
    refine ⟨node, ?_, hblocked⟩
    rw [get?_swept, hheld, Bool.not_true, Bool.and_false, if_neg (by simp), hg]

theorem swept_swept (h : Distinct tree) (first second : Key → Bool) :
    (tree.swept first).swept second = tree.swept fun key => first key || second key := by
  rw [swept, List.filter_congr fun entry _ => by rw [held_swept h first entry.1], swept, swept,
    List.filter_filter]
  refine List.filter_congr fun entry _ => ?_
  cases tree.held entry.1 <;> cases first entry.1 <;> cases second entry.1 <;> rfl

/-- Sweeping a region that reaches all the way down keeps a tree well formed. -/
theorem WellFormed.swept (h : tree.WellFormed)
    (hdown : ∀ key : Key, region key.parent = true → region key = true) :
    (tree.swept region).WellFormed := by
  refine h.filter (fun key => !(region key && !tree.held key)) ?_ ?_
  · obtain ⟨node, hg, -⟩ := h.root
    have hheld : tree.held [] = true :=
      (held_iff h.distinct).mpr ⟨[], List.prefix_refl [], node, hg, Or.inl rfl⟩
    rw [hheld, Bool.not_true, Bool.and_false]
    rfl
  · -- the directory above what is kept is kept: it is outside the region too, or it holds something on
    intro key _ _ hkeep
    rw [Bool.not_eq_true', Bool.and_eq_false_iff, Bool.not_eq_false'] at hkeep ⊢
    rcases hkeep with hout | hheld
    · left
      by_contra hin
      rw [Bool.not_eq_false] at hin
      rw [hdown key hin] at hout
      simp at hout
    · right
      exact held_of_above (List.dropLast_prefix key) hheld

/-! ### Children -/

/-- Whether a key is at or below one of some names in a directory. -/
def amongChildren (key : Key) (names : List Text) (other : Key) : Bool :=
  names.any fun name => (key ++ [name]).isPrefixOf other

theorem swept_amongChildren_cons (h : Distinct tree) (key : Key) (first : Text) (rest : List Text) :
    (tree.swept (key ++ [first]).isPrefixOf).swept (amongChildren key rest) =
      tree.swept (amongChildren key (first :: rest)) := by
  rw [swept_swept h]
  rfl

/-- What is at or below the children of a directory is what is below the directory. -/
theorem WellFormed.swept_children (h : tree.WellFormed) (key : Key) :
    tree.swept (amongChildren key (childrenNames tree key)) = tree.swept (·.isBelow key) := by
  refine swept_congr fun {entry node} hm _ => ?_
  rw [Bool.eq_iff_iff, amongChildren, List.any_eq_true]
  constructor
  · rintro ⟨name, -, hp⟩
    exact isBelow_of_child (List.isPrefixOf_iff_prefix.mp hp)
  · intro hbelow
    obtain ⟨name, rest, rfl, hname⟩ := h.exists_child (get?_of_mem h.distinct hm) hbelow
    refine ⟨name, hname, List.isPrefixOf_iff_prefix.mpr ⟨rest, ?_⟩⟩
    rw [List.append_assoc, List.singleton_append]

/-! ### Where nothing lies below -/

/-- Below what is no directory there is nothing to sweep. -/
theorem WellFormed.swept_below (h : tree.WellFormed) (hkey : ¬ tree.HasDirectory key) :
    tree.swept (·.isBelow key) = tree := by
  refine swept_empty fun {other node} hm => ?_
  by_contra hin
  rw [Bool.not_eq_false, Key.isBelow_iff] at hin
  have hnone := h.rooted.bareAt_of_not_dir hkey other hin.1 hin.2
  rw [get?_of_mem h.distinct hm] at hnone
  simp at hnone

/-- Where nothing is, nothing is below either. -/
theorem WellFormed.swept_missing (h : tree.WellFormed) (hnone : tree.get? key = none) :
    tree.swept key.isPrefixOf = tree := by
  have hsame : tree.swept key.isPrefixOf = tree.swept (·.isBelow key) := by
    refine swept_congr fun {other node} hm _ => ?_
    have hne : other ≠ key := by
      rintro rfl
      rw [get?_of_mem h.distinct hm] at hnone
      simp at hnone
    rw [isPrefixOf_eq, beq_eq_false_iff_ne.mpr hne, Bool.or_false]
  rw [hsame, h.swept_below (not_hasDirectory_of_missing hnone)]

/-- What holds an entry that is not blocked itself lies below it, so the entry is a directory. -/
theorem WellFormed.isDirectory_of_held (h : tree.WellFormed) {node : Node} (hg : tree.get? key = some node)
    (hheld : tree.held key = true) (hfree : ¬ tree.Blocked key) : node.isDirectory = true := by
  by_contra hfile
  obtain ⟨other, hext, hb⟩ := (held_iff h.distinct).mp hheld
  have hne : other ≠ key := by
    rintro rfl
    exact hfree hb
  obtain ⟨found, hfound, -⟩ := hb
  have hnone := h.rooted.bareAt_of_not_dir (not_hasDirectory_of_file hg hfile) other hext hne
  rw [hfound] at hnone
  simp at hnone

/-! ### The entry itself -/

/-- A held entry stays, so its subtree is swept when everything below it is. -/
theorem swept_of_held (hheld : tree.held key = true) :
    tree.swept (·.isBelow key) = tree.swept key.isPrefixOf := by
  refine swept_congr fun {entry node} _ hfree => ?_
  have hne : entry ≠ key := by
    rintro rfl
    rw [hheld] at hfree
    simp at hfree
  rw [isPrefixOf_eq, beq_eq_false_iff_ne.mpr hne, Bool.or_false]

/-- An entry that is not held goes when everything below it is swept. -/
theorem erase_swept (hfree : tree.held key = false) :
    erase (tree.swept (·.isBelow key)) key = tree.swept key.isPrefixOf := by
  rw [erase, swept, swept, List.filter_filter]
  refine List.filter_congr fun entry _ => ?_
  rw [isPrefixOf_eq]
  by_cases he : entry.1 = key
  · rw [he, hfree]
    simp
  · rw [beq_eq_false_iff_ne.mpr he, Bool.or_false]
    simp [he]

/-- Below an entry that is held but not blocked itself something is left. -/
theorem isEmptyAt_swept_of_held (h : tree.WellFormed) (hheld : tree.held key = true)
    (hfree : ¬ tree.Blocked key) : isEmptyAt (tree.swept (·.isBelow key)) key = false := by
  obtain ⟨other, hp, hb⟩ := (held_iff h.distinct).mp hheld
  have hne : other ≠ key := by
    rintro rfl
    exact hfree hb
  have hbelow : Key.isBelow other key = true := Key.isBelow_iff.mpr ⟨hp, hne⟩
  have hother : tree.held other = true := (held_iff h.distinct).mpr ⟨other, List.prefix_refl other, hb⟩
  -- the child on the way to what is blocked is held as well
  obtain ⟨node, hg, -⟩ := hb
  obtain ⟨name, rest, rfl, hname⟩ := h.exists_child hg hbelow
  have hchild : tree.held (key ++ [name]) = true := by
    refine held_of_above ?_ hother
    exact ⟨rest, by rw [List.append_assoc, List.singleton_append]⟩
  obtain ⟨child, hc⟩ := has_iff.mp (mem_childrenNames.mp hname)
  rw [← Bool.not_eq_true, isEmptyAt_iff]
  intro hempty
  have hnone := hempty name
  rw [get?_swept, hchild, Bool.not_true, Bool.and_false, if_neg (by simp), hc] at hnone
  simp at hnone

/-- Below an entry that is not held nothing is left. -/
theorem isEmptyAt_swept_of_free (hfree : tree.held key = false) :
    isEmptyAt (tree.swept (·.isBelow key)) key = true := by
  rw [isEmptyAt_iff]
  intro name
  have hchild : tree.held (key ++ [name]) = false := by
    by_contra hheld
    rw [Bool.not_eq_false] at hheld
    rw [held_of_above (List.prefix_append key [name]) hheld] at hfree
    simp at hfree
  rw [get?_swept, hchild, isBelow_of_child (List.prefix_refl _)]
  rfl

end FileRouter.Tree
