import FileRouter.Proofs.KeyMap
import Mathlib.Data.List.Induction
import Mathlib.Data.List.Perm.Subperm
/-!
Maps whose keys form a tree.

Where some values are directories, a map is rooted when its root is one of them and every other entry hangs in
one. A map stays rooted when an entry is made in a directory or replaced by one of its kind, when an entry that
nothing lies below is removed, and when a subtree is carried to a free place in a directory outside of it.
-/

namespace FileRouter.KeyMap

variable {α : Type} {isDir : α → Bool} {map : KeyMap α} {key : Key} {value : α}

/-- A directory is at a key. -/
def HasDir (isDir : α → Bool) (map : KeyMap α) (key : Key) : Prop :=
  ∃ value, get? map key = some value ∧ isDir value = true

/-- The keys form a tree of directories: no key occurs twice, the root is a directory, and every other entry
hangs in a directory. -/
structure Rooted (isDir : α → Bool) (map : KeyMap α) : Prop where
  distinct : Distinct map
  root : HasDir isDir map []
  parents : ∀ {key : Key} {value : α}, get? map key = some value → key ≠ [] →
    HasDir isDir map key.parent

namespace Rooted

/-- Every entry above an entry is a directory. -/
theorem above (h : Rooted isDir map) {rest : Key} (hg : get? map (key ++ rest) = some value)
    (hr : rest ≠ []) : HasDir isDir map key := by
  induction rest using List.reverseRecOn generalizing value with
  | nil => exact absurd rfl hr
  | append_singleton rest name ih =>
    rw [← List.append_assoc] at hg
    have hp := h.parents hg (by simp)
    rw [Key.parent_append_singleton] at hp
    by_cases hrest : rest = []
    · rwa [hrest, List.append_nil] at hp
    · obtain ⟨above, ha, -⟩ := hp
      exact ih ha hrest

/-- A key has fewer names than there are entries, since everything above it is one. -/
theorem length_lt (h : Rooted isDir map) (hg : get? map key = some value) : key.length < map.length := by
  -- every key above is there, and they are of all lengths down to none
  have hlengths : List.range (key.length + 1) ⊆ map.map fun entry => entry.1.length := by
    intro n hn
    rw [List.mem_range] at hn
    obtain ⟨above, habove⟩ : ∃ above, get? map (key.take n) = some above := by
      by_cases hrest : key.drop n = []
      · rw [List.take_of_length_le (List.drop_eq_nil_iff.mp hrest)]
        exact ⟨value, hg⟩
      · rw [← List.take_append_drop n key] at hg
        obtain ⟨above, habove, -⟩ := h.above hg hrest
        exact ⟨above, habove⟩
    refine List.mem_map.mpr ⟨(key.take n, above), mem_of_get? habove, ?_⟩
    rw [List.length_take]
    omega
  -- so there are more entries than the key has names
  have hle := (List.subperm_of_subset List.nodup_range hlengths).length_le
  rw [List.length_range, List.length_map] at hle
  omega

/-- Where no directory is, nothing lies below. -/
theorem bareAt_of_not_dir (h : Rooted isDir map) (hk : ¬ HasDir isDir map key) : BareAt map key := by
  rintro other ⟨rest, rfl⟩ hne
  by_contra hg
  obtain ⟨value, hg⟩ := Option.ne_none_iff_exists'.mp hg
  exact hk (h.above hg (fun hr => hne (by rw [hr, List.append_nil])))

/-- Where nothing lies directly below a key, nothing lies below it at all. -/
theorem bareAt_of_isEmptyAt (h : Rooted isDir map) (hk : isEmptyAt map key = true) : BareAt map key := by
  rintro other ⟨rest, rfl⟩ hne
  by_contra hg
  obtain ⟨value, hg⟩ := Option.ne_none_iff_exists'.mp hg
  obtain ⟨name, rest, rfl⟩ : ∃ name rest', rest = name :: rest' :=
    List.exists_cons_of_ne_nil (fun hr => hne (by rw [hr, List.append_nil]))
  have hnone := isEmptyAt_iff.mp hk name
  by_cases hr : rest = []
  · rw [hr, hnone] at hg
    simp at hg
  · rw [← List.singleton_append, ← List.append_assoc] at hg
    -- an entry further down needs the child on the way to it
    obtain ⟨child, hc, -⟩ := h.above hg hr
    rw [hnone] at hc
    simp at hc

/-- A place that holds no directory, or an empty one, is bare. -/
theorem bareAt (h : Rooted isDir map)
    (hk : ∀ {value : α}, get? map key = some value → isDir value = true → isEmptyAt map key = true) :
    BareAt map key := by
  by_cases hd : HasDir isDir map key
  · obtain ⟨value, hg, hdir⟩ := hd
    exact h.bareAt_of_isEmptyAt (hk hg hdir)
  · exact h.bareAt_of_not_dir hd

/-- Keys with the parents of all of them, where directories are. -/
theorem of_keys {keys : List Key} (hd : keys.Nodup) (hroot : [] ∈ keys)
    (hup : ∀ key ∈ keys, key ≠ [] → key.parent ∈ keys) {dir : α} (hdir : isDir dir = true) :
    Rooted isDir (keys.map fun key => (key, dir)) := by
  have hhas : ∀ {key : Key}, key ∈ keys → HasDir isDir (keys.map fun key => (key, dir)) key :=
    fun hk => ⟨dir, by rw [get?_map_key, if_pos hk], hdir⟩
  refine ⟨?_, hhas hroot, fun {key value} hg hne => ?_⟩
  · rw [Distinct, List.map_map]
    simpa [Function.comp_def] using hd
  · rw [get?_map_key] at hg
    split at hg
    next hk => exact hhas (hup key hk hne)
    next => simp at hg

/-- A new entry in a directory. -/
theorem put_new (h : Rooted isDir map) (hg : get? map key = none) (hp : HasDir isDir map key.parent)
    (value : α) : Rooted isDir (put map key value) := by
  have hkeep : ∀ {other : Key}, HasDir isDir map other → HasDir isDir (put map key value) other := by
    rintro other ⟨dir, hd, hdir⟩
    refine ⟨dir, ?_, hdir⟩
    rw [get?_put, if_neg (fun he => by rw [he, hg] at hd; simp at hd), hd]
  refine ⟨distinct_put h.distinct _ _, hkeep h.root, ?_⟩
  intro other found hf hne
  rw [get?_put] at hf
  split at hf
  next he => exact hkeep (he ▸ hp)
  next => exact hkeep (h.parents hf hne)

/-- An entry in place of another of the same kind. -/
theorem put_same (h : Rooted isDir map) {new : α} (hg : get? map key = some value)
    (hkind : isDir new = isDir value) : Rooted isDir (put map key new) := by
  -- what was a directory still is one, at the key as well as elsewhere
  have hkeep : ∀ {other : Key}, HasDir isDir map other → HasDir isDir (put map key new) other := by
    rintro other ⟨dir, hd, hdir⟩
    by_cases he : other = key
    · subst he
      rw [hg] at hd
      obtain rfl := Option.some.inj hd
      exact ⟨new, by rw [get?_put, if_pos rfl], hkind.trans hdir⟩
    · exact ⟨dir, by rw [get?_put, if_neg he, hd], hdir⟩
  refine ⟨distinct_put h.distinct _ _, hkeep h.root, ?_⟩
  intro other found hf hne
  rw [get?_put] at hf
  split at hf
  next he => exact hkeep (h.parents (he ▸ hg) hne)
  next => exact hkeep (h.parents hf hne)

/-- Entries that stay with everything above them. -/
theorem filter (h : Rooted isDir map) (keep : Key → Bool) (hroot : keep [] = true)
    (hup : ∀ {key : Key}, (∃ value, get? map key = some value) → key ≠ [] → keep key = true →
      keep key.parent = true) :
    Rooted isDir (map.filter fun entry => keep entry.1) := by
  have hkeep : ∀ {key : Key}, HasDir isDir map key → keep key = true →
      HasDir isDir (map.filter fun entry => keep entry.1) key := by
    rintro key ⟨dir, hd, hdir⟩ hk
    exact ⟨dir, by rw [get?_filter, if_pos hk, hd], hdir⟩
  refine ⟨distinct_filter h.distinct _, hkeep h.root hroot, ?_⟩
  intro key found hf hne
  rw [get?_filter] at hf
  split at hf
  next hk => exact hkeep (h.parents hf hne) (hup ⟨found, hf⟩ hne hk)
  next => simp at hf

/-- A map without an entry that nothing lies below. -/
theorem erase (h : Rooted isDir map) (hne : key ≠ []) (hb : BareAt map key) :
    Rooted isDir (KeyMap.erase map key) := by
  refine h.filter (fun other => decide (other ≠ key)) (by simpa using Ne.symm hne) ?_
  rintro other ⟨value, hg⟩ hother hk
  simp only [decide_eq_true_eq] at hk ⊢
  rintro rfl
  rw [hb other (List.dropLast_prefix other) hk] at hg
  simp at hg

/-- A map in which a subtree has been carried to a bare place in a directory outside of it. -/
theorem rename (h : Rooted isDir map) {source target : Key} (hs : get? map source = some value)
    (hroot : source ≠ []) (hout : ¬ source <+: target) (hp : HasDir isDir map target.parent)
    (hb : BareAt map target) : Rooted isDir (KeyMap.rename map source target) := by
  have hnil : target ≠ [] := by
    rintro rfl
    rw [hb source List.nil_prefix hroot] at hs
    simp at hs
  have hget : ∀ key, get? (KeyMap.rename map source target) key = _ := get?_rename h.distinct hb
  -- a directory outside of both subtrees stays where it is
  have hkeep : ∀ {key : Key}, HasDir isDir map key → ¬ target <+: key → ¬ source <+: key →
      HasDir isDir (KeyMap.rename map source target) key := by
    rintro key ⟨dir, hd, hdir⟩ hkt hks
    rw [← List.isPrefixOf_iff_prefix] at hkt hks
    exact ⟨dir, by rw [hget, if_neg hkt, if_neg hks, hd], hdir⟩
  refine ⟨distinct_rename h.distinct hb, ?_, ?_⟩
  · exact hkeep h.root (fun hp => hnil (List.prefix_nil.mp hp))
      (fun hp => hroot (List.prefix_nil.mp hp))
  · intro key found hf hne
    rcases get?_rename_cases h.distinct hb hf with ⟨rest, rfl, ho⟩ | ⟨hkt, hks, ho⟩
    -- what has been carried hangs in its old directory, which has come along, or in the target's
    · rcases List.eq_nil_or_concat rest with rfl | ⟨above, name, rfl⟩
      · rw [List.append_nil]
        refine hkeep hp (fun hpre => ?_)
          (fun hpre => hout (hpre.trans (List.dropLast_prefix _)))
        have hlen := hpre.length_le
        have hpos := List.length_pos_iff.mpr hnil
        rw [Key.parent, List.length_dropLast] at hlen
        omega
      · rw [List.concat_eq_append, ← List.append_assoc] at ho
        rw [List.concat_eq_append, ← List.append_assoc]
        obtain ⟨dir, hd, hdir⟩ := h.parents ho (by simp)
        rw [Key.parent_append_singleton] at hd ⊢
        refine ⟨dir, ?_, hdir⟩
        rw [hget, if_pos (List.isPrefixOf_iff_prefix.mpr (List.prefix_append _ _)), List.drop_left, hd]
    · exact hkeep (h.parents ho hne) (fun hpre => hkt (hpre.trans (List.dropLast_prefix _)))
        (fun hpre => hks (hpre.trans (List.dropLast_prefix _)))

end Rooted

end FileRouter.KeyMap
