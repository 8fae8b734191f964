import FileRouter.KeyMap
import FileRouter.Proofs.Key
import Mathlib.Data.List.Nodup
import Mathlib.Data.List.Sort
/-!
Maps from keys, through their one view.

For every operation there is an equation that says what `get?` finds afterwards (`get?_put`,
`get?_erase`, `get?_filter`, `get?_rename`), and a lemma that the keys stay distinct. `childrenNames`
lists exactly the names directly below a key, each once and in their order
(`mem_childrenNames`, `childrenNames_pairwise`), which determines it (`childrenNames_eq`).
-/

namespace FileRouter.KeyMap

variable {α : Type} {map : KeyMap α}

/-- No key occurs twice. -/
def Distinct (map : KeyMap α) : Prop := (map.map Prod.fst).Nodup

/-! ### What is in a map -/

theorem get?_cons (entry : Key × α) (map : KeyMap α) (key : Key) :
    get? (entry :: map) key = if entry.1 = key then some entry.2 else get? map key := by
  by_cases h : entry.1 = key <;> simp [get?, h]

theorem get?_map_key (keys : List Key) (value : α) (key : Key) :
    get? (keys.map fun key => (key, value)) key = if key ∈ keys then some value else none := by
  induction keys with
  | nil => rfl
  | cons other keys ih =>
    rw [List.map_cons, get?_cons, ih]
    by_cases he : other = key
    · simp [he]
    · simp [he, Ne.symm he]

theorem mem_of_get? {key : Key} {value : α} (h : get? map key = some value) : (key, value) ∈ map := by
  rw [get?, Option.map_eq_some_iff] at h
  obtain ⟨entry, hf, rfl⟩ := h
  have hk : entry.1 = key := by simpa using List.find?_some hf
  rw [← hk]
  exact List.mem_of_find?_eq_some hf

theorem get?_of_mem (hd : Distinct map) {key : Key} {value : α} (h : (key, value) ∈ map) :
    get? map key = some value := by
  induction map with
  | nil => simp at h
  | cons entry map ih =>
    obtain ⟨hnot, hd⟩ := List.nodup_cons.mp hd
    rw [get?_cons]
    rcases List.mem_cons.mp h with rfl | h
    · rw [if_pos rfl]
    · rw [if_neg, ih hd h]
      intro he
      exact hnot (List.mem_map.mpr ⟨(key, value), h, he.symm⟩)

theorem get?_eq_some_iff (hd : Distinct map) {key : Key} {value : α} :
    get? map key = some value ↔ (key, value) ∈ map :=
  ⟨mem_of_get?, get?_of_mem hd⟩

theorem get?_eq_none_iff {key : Key} : get? map key = none ↔ ∀ value, (key, value) ∉ map := by
  constructor
  · intro h value hm
    simp only [get?, Option.map_eq_none_iff, List.find?_eq_none] at h
    exact h (key, value) hm (by simp)
  · intro h
    cases hg : get? map key with
    | none => rfl
    | some value => exact absurd (mem_of_get? hg) (h value)

theorem has_iff {key : Key} : has map key = true ↔ ∃ value, get? map key = some value := by
  rw [has, Option.isSome_iff_exists]

theorem has_of_mem {entry : Key × α} (h : entry ∈ map) : has map entry.1 = true := by
  rw [has_iff]
  by_contra hno
  rw [← Option.isSome_iff_exists, Option.not_isSome_iff_eq_none, get?_eq_none_iff] at hno
  exact hno entry.2 h

theorem has_eq_false_iff {key : Key} : has map key = false ↔ get? map key = none := by
  rw [has, Option.isSome_eq_false_iff, Option.isNone_iff_eq_none]

/-! ### Putting and removing -/

theorem get?_append (map other : KeyMap α) (key : Key) :
    get? (map ++ other) key = (get? map key).or (get? other key) := by
  rw [get?, List.find?_append, Option.map_or]
  rfl

/-- A map whose entries at one key have been replaced. -/
theorem get?_map_replace (map : KeyMap α) (key other : Key) (value : α) :
    get? (map.map fun entry => if entry.1 = key then (key, value) else entry) other =
      if other = key then (get? map key).map fun _ => value else get? map other := by
  induction map with
  | nil => simp [get?]
  | cons entry map ih =>
    rw [List.map_cons, get?_cons, ih, get?_cons, get?_cons]
    by_cases he : entry.1 = key <;> by_cases ho : other = key
    · simp [he, ho]
    · rw [if_pos he, if_neg (Ne.symm ho), if_neg ho, if_neg ho,
        if_neg (fun h => ho (h.symm.trans he))]
    · subst ho
      simp [he]
    · rw [if_neg he, if_neg ho, if_neg ho]

theorem get?_put (map : KeyMap α) (key other : Key) (value : α) :
    get? (put map key value) other = if other = key then some value else get? map other := by
  rw [put]
  split
  next h =>
    obtain ⟨old, ho⟩ := has_iff.mp h
    rw [get?_map_replace, ho, Option.map_some]
  next h =>
    rw [Bool.not_eq_true, has_eq_false_iff] at h
    rw [get?_append, get?_cons]
    by_cases ho : other = key
    · rw [ho, h, if_pos rfl, if_pos rfl, Option.none_or]
    · rw [if_neg (Ne.symm ho), if_neg ho]
      simp [get?]

theorem has_put_self (map : KeyMap α) (key : Key) (value : α) : has (put map key value) key = true := by
  rw [has, get?_put, if_pos rfl, Option.isSome_some]

/-- Of two values for a key the second stays. -/
theorem put_put (map : KeyMap α) (key : Key) (first second : α) :
    put (put map key first) key second = put map key second := by
  rw [put, if_pos (has_put_self map key first), put, put]
  split_ifs with hhas
  · rw [List.map_map]
    refine List.map_congr_left fun entry _ => ?_
    by_cases hkey : entry.1 = key <;> simp [hkey]
  · have hkeep : ∀ entry ∈ map, (if entry.1 = key then (key, second) else entry) = entry := by
      intro entry hm
      refine if_neg ?_
      rintro rfl
      exact hhas (has_of_mem hm)
    rw [List.map_append, List.map_congr_left hkeep, List.map_id', List.map_singleton, if_pos rfl]

theorem get?_filter (map : KeyMap α) (keep : Key → Bool) (key : Key) :
    get? (map.filter fun entry => keep entry.1) key = if keep key then get? map key else none := by
  induction map with
  | nil => simp [get?]
  | cons entry map ih =>
    rw [List.filter_cons, get?_cons]
    by_cases hk : keep entry.1 = true <;> by_cases he : entry.1 = key
    · rw [if_pos hk, get?_cons, if_pos he, if_pos he, if_pos (he ▸ hk)]
    · rw [if_pos hk, get?_cons, if_neg he, if_neg he, ih]
    · rw [if_neg hk, ih, if_neg (he ▸ hk), if_neg (he ▸ hk)]
    · rw [if_neg hk, ih, if_neg he]

theorem get?_erase (map : KeyMap α) (key other : Key) :
    get? (erase map key) other = if other = key then none else get? map other := by
  have h := get?_filter map (fun k => decide (k ≠ key)) other
  rw [erase, h]
  by_cases ho : other = key <;> simp [ho]

theorem distinct_filter (hd : Distinct map) (keep : Key × α → Bool) :
    Distinct (map.filter keep) :=
  hd.sublist (List.filter_sublist.map Prod.fst)

theorem distinct_put (hd : Distinct map) (key : Key) (value : α) : Distinct (put map key value) := by
  rw [put]
  split
  next =>
    -- a value that is replaced leaves the keys as they are
    have hmap : (map.map fun entry => if entry.1 = key then (key, value) else entry).map Prod.fst =
        map.map Prod.fst := by
      rw [List.map_map]
      refine List.map_congr_left fun entry _ => ?_
      by_cases he : entry.1 = key <;> simp [he]
    rw [Distinct, hmap]
    exact hd
  next h =>
    rw [Bool.not_eq_true, has_eq_false_iff, get?_eq_none_iff] at h
    rw [Distinct, List.map_append, List.nodup_append]
    refine ⟨hd, by simp, ?_⟩
    intro a ha b hb hab
    obtain ⟨entry, hm, rfl⟩ := List.mem_map.mp ha
    obtain rfl : b = key := by simpa using hb
    exact h entry.2 (hab ▸ hm)

/-! ### What lies directly below a key -/

theorem mem_childrenNames {key : Key} {name : Text} :
    name ∈ childrenNames map key ↔ has map (key ++ [name]) = true := by
  rw [childrenNames, Text.mem_sorted, List.mem_map]
  constructor
  · rintro ⟨entry, hm, rfl⟩
    obtain ⟨hm, hc⟩ := List.mem_filter.mp hm
    obtain ⟨name, hn⟩ := Key.isChildOf_iff.mp hc
    rw [hn, Key.name_append_singleton, ← hn]
    exact has_of_mem hm
  · intro h
    obtain ⟨value, hv⟩ := has_iff.mp h
    refine ⟨(key ++ [name], value), List.mem_filter.mpr ⟨mem_of_get? hv, ?_⟩, by simp⟩
    exact Key.isChildOf_iff.mpr ⟨name, rfl⟩

theorem isEmptyAt_iff {key : Key} :
    isEmptyAt map key = true ↔ ∀ name, get? map (key ++ [name]) = none := by
  rw [isEmptyAt, Bool.not_eq_true', List.any_eq_false]
  constructor
  · intro h name
    rw [get?_eq_none_iff]
    intro value hm
    exact h _ hm (Key.isChildOf_iff.mpr ⟨name, rfl⟩)
  · intro h entry hm hc
    obtain ⟨name, hn⟩ := Key.isChildOf_iff.mp hc
    exact get?_eq_none_iff.mp (h name) entry.2 (hn ▸ hm)

theorem childrenNames_nodup (hd : Distinct map) (key : Key) : (childrenNames map key).Nodup := by
  refine (Text.sorted_perm _).nodup_iff.mpr ?_
  have hk : (map.filter fun entry => entry.1.isChildOf key).map (fun entry => entry.1.name) =
      ((map.filter fun entry => entry.1.isChildOf key).map Prod.fst).map Key.name := by
    rw [List.map_map]
    rfl
  rw [hk]
  refine List.Nodup.map_on ?_ (distinct_filter hd _)
  intro a ha b hb hab
  obtain ⟨first, hf, rfl⟩ := List.mem_map.mp ha
  obtain ⟨second, hs, rfl⟩ := List.mem_map.mp hb
  -- children of one key with the same last name are the same key
  obtain ⟨x, hx⟩ := Key.isChildOf_iff.mp (List.mem_filter.mp hf).2
  obtain ⟨y, hy⟩ := Key.isChildOf_iff.mp (List.mem_filter.mp hs).2
  rw [hx, hy, Key.name_append_singleton, Key.name_append_singleton] at hab
  rw [hx, hy, hab]

/-- The names below a key stand in the order of their code points, and none stands twice. -/
theorem childrenNames_pairwise (hd : Distinct map) (key : Key) :
    (childrenNames map key).Pairwise fun a b => Text.le a b = true ∧ a ≠ b :=
  (Text.sorted_pairwise _).and (childrenNames_nodup hd key)

/-- The names below a key are determined by what they are and by their order. -/
theorem childrenNames_eq (hd : Distinct map) {key : Key} {names : List Text}
    (hp : names.Pairwise fun a b => Text.le a b = true ∧ a ≠ b)
    (hm : ∀ name, name ∈ names ↔ has map (key ++ [name]) = true) :
    childrenNames map key = names := by
  have hperm : (childrenNames map key).Perm names := by
    rw [List.perm_ext_iff_of_nodup (childrenNames_nodup hd key) (hp.imp fun h => h.2)]
    intro name
    rw [mem_childrenNames, hm]
  exact hperm.eq_of_pairwise (fun a b _ _ hab hba => Text.le_antisymm hab.1 hba.1)
    (childrenNames_pairwise hd key) hp

/-! ### Carrying a subtree elsewhere -/

section Rename

variable {source target : Key}

/-- Where a key leads after what is at and below `source` has been carried to `target`. -/
def carried (source target key : Key) : Key :=
  if source.isPrefixOf key then target ++ key.drop source.length else key

theorem carried_append (source target rest : Key) :
    carried source target (source ++ rest) = target ++ rest := by
  rw [carried, if_pos (List.isPrefixOf_iff_prefix.mpr (List.prefix_append _ _)), List.drop_left]

theorem carried_outside {key : Key} (h : ¬ source <+: key) : carried source target key = key := by
  rw [carried, if_neg (fun hp => h (List.isPrefixOf_iff_prefix.mp hp))]

theorem mem_rename {key : Key} {value : α} :
    (key, value) ∈ rename map source target ↔
      ∃ old, (old, value) ∈ map ∧ (source <+: old ∨ old ≠ target) ∧
        carried source target old = key := by
  rw [rename, List.mem_map]
  constructor
  · rintro ⟨⟨old, v⟩, hm, he⟩
    obtain ⟨hm, hk⟩ := List.mem_filter.mp hm
    simp only [Bool.or_eq_true, List.isPrefixOf_iff_prefix, decide_eq_true_eq] at hk
    have hv : carried source target old = key ∧ v = value := by
      rw [carried]
      split at he <;> simp_all
    exact ⟨old, hv.2 ▸ hm, hk, hv.1⟩
  · rintro ⟨old, hm, hk, rfl⟩
    refine ⟨(old, value), List.mem_filter.mpr ⟨hm, by simpa using hk⟩, ?_⟩
    rw [carried]
    split <;> rfl

/-- Nothing lies strictly below a key. -/
def BareAt (map : KeyMap α) (key : Key) : Prop :=
  ∀ other, key <+: other → other ≠ key → get? map other = none

/-- What stays in its place is not found at or below a bare target. -/
theorem not_prefix_of_stays (hb : BareAt map target) {old : Key} {value : α}
    (hm : (old, value) ∈ map) (hk : old ≠ target) : ¬ target <+: old := by
  intro hp
  exact get?_eq_none_iff.mp (hb old hp hk) value hm

theorem distinct_rename (hd : Distinct map) (hb : BareAt map target) :
    Distinct (rename map source target) := by
  have hkeys : (rename map source target).map Prod.fst =
      ((map.filter fun entry => source.isPrefixOf entry.1 || entry.1 ≠ target).map Prod.fst).map
        (carried source target) := by
    rw [rename, List.map_map, List.map_map]
    refine List.map_congr_left fun entry _ => ?_
    simp only [Function.comp_apply, carried]
    split <;> rfl
  rw [Distinct, hkeys]
  refine List.Nodup.map_on ?_ (distinct_filter hd _)
  intro a ha b hb' hab
  obtain ⟨⟨a, v⟩, hma, rfl⟩ := List.mem_map.mp ha
  obtain ⟨⟨b, w⟩, hmb, rfl⟩ := List.mem_map.mp hb'
  obtain ⟨hma, hka⟩ := List.mem_filter.mp hma
  obtain ⟨hmb, hkb⟩ := List.mem_filter.mp hmb
  simp only [Bool.or_eq_true, List.isPrefixOf_iff_prefix, decide_eq_true_eq] at hka hkb
  -- of two entries that get one key, both are carried or neither: the target of the carried ones is bare
  by_cases hpa : source <+: a <;> by_cases hpb : source <+: b
  · obtain ⟨ra, rfl⟩ := hpa
    obtain ⟨rb, rfl⟩ := hpb
    rw [carried_append, carried_append, List.append_right_inj] at hab
    rw [hab]
  · obtain ⟨ra, rfl⟩ := hpa
    rw [carried_append, carried_outside hpb] at hab
    exact absurd (hab ▸ List.prefix_append target ra)
      (not_prefix_of_stays hb hmb (hkb.resolve_left hpb))
  · obtain ⟨rb, rfl⟩ := hpb
    rw [carried_append, carried_outside hpa] at hab
    exact absurd (hab ▸ List.prefix_append target rb)
      (not_prefix_of_stays hb hma (hka.resolve_left hpa))
  · rwa [carried_outside hpa, carried_outside hpb] at hab

/-- After a subtree has been carried to a bare target, the target's side of the map is what the source's
side was, nothing is left at the source, and the rest is as before. -/
theorem get?_rename (hd : Distinct map) (hb : BareAt map target) (key : Key) :
    get? (rename map source target) key =
      if target.isPrefixOf key then get? map (source ++ key.drop target.length)
      else if source.isPrefixOf key then none
      else get? map key := by
  have hd' : Distinct (rename map source target) := distinct_rename hd hb
  refine Option.ext fun value => ?_
  rw [get?_eq_some_iff hd', mem_rename]
  split_ifs with ht hs
  -- what is at or below the target has been carried there
  · obtain ⟨rest, rfl⟩ := List.isPrefixOf_iff_prefix.mp ht
    rw [List.drop_left, get?_eq_some_iff hd]
    constructor
    · rintro ⟨old, hm, hk, hc⟩
      by_cases hp : source <+: old
      · obtain ⟨r, rfl⟩ := hp
        rw [carried_append, List.append_right_inj] at hc
        exact hc ▸ hm
      · rw [carried_outside hp] at hc
        exact absurd (hc ▸ List.prefix_append target rest)
          (not_prefix_of_stays hb hm (hk.resolve_left hp))
    · intro hm
      exact ⟨_, hm, Or.inl (List.prefix_append _ _), carried_append _ _ _⟩
  -- nothing is left at or below the source
  · simp only [iff_false, not_exists, not_and]
    rintro old hm hk hc
    rw [List.isPrefixOf_iff_prefix] at ht hs
    by_cases hp : source <+: old
    · obtain ⟨r, rfl⟩ := hp
      rw [carried_append] at hc
      exact ht (hc ▸ List.prefix_append target r)
    · rw [carried_outside hp] at hc
      exact hp (hc ▸ hs)
  -- everything else has stayed
  · rw [List.isPrefixOf_iff_prefix] at ht hs
    rw [get?_eq_some_iff hd]
    constructor
    · rintro ⟨old, hm, hk, hc⟩
      by_cases hp : source <+: old
      · obtain ⟨r, rfl⟩ := hp
        rw [carried_append] at hc
        exact absurd (hc ▸ List.prefix_append target r) ht
      · rw [carried_outside hp] at hc
        exact hc ▸ hm
    · intro hm
      refine ⟨key, hm, Or.inr ?_, carried_outside hs⟩
      rintro rfl
      exact ht (List.prefix_refl key)

/-- An entry of the changed map was at or below the source, or has stayed where it was. -/
theorem get?_rename_cases (hd : Distinct map) (hb : BareAt map target) {key : Key} {value : α}
    (h : get? (rename map source target) key = some value) :
    (∃ rest, key = target ++ rest ∧ get? map (source ++ rest) = some value) ∨
      (¬ target <+: key ∧ ¬ source <+: key ∧ get? map key = some value) := by
  rw [get?_rename hd hb] at h
  split_ifs at h with ht hs
  · obtain ⟨rest, rfl⟩ := List.isPrefixOf_iff_prefix.mp ht
    rw [List.drop_left] at h
    exact Or.inl ⟨rest, rfl, h⟩
  · rw [List.isPrefixOf_iff_prefix] at ht hs
    exact Or.inr ⟨ht, hs, h⟩

end Rename

end FileRouter.KeyMap
