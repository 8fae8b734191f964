import FileRouter.Proofs.Memory.Run
/-!
What a move does to a tree.

A move carries an entry with everything below it from one key to another. It is described by where every entry of the
old tree is in the new one and by there being no others (`move_exact`). `KeyMap.rename` gives the new tree at one go.
The same comes of carrying the entries one at a time, in any order, within the map that changes under way
(`get?_carryEach`): a free target has nothing below it and is not below the source, so no entry that has been carried
stands in the way of one that is still to be, or is taken for one. Which entries are at or below the source can be told
from their paths, by the slash behind the path of the source (`Key.prefix_iff_toText`), so an entry whose name only
begins like that of the source stays.
-/

namespace FileRouter

/-! ### Carrying one entry after another -/

namespace KeyMap

variable {α : Type} {map : KeyMap α} {source target key : Key}

/-- The map in which one entry has been taken out and put where a move from `source` to `target` leads it. -/
def carryOne (source target : Key) (map : KeyMap α) (key : Key) : KeyMap α :=
  match get? map key with
  | none => map
  | some value => put (erase map key) (carried source target key) value

/-- The map in which the entries at some keys have been carried one after another. -/
def carryEach (source target : Key) (map : KeyMap α) (keys : List Key) : KeyMap α :=
  keys.foldl (carryOne source target) map

/-- The path of a carried entry is the path of the target with what stands behind that of the source. -/
theorem toText_carried (hs : source ≠ []) (ht : target ≠ []) (h : source <+: key) :
    (carried source target key).toText = target.toText ++ key.toText.drop source.toText.length := by
  obtain ⟨rest, rfl⟩ := h
  rw [carried_append, Key.toText_append ht, Key.toText_append hs, List.drop_left]

theorem get?_carryOne {value : α} (h : get? map key = some value) (other : Key) :
    get? (carryOne source target map key) other =
      if other = carried source target key then some value
      else if other = key then none
      else get? map other := by
  rw [carryOne, h]
  simp only [get?_put, get?_erase]

/-- A place that nothing lies below and that is not below the source is not above it either: nothing is at or below
both of them. -/
theorem append_ne_append (hsource : get? map source ≠ none) (hout : ¬ source <+: target) (hb : BareAt map target)
    (rest rest' : Key) : source ++ rest ≠ target ++ rest' := by
  intro he
  rcases List.prefix_or_prefix_of_prefix (he ▸ List.prefix_append source rest) (List.prefix_append target rest')
    with h | h
  · exact hout h
  · refine hsource (hb source h ?_)
    rintro rfl
    exact hout (List.prefix_refl _)

/-- Entries that are carried one after another end where each of them leads, if nothing is at or below both the source
and the target. -/
theorem get?_carryEach_of_disjoint {keys : List Key} (hdisjoint : ∀ rest rest', source ++ rest ≠ target ++ rest')
    (hn : keys.Nodup) (hkeys : ∀ key ∈ keys, source <+: key ∧ get? map key ≠ none) (other : Key) :
    get? (carryEach source target map keys) other =
      if other ∈ keys then none
      else if target <+: other ∧ source ++ other.drop target.length ∈ keys then
        get? map (source ++ other.drop target.length)
      else get? map other := by
  induction keys generalizing map with
  | nil => simp [carryEach]
  | cons key keys ih =>
    obtain ⟨hnot, hkeysn⟩ := List.nodup_cons.mp hn
    obtain ⟨⟨rest, rfl⟩, hpresent⟩ := hkeys key List.mem_cons_self
    obtain ⟨value, hvalue⟩ := Option.ne_none_iff_exists'.mp hpresent
    have hone : ∀ other, get? (carryOne source target map (source ++ rest)) other =
        if other = target ++ rest then some value
        else if other = source ++ rest then none
        else get? map other := by
      intro other
      rw [get?_carryOne hvalue, carried_append]
    -- what is still to be carried has neither been taken out nor been covered
    have hrest : ∀ r, source ++ r ≠ source ++ rest →
        get? (carryOne source target map (source ++ rest)) (source ++ r) = get? map (source ++ r) := by
      intro r hr
      rw [hone, if_neg (hdisjoint r rest), if_neg hr]
    have hkeys' : ∀ key ∈ keys, source <+: key ∧
        get? (carryOne source target map (source ++ rest)) key ≠ none := by
      intro key hk
      obtain ⟨⟨r, rfl⟩, hr⟩ := hkeys key (List.mem_cons_of_mem _ hk)
      refine ⟨List.prefix_append _ _, ?_⟩
      rw [hrest r fun he => hnot (he ▸ hk)]
      exact hr
    rw [carryEach, List.foldl_cons, ← carryEach, ih hkeysn hkeys']
    by_cases hlater : other ∈ keys
    · rw [if_pos hlater, if_pos (List.mem_cons_of_mem _ hlater)]
    rw [if_neg hlater]
    by_cases hself : other = source ++ rest
    · have hout : ¬ target <+: other := by
        rintro ⟨r, hr⟩
        exact hdisjoint rest r (hself ▸ hr.symm)
      rw [if_neg fun h => hout h.1, hone, if_neg (hself ▸ hdisjoint rest rest), if_pos hself, hself,
        if_pos List.mem_cons_self]
    rw [if_neg (List.mem_cons.not.mpr (not_or.mpr ⟨hself, hlater⟩))]
    by_cases hbelow : target <+: other
    · obtain ⟨r, rfl⟩ := hbelow
      rw [List.drop_left, hone (target ++ r), if_neg hself]
      by_cases hr : r = rest
      · subst hr
        simp [hnot, hvalue]
      · rw [hrest r fun he => hr (List.append_cancel_left he), if_neg fun he => hr (List.append_cancel_left he)]
        simp [hr]
    · have hother : other ≠ target ++ rest := fun he => hbelow ⟨rest, he.symm⟩
      rw [if_neg fun h => hbelow h.1, if_neg fun h => hbelow h.1, hone, if_neg hother, if_neg hself]

/-- **Carrying the entries at and below the source one after another**, in any order, leads to the map in which they
have been carried at one go. -/
theorem get?_carryEach (hd : Distinct map) (hsource : get? map source ≠ none) (hout : ¬ source <+: target)
    (hb : BareAt map target) {keys : List Key} (hn : keys.Nodup)
    (hkeys : ∀ key, key ∈ keys ↔ source <+: key ∧ get? map key ≠ none) (other : Key) :
    get? (carryEach source target map keys) other = get? (rename map source target) other := by
  have hdisjoint := append_ne_append hsource hout hb
  rw [get?_carryEach_of_disjoint hdisjoint hn (fun key hk => (hkeys key).mp hk), get?_rename hd hb]
  by_cases hbelow : target <+: other
  · obtain ⟨rest, rfl⟩ := hbelow
    have hnot : target ++ rest ∉ keys := by
      intro hk
      obtain ⟨⟨r, hr⟩, -⟩ := (hkeys _).mp hk
      exact hdisjoint r rest hr
    rw [if_neg hnot, List.drop_left, if_pos (List.isPrefixOf_iff_prefix.mpr (List.prefix_append _ _))]
    by_cases hrest : source ++ rest ∈ keys
    · rw [if_pos ⟨List.prefix_append _ _, hrest⟩]
    · -- the source is carried itself, so this is strictly below the target, where nothing has been
      have hnone : get? map (source ++ rest) = none := by
        by_contra hpresent
        exact hrest ((hkeys _).mpr ⟨List.prefix_append _ _, hpresent⟩)
      have hne : target ++ rest ≠ target := by
        intro he
        rw [List.append_right_eq_self.mp he, List.append_nil] at hnone
        exact hsource hnone
      rw [if_neg fun h => hrest h.2, hb _ (List.prefix_append _ _) hne, hnone]
  · have hcover : ¬ (target <+: other ∧ source ++ other.drop target.length ∈ keys) := fun h => hbelow h.1
    rw [if_neg hcover, if_neg (List.isPrefixOf_iff_prefix.not.mpr hbelow)]
    by_cases hs : source <+: other
    · rw [if_pos (List.isPrefixOf_iff_prefix.mpr hs)]
      split_ifs with hk
      · rfl
      · by_contra hpresent
        exact hk ((hkeys other).mpr ⟨hs, hpresent⟩)
    · rw [if_neg (List.isPrefixOf_iff_prefix.not.mpr hs), if_neg fun hk => hs ((hkeys other).mp hk).1]

end KeyMap

/-! ### Moving -/

open KeyMap

/-- What is at and below the source in a tree is at and below the target in the other, everything else but the target
is in its place, and there is nothing more. -/
structure Tree.Moved (source target : Key) (tree tree' : Tree) : Prop where
  distinct : Distinct tree'
  carried : ∀ {rest : Key} {node : Node}, tree.get? (source ++ rest) = some node →
    tree'.get? (target ++ rest) = some node
  kept : ∀ {key : Key} {node : Node}, ¬ source <+: key → key ≠ target → tree.get? key = some node →
    tree'.get? key = some node
  only : ∀ {key : Key} {node : Node}, tree'.get? key = some node →
    (∃ rest, key = target ++ rest ∧ tree.get? (source ++ rest) = some node) ∨
      ¬ source <+: key ∧ key ≠ target ∧ tree.get? key = some node

theorem Tree.moved_rename {tree : Tree} {source target : Key} (hd : Distinct tree) (hb : BareAt tree target) :
    Tree.Moved source target tree (tree.rename source target) where
  distinct := distinct_rename hd hb
  carried {rest node} h := by
    rw [get?_rename hd hb, if_pos (List.isPrefixOf_iff_prefix.mpr (List.prefix_append _ _)), List.drop_left, h]
  kept {key node} hs ht h := by
    have hbelow : ¬ target <+: key := by
      intro hp
      rw [hb key hp ht] at h
      simp at h
    rw [← List.isPrefixOf_iff_prefix] at hs hbelow
    rw [get?_rename hd hb, if_neg hbelow, if_neg hs, h]
  only {key node} h := by
    rcases get?_rename_cases hd hb h with hcarried | ⟨ht, hs, hkept⟩
    · exact .inl hcarried
    · refine .inr ⟨hs, ?_, hkept⟩
      rintro rfl
      exact ht (List.prefix_refl _)

namespace Drive

variable {drive : Drive} {old new : Text} {replace : Bool}

theorem moveFault?_eq_none_iff : drive.moveFault? old new replace = none ↔
    drive.keyOf old ≠ [] ∧ (drive.keyOf new).isBelow (drive.keyOf old) = false ∧
      drive.tree.HasDirectory (drive.keyOf new).parent ∧
      (drive.tree.get? (drive.keyOf new) = none ∨ replace = true ∧
        ¬ (drive.tree.HasDirectory (drive.keyOf new) ∧ drive.tree.isEmptyAt (drive.keyOf new) = false)) := by
  constructor
  · intro h
    obtain ⟨hroot, hbelow, hparent, hfree⟩ := moveFault?_eq_none h
    refine ⟨hroot, hbelow, hparent, ?_⟩
    cases hg : drive.tree.get? (drive.keyOf new) with
    | none => exact .inl rfl
    | some node =>
      refine .inr ⟨(hfree hg).1, ?_⟩
      rintro ⟨⟨other, ho, hdir⟩, hempty⟩
      rw [(hfree ho).2 hdir] at hempty
      exact Bool.noConfusion hempty
  · rintro ⟨hroot, hbelow, hparent, hfree⟩
    have hfault : drive.parentFault? (drive.keyOf new) new = none := parentFault?_eq_none_iff.mpr hparent
    simp only [moveFault?, if_neg hroot, hbelow, Bool.false_eq_true, if_false]
    cases hg : drive.tree.get? (drive.keyOf new) with
    | none => exact hfault
    | some node =>
      obtain ⟨hreplace, hempty⟩ := hfree.resolve_left (by simp [hg])
      -- what is replaced is a file or an empty directory
      have hfilled : (node.isDirectory && !drive.tree.isEmptyAt (drive.keyOf new)) = false := by
        rw [Bool.and_eq_false_iff, Bool.not_eq_false']
        by_cases hdir : node.isDirectory = true
        · exact .inr (by_contra fun hn => hempty ⟨⟨node, hg, hdir⟩, Bool.not_eq_true _ ▸ hn⟩)
        · exact .inl (Bool.not_eq_true _ ▸ hdir)
      simp only [hreplace, hfilled, Bool.not_true, Bool.false_eq_true, if_false]
      exact hfault

theorem succeeds_move_iff : ((move old new replace).outcome drive).1 = .ok () ↔
    drive.tree.get? (drive.keyOf old) ≠ none ∧
      (drive.keyOf old = drive.keyOf new ∨ drive.moveFault? old new replace = none) := by
  rw [outcome_move]
  cases hg : drive.tree.get? (drive.keyOf old) with
  | none => simp
  | some node =>
    by_cases hsame : drive.keyOf old = drive.keyOf new
    · simp [hsame]
    · cases hfault : drive.moveFault? old new replace <;> simp [hsame]

/-- The keys of the entries that a move carries, told by their paths: that of the source, and those with a slash
behind it. -/
def keysBelow (tree : Tree) (source : Key) : List Key :=
  (tree.map Prod.fst).filter fun key =>
    key.toText = source.toText ∨ (source.toText ++ ['/']).isPrefixOf key.toText

theorem mem_keysBelow {tree : Tree} (hw : tree.WellFormed) {source : Key} (hs : source.Proper) (hne : source ≠ [])
    (key : Key) : key ∈ keysBelow tree source ↔ source <+: key ∧ tree.get? key ≠ none := by
  have hpresent : key ∈ tree.map Prod.fst ↔ tree.get? key ≠ none := by
    constructor
    · intro hm
      obtain ⟨⟨key, node⟩, hentry, rfl⟩ := List.mem_map.mp hm
      rw [get?_of_mem hw.distinct hentry]
      exact Option.some_ne_none _
    · intro hg
      obtain ⟨node, hg⟩ := Option.ne_none_iff_exists'.mp hg
      exact List.mem_map_of_mem (f := Prod.fst) (mem_of_get? hg)
  rw [keysBelow, List.mem_filter, hpresent, and_comm]
  -- the text of a proper key is a prefix exactly when the key is
  refine and_congr_left fun hg => ?_
  obtain ⟨node, hg⟩ := Option.ne_none_iff_exists'.mp hg
  simp [Key.prefix_iff_toText hs (hw.proper hg) hne]

/-- **Exactly what a move does.** It succeeds when the source is there, and either is the target, or is not the root
while the target is not below it, hangs in a directory, and is free or may be replaced, which a directory with entries
never may. Moving an entry to itself changes nothing. Any other move carries everything at and below the source to the
target, keeps everything else but the target, entries whose name only begins like that of the source among it, and
makes nothing up. It comes to the same to carry the entries one after another, picked and renamed by their paths. -/
theorem move_exact (h : Reached drive) (old new : Text) (replace : Bool) {source target : Key}
    (hold : drive.keyOf old = source) (hnew : drive.keyOf new = target) :
    (((move old new replace).outcome drive).1 = .ok () ↔
      drive.tree.get? source ≠ none ∧
        (source = target ∨
          source ≠ [] ∧ target.isBelow source = false ∧ drive.tree.HasDirectory target.parent ∧
            (drive.tree.get? target = none ∨
              replace = true ∧ ¬ (drive.tree.HasDirectory target ∧ drive.tree.isEmptyAt target = false)))) ∧
    (((move old new replace).outcome drive).1 = .ok () → source = target →
      ((move old new replace).outcome drive).2 = drive) ∧
    (((move old new replace).outcome drive).1 = .ok () → source ≠ target →
      ∃ tree, ((move old new replace).outcome drive).2 = { drive with tree } ∧
        Tree.Moved source target drive.tree tree ∧
        (∀ {suffix : Text} {rest : Key} {node : Node}, suffix ≠ [] →
          source.parent ++ (source.name ++ suffix) :: rest ≠ target →
          drive.tree.get? (source.parent ++ (source.name ++ suffix) :: rest) = some node →
          tree.get? (source.parent ++ (source.name ++ suffix) :: rest) = some node) ∧
        ∀ keys : List Key, keys.Perm (keysBelow drive.tree source) →
          (∀ key ∈ keys,
            (carried source target key).toText = target.toText ++ key.toText.drop source.toText.length) ∧
          ∀ key, tree.get? key = (carryEach source target drive.tree keys).get? key) := by
  subst hold hnew
  refine ⟨succeeds_move_iff.trans (by rw [moveFault?_eq_none_iff]), ?_, ?_⟩
  · intro hok hsame
    obtain ⟨hsource, -⟩ := succeeds_move_iff.mp hok
    obtain ⟨node, hg⟩ := Option.ne_none_iff_exists'.mp hsource
    rw [outcome_move, hg]
    simp only [if_pos hsame]
  · intro hok hne
    obtain ⟨hsource, hfault⟩ := succeeds_move_iff.mp hok
    have hfault := hfault.resolve_left hne
    obtain ⟨node, hg⟩ := Option.ne_none_iff_exists'.mp hsource
    obtain ⟨hroot, hbelow, -, hfree⟩ := moveFault?_eq_none hfault
    have hw := h.wellFormed
    -- nothing is below the target, so the entries that come to it hide no others
    have hb : BareAt drive.tree (drive.keyOf new) := hw.rooted.bareAt fun hn => (hfree hn).2
    have hout : ¬ drive.keyOf old <+: drive.keyOf new := fun hp =>
      Bool.eq_false_iff.mp hbelow (Key.isBelow_iff.mpr ⟨hp, Ne.symm hne⟩)
    have hmoved : Tree.Moved (drive.keyOf old) (drive.keyOf new) drive.tree _ := Tree.moved_rename hw.distinct hb
    refine ⟨_, ?_, hmoved, ?_, ?_⟩
    · rw [outcome_move, hg]
      simp only [if_neg hne, hfault]
    · intro suffix rest node hsuffix htarget
      exact hmoved.kept (Key.not_prefix_of_longer_name hroot hsuffix rest) htarget
    · intro keys hperm
      -- the root has the source below it, so it is not the target
      have htarget : drive.keyOf new ≠ [] := fun ht =>
        hsource (hb (drive.keyOf old) (ht ▸ List.nil_prefix) hne)
      have hkeys : ∀ key, key ∈ keys ↔ drive.keyOf old <+: key ∧ drive.tree.get? key ≠ none := fun key =>
        hperm.mem_iff.trans (mem_keysBelow hw (drive.keyOf_proper old) hroot key)
      have hnodup : keys.Nodup := hperm.nodup_iff.mpr (hw.distinct.filter _)
      refine ⟨fun key hk => toText_carried hroot htarget ((hkeys key).mp hk).1, fun key => ?_⟩
      exact (get?_carryEach hw.distinct hsource hout hb hnodup hkeys key).symm

/-- A directory with a file, and a file beside it whose name begins alike. -/
def siblings : Drive :=
  (run (.fresh "mem".toList 0, .counting []) [.ask 1 (.createDirectory "mem:/a".toList),
    .ask 2 (.createFile "mem:/a/f".toList), .ask 3 (.createFile "mem:/ab".toList)]).1

theorem move_siblings :
    Reached siblings ∧ ((move "mem:/a".toList "mem:/b".toList false).outcome siblings).1 = .ok () ∧
      ∃ tree, ((move "mem:/a".toList "mem:/b".toList false).outcome siblings).2 = { siblings with tree } ∧
        tree.get? [['b'], ['f']] = some (.newFile 2) ∧ tree.get? [['a', 'b']] = some (.newFile 3) ∧
        tree.get? [['a']] = none := by
  have hreached : Reached siblings := ⟨_, _, _, _, rfl⟩
  obtain ⟨hsucceeds, -, hmoves⟩ := move_exact hreached "mem:/a".toList "mem:/b".toList false
    (by decide : siblings.keyOf "mem:/a".toList = [['a']]) (by decide : siblings.keyOf "mem:/b".toList = [['b']])
  have hroot : siblings.tree.HasDirectory [] := ⟨.newDirectory 0, by decide, rfl⟩
  have hok := hsucceeds.mpr ⟨by decide, .inr ⟨by decide, by decide, hroot, .inl (by decide)⟩⟩
  obtain ⟨tree, htree, hmoved, -, -⟩ := hmoves hok (by decide)
  refine ⟨hreached, hok, tree, htree, ?_, ?_, ?_⟩
  · have hfile : siblings.tree.get? ([['a']] ++ [['f']]) = some (.newFile 2) := by decide
    exact hmoved.carried hfile
  · have hfile : siblings.tree.get? [['a', 'b']] = some (.newFile 3) := by decide
    exact hmoved.kept (by decide) (by decide) hfile
  · refine Option.eq_none_iff_forall_ne_some.mpr fun node hg => ?_
    -- what is left at the old key would have come from below the new one, or would not be at the old one
    rcases hmoved.only hg with ⟨rest, hrest, -⟩ | ⟨hs, -⟩
    · exact absurd (List.cons.inj hrest).1 (by decide)
    · exact hs (List.prefix_refl _)

end Drive

end FileRouter
