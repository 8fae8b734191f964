import FileRouter.Proofs.Memory.Tree
/-!
Clearing a part of a tree, up to the first entry that cannot go.

A walk that deletes leaves an entry after everything below it, and siblings in the order of their names
(`Key.before`). It stops at the first `Blocked` entry (`StopsAt`) and has then `cleared` what comes before
that. The lemmas take such a walk apart the way the recursion does: into the subtree of the first child, the
other children (`StopsAt.of_first`, `StopsAt.of_rest`), and the entry itself (`StopsAt.of_below`,
`stopsAt_self`, `stopsAt_none`), each with the tree that it leaves.
-/

namespace FileRouter.Tree

open KeyMap

/-- An entry that cannot be deleted: the root, or one that is protected against writing. -/
def Blocked (tree : Tree) (key : Key) : Prop :=
  ∃ node, tree.get? key = some node ∧ (key = [] ∨ node.readOnly = true)

/-- The first blocked entry of a region in the order of a walk; `none` when the region has none. -/
def StopsAt (tree : Tree) (region : Key → Bool) : Option Key → Prop
  | none => ∀ key, region key = true → ¬ tree.Blocked key
  | some stop => region stop = true ∧ tree.Blocked stop ∧
    ∀ key, region key = true → tree.Blocked key → key ≠ stop → stop.before key = true

/-- The tree without the entries of a region that come before a stop, or without all of them. -/
def cleared (tree : Tree) (region : Key → Bool) (stop : Option Key) : Tree :=
  tree.filter fun entry => !(region entry.1 && stop.all fun stop => entry.1.before stop)

variable {tree : Tree} {region : Key → Bool} {key : Key}

theorem get?_cleared (tree : Tree) (region : Key → Bool) (stop : Option Key) (key : Key) :
    get? (tree.cleared region stop) key =
      if region key && stop.all fun stop => key.before stop then none else tree.get? key := by
  have h := get?_filter tree (fun key => !(region key && stop.all fun stop => key.before stop)) key
  rw [cleared, h]
  cases region key && stop.all fun stop => key.before stop <;> rfl

theorem distinct_cleared (h : Distinct tree) (stop : Option Key) :
    Distinct (tree.cleared region stop) :=
  distinct_filter h _

/-- A walk stops at one place only. -/
theorem StopsAt.unique {first second : Option Key} (hf : StopsAt tree region first)
    (hs : StopsAt tree region second) : first = second := by
  cases first with
  | none =>
    cases second with
    | none => rfl
    | some b => exact absurd hs.2.1 (hf b hs.1)
  | some a =>
    cases second with
    | none => exact absurd hf.2.1 (hs a hf.1)
    | some b =>
      by_contra hne
      -- each of the two would come before the other
      have hab : a.before b = true := hf.2.2 b hs.1 hs.2.1 (fun he => hne (by rw [he]))
      have hba : b.before a = true := hs.2.2 a hf.1 hf.2.1 (fun he => hne (by rw [he]))
      rw [Key.before_asymm hab] at hba
      exact absurd hba (by simp)

/-- Whether an entry is blocked depends on that entry alone. -/
theorem blocked_congr {other : Tree} (h : get? other key = tree.get? key) :
    other.Blocked key ↔ tree.Blocked key := by
  rw [Blocked, Blocked, h]

/-- Two walks leave the same tree when they clear the same entries. -/
theorem cleared_congr {region' : Key → Bool} {stop stop' : Option Key}
    (h : ∀ {key : Key} {node : Node}, (key, node) ∈ tree →
      (region key && stop.all fun stop => key.before stop) =
        (region' key && stop'.all fun stop => key.before stop)) :
    tree.cleared region stop = tree.cleared region' stop' := by
  refine List.filter_congr fun entry hm => ?_
  rw [h hm]

/-! ### Whole subtrees -/

theorem WellFormed.cleared_subtree (h : tree.WellFormed) (hne : key ≠ []) :
    (tree.cleared key.isPrefixOf none).WellFormed := by
  have hkeep : ∀ other : Key, (!(key.isPrefixOf other && true)) = true ↔ ¬ key <+: other := by
    intro other
    rw [Bool.and_true, Bool.not_eq_true', ← Bool.not_eq_true, List.isPrefixOf_iff_prefix]
  refine h.filter (fun other => !(key.isPrefixOf other && true)) ?_ ?_
  · exact (hkeep []).mpr fun hp => hne (List.prefix_nil.mp hp)
  · intro other _ _ hk
    exact (hkeep _).mpr fun hp => (hkeep other).mp hk (hp.trans (List.dropLast_prefix other))

/-! ### Children -/

/-- What lies below a key lies at or below one of the names listed there. -/
theorem WellFormed.exists_child (h : tree.WellFormed) {entry : Key} {node : Node}
    (hg : tree.get? entry = some node) (hb : entry.isBelow key = true) :
    ∃ name rest, entry = key ++ name :: rest ∧ name ∈ tree.childrenNames key := by
  obtain ⟨⟨rest, rfl⟩, hne⟩ := Key.isBelow_iff.mp hb
  cases rest with
  | nil => exact absurd (List.append_nil key) hne
  | cons name rest =>
    refine ⟨name, rest, rfl, mem_childrenNames.mpr (has_iff.mpr ?_)⟩
    by_cases hr : rest = []
    · exact ⟨node, by rwa [hr] at hg⟩
    · rw [← List.singleton_append, ← List.append_assoc] at hg
      obtain ⟨dir, hd, -⟩ := h.rooted.above hg hr
      exact ⟨dir, hd⟩

section Children

variable {first : Text} {rest : List Text}

theorem isBelow_of_child {entry : Key} (h : key ++ [first] <+: entry) : entry.isBelow key = true := by
  obtain ⟨rest, rfl⟩ := h
  exact Key.isBelow_iff.mpr ⟨by simp [List.append_assoc], by simp [List.append_assoc]⟩

/-- The subtree of the first child comes before whatever else lies below. -/
theorem WellFormed.before_of_later (h : tree.WellFormed) (hn : tree.childrenNames key = first :: rest)
    {entry other : Key} {node : Node} (hg : tree.get? entry = some node)
    (hb : entry.isBelow key = true) (hout : ¬ key ++ [first] <+: entry)
    (ho : key ++ [first] <+: other) : other.before entry = true := by
  obtain ⟨name, below, rfl, hm⟩ := h.exists_child hg hb
  obtain ⟨below', rfl⟩ := ho
  have hne : first ≠ name := by
    rintro rfl
    exact hout ⟨below, by simp⟩
  -- the children are listed in order, so `first` comes before the name that leads to the entry
  have hle : Text.le first name = true := by
    have hp := childrenNames_pairwise h.distinct key
    rw [hn] at hm hp
    have hmem : name ∈ rest := (List.mem_cons.mp hm).resolve_left (Ne.symm hne)
    exact ((List.pairwise_cons.mp hp).1 name hmem).1
  rw [List.append_assoc, List.singleton_append]
  exact Key.before_of_sibling hne hle below' below

/-- A stop in the subtree of the first child is the stop for everything below. -/
theorem StopsAt.of_first {stop : Key} (h : tree.WellFormed)
    (hn : tree.childrenNames key = first :: rest)
    (hs : StopsAt tree (key ++ [first]).isPrefixOf (some stop)) :
    StopsAt tree (·.isBelow key) (some stop) := by
  obtain ⟨hin, hblocked, hleast⟩ := hs
  rw [List.isPrefixOf_iff_prefix] at hin
  refine ⟨isBelow_of_child hin, hblocked, fun other ho hb hne => ?_⟩
  -- within the first child the stop is the first one, and the other children come later
  by_cases hc : key ++ [first] <+: other
  · exact hleast other (List.isPrefixOf_iff_prefix.mpr hc) hb hne
  · obtain ⟨node, hg, -⟩ := hb
    exact h.before_of_later hn hg ho hc hin

theorem cleared_of_first {stop : Key} (h : tree.WellFormed)
    (hn : tree.childrenNames key = first :: rest)
    (hs : StopsAt tree (key ++ [first]).isPrefixOf (some stop)) :
    tree.cleared (key ++ [first]).isPrefixOf (some stop) = tree.cleared (·.isBelow key) (some stop) := by
  have hin : key ++ [first] <+: stop := List.isPrefixOf_iff_prefix.mp hs.1
  refine cleared_congr fun {other node} hm => ?_
  rw [Option.all_some]
  by_cases hc : key ++ [first] <+: other
  · rw [List.isPrefixOf_iff_prefix.mpr hc, isBelow_of_child hc]
  · by_cases hb : other.isBelow key = true
    · -- a later child: the walk has not come so far
      have hlater := h.before_of_later hn (get?_of_mem h.distinct hm) hb hc hin
      rw [Key.before_asymm hlater, Bool.and_false, Bool.and_false]
    · rw [← List.isPrefixOf_iff_prefix, Bool.not_eq_true] at hc
      rw [Bool.not_eq_true] at hb
      rw [hc, hb]

/-- What is left below when the subtree of the first child is gone: the later children. -/
theorem childrenNames_cleared (h : tree.WellFormed) (hn : tree.childrenNames key = first :: rest) :
    childrenNames (tree.cleared (key ++ [first]).isPrefixOf none) key = rest := by
  have hp := childrenNames_pairwise h.distinct key
  rw [hn, List.pairwise_cons] at hp
  refine childrenNames_eq (distinct_cleared h.distinct none) hp.2 fun name => ?_
  have hmem : name ∈ first :: rest ↔ has tree (key ++ [name]) = true := by
    rw [← hn, mem_childrenNames]
  rw [has, get?_cleared, Option.all_none, Bool.and_true]
  by_cases he : name = first
  -- no name occurs twice
  · subst he
    have hnot : name ∉ rest := fun hm => (hp.1 name hm).2 rfl
    simp [hnot]
  · have hout : ¬ (key ++ [first]).isPrefixOf (key ++ [name]) = true := by
      rw [List.isPrefixOf_iff_prefix, List.prefix_append_right_inj]
      rintro ⟨rest, hr⟩
      simp at hr
      exact he hr.1.symm
    rw [if_neg hout, ← has, ← hmem, List.mem_cons, or_iff_right he]

/-- When the subtree of the first child can go, the stop for the rest is the stop for everything below. -/
theorem StopsAt.of_rest {stop : Option Key}
    (hf : StopsAt tree (key ++ [first]).isPrefixOf none)
    (hs : StopsAt (tree.cleared (key ++ [first]).isPrefixOf none) (·.isBelow key) stop) :
    StopsAt tree (·.isBelow key) stop := by
  -- a blocked entry is not in the subtree of the first child, so it is still there
  have hstill : ∀ other : Key, tree.Blocked other →
      (tree.cleared (key ++ [first]).isPrefixOf none).Blocked other := by
    intro other hb
    refine (blocked_congr ?_).mpr hb
    rw [get?_cleared, Option.all_none, Bool.and_true, if_neg fun hc => hf other hc hb]
  cases stop with
  | none => exact fun other ho hb => hs other ho (hstill other hb)
  | some stop =>
    obtain ⟨hin, hblocked, hleast⟩ := hs
    have hb : tree.Blocked stop := by
      obtain ⟨node, hg, hro⟩ := hblocked
      rw [get?_cleared] at hg
      split_ifs at hg
      exact ⟨node, hg, hro⟩
    exact ⟨hin, hb, fun other ho hbo hne => hleast other ho (hstill other hbo) hne⟩

theorem cleared_of_rest {stop : Option Key} (h : tree.WellFormed)
    (hn : tree.childrenNames key = first :: rest)
    (hs : StopsAt (tree.cleared (key ++ [first]).isPrefixOf none) (·.isBelow key) stop) :
    (tree.cleared (key ++ [first]).isPrefixOf none).cleared (·.isBelow key) stop =
      tree.cleared (·.isBelow key) stop := by
  rw [cleared, cleared, cleared, List.filter_filter]
  refine List.filter_congr fun entry hm => ?_
  rw [Option.all_none, Bool.and_true]
  by_cases hc : key ++ [first] <+: entry.1
  · -- the subtree of the first child comes before a stop among the later children
    have hall : (stop.all fun stop => entry.1.before stop) = true := by
      cases stop with
      | none => rfl
      | some stop =>
        obtain ⟨hin, ⟨node, hg, -⟩, -⟩ := hs
        rw [get?_cleared, Option.all_none, Bool.and_true] at hg
        split_ifs at hg with hout
        rw [List.isPrefixOf_iff_prefix] at hout
        exact h.before_of_later hn hg hin hout hc
    rw [List.isPrefixOf_iff_prefix.mpr hc, isBelow_of_child hc, hall]
    rfl
  · rw [← List.isPrefixOf_iff_prefix, Bool.not_eq_true] at hc
    rw [hc, Bool.not_false, Bool.and_true]

end Children

/-! ### The entry itself -/

theorem isPrefixOf_eq (key other : Key) : key.isPrefixOf other = (other.isBelow key || other == key) := by
  rw [Bool.eq_iff_iff, Bool.or_eq_true, Key.isBelow_iff, List.isPrefixOf_iff_prefix, beq_iff_eq]
  constructor
  · intro hp
    by_cases he : other = key
    · exact Or.inr he
    · exact Or.inl ⟨hp, he⟩
  · rintro (⟨hp, -⟩ | rfl)
    · exact hp
    · exact List.prefix_refl _

theorem isBelow_self (key : Key) : key.isBelow key = false := by
  rw [← Bool.not_eq_true, Key.isBelow_iff]
  exact fun h => h.2 rfl

/-- A stop below an entry comes before the entry. -/
theorem StopsAt.of_below {stop : Key} (hs : StopsAt tree (·.isBelow key) (some stop)) :
    StopsAt tree key.isPrefixOf (some stop) := by
  obtain ⟨hin, hblocked, hleast⟩ := hs
  have hin : stop.isBelow key = true := hin
  refine ⟨by rw [isPrefixOf_eq, hin, Bool.true_or], hblocked, fun other ho hb hne => ?_⟩
  rw [isPrefixOf_eq, Bool.or_eq_true, beq_iff_eq] at ho
  rcases ho with ho | rfl
  · exact hleast other ho hb hne
  · exact Key.before_of_isBelow hin

theorem cleared_of_below {stop : Key} (hin : stop.isBelow key = true) :
    tree.cleared (·.isBelow key) (some stop) = tree.cleared key.isPrefixOf (some stop) := by
  refine cleared_congr fun {other node} _ => ?_
  rw [isPrefixOf_eq, Option.all_some]
  by_cases he : other = key
  · subst he
    rw [Key.before_asymm (Key.before_of_isBelow hin), Bool.and_false, Bool.and_false]
  · rw [beq_eq_false_iff_ne.mpr he, Bool.or_false]

/-- With nothing blocked below it, a blocked entry is where the walk stops. -/
theorem stopsAt_self (hbelow : StopsAt tree (·.isBelow key) none) (hb : tree.Blocked key) :
    StopsAt tree key.isPrefixOf (some key) := by
  refine ⟨List.isPrefixOf_iff_prefix.mpr (List.prefix_refl key), hb, fun other ho hbo hne => ?_⟩
  rw [isPrefixOf_eq, Bool.or_eq_true, beq_iff_eq] at ho
  exact absurd hbo (hbelow other (ho.resolve_right hne))

theorem cleared_self : tree.cleared (·.isBelow key) none = tree.cleared key.isPrefixOf (some key) := by
  refine cleared_congr fun {other node} _ => ?_
  rw [isPrefixOf_eq, Option.all_none, Option.all_some, Bool.and_true]
  by_cases he : other = key
  · subst he
    rw [Key.before_irrefl, Bool.and_false, isBelow_self]
  · rw [beq_eq_false_iff_ne.mpr he, Bool.or_false]
    by_cases hb : other.isBelow key = true
    · rw [hb, Key.before_of_isBelow hb]
      rfl
    · rw [Bool.not_eq_true] at hb
      rw [hb, Bool.false_and]

/-- With nothing blocked at or below it, the whole subtree can go. -/
theorem stopsAt_none (hbelow : StopsAt tree (·.isBelow key) none) (hb : ¬ tree.Blocked key) :
    StopsAt tree key.isPrefixOf none := by
  intro other ho hbo
  rw [isPrefixOf_eq, Bool.or_eq_true, beq_iff_eq] at ho
  rcases ho with ho | rfl
  · exact hbelow other ho hbo
  · exact hb hbo

theorem erase_cleared :
    erase (tree.cleared (·.isBelow key) none) key = tree.cleared key.isPrefixOf none := by
  rw [cleared, erase, cleared, List.filter_filter]
  refine List.filter_congr fun entry _ => ?_
  rw [isPrefixOf_eq, Option.all_none, Bool.and_true, Bool.and_true, Bool.not_or, Bool.and_comm]
  by_cases he : entry.1 = key <;> simp [he]

/-- With nothing below an entry, clearing what is below it changes nothing. -/
theorem cleared_bare (h : tree.WellFormed) (hb : BareAt tree key) (stop : Option Key) :
    tree.cleared (·.isBelow key) stop = tree := by
  refine List.filter_eq_self.mpr fun entry hm => ?_
  have hnot : ¬ entry.1.isBelow key = true := by
    intro hbelow
    obtain ⟨hp, hne⟩ := Key.isBelow_iff.mp hbelow
    have hnone := hb entry.1 hp hne
    rw [get?_of_mem h.distinct hm] at hnone
    simp at hnone
  rw [Bool.not_eq_true] at hnot
  show (!(entry.1.isBelow key && stop.all fun stop => entry.1.before stop)) = true
  rw [hnot, Bool.false_and]
  rfl

theorem stopsAt_bare (hb : BareAt tree key) : StopsAt tree (·.isBelow key) none := by
  rintro other ho ⟨node, hg, -⟩
  obtain ⟨hp, hne⟩ := Key.isBelow_iff.mp ho
  rw [hb other hp hne] at hg
  simp at hg

end FileRouter.Tree
