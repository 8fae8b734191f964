import FileRouter.Proofs.Call
import FileRouter.Proofs.Registry
import FileRouter.World.Providers
import Mathlib.Data.List.Induction
import Mathlib.Data.Nat.Find
import Mathlib.Logic.Function.Basic
/-!
Registries as maps that remember their order.

A registry finds its members by a search and keeps them in a list, and nothing in the list stops two of them from
having one scheme. What can be done to it does: whatever is registered and removed, also in vain, a registry stays
the items of an `OrderedMap`, in which a key stands once by its very form (`Follows`, kept by every change,
`follows_change`). The members stand in the order in which their schemes came, for good: a scheme counts from its
first registration since it was last removed (`Entered`). Main statement: `ordered_history`.
-/

namespace FileRouter

/-- A map that remembers in which order its keys came. -/
structure OrderedMap (κ ν : Type) where
  keys : List κ
  value : κ → Option ν
  nodup : keys.Nodup
  mem_keys : ∀ key, key ∈ keys ↔ (value key).isSome = true

namespace OrderedMap

variable {κ ν : Type} [DecidableEq κ]

def empty : OrderedMap κ ν := ⟨[], fun _ => none, List.nodup_nil, by simp⟩

/-- Gives a key a value. A key that is new comes last; one that is not stays where it is. -/
def insert (map : OrderedMap κ ν) (key : κ) (value : ν) : OrderedMap κ ν where
  keys := if key ∈ map.keys then map.keys else map.keys ++ [key]
  value := Function.update map.value key (some value)
  nodup := by
    split_ifs with hm
    · exact map.nodup
    · exact List.nodup_append.mpr ⟨map.nodup, by simp, fun a ha b hb hab => hm (by simp_all)⟩
  mem_keys other := by
    rw [Function.update_apply]
    split_ifs with hm ho ho
    · simp [ho, hm]
    · exact map.mem_keys other
    · simp [ho]
    · simp [ho, map.mem_keys other]

def erase (map : OrderedMap κ ν) (key : κ) : OrderedMap κ ν where
  keys := map.keys.filter (· ≠ key)
  value := Function.update map.value key none
  nodup := map.nodup.filter _
  mem_keys other := by
    rw [List.mem_filter, Function.update_apply, map.mem_keys other]
    split_ifs with ho <;> simp [ho]

@[simp] theorem keys_insert (map : OrderedMap κ ν) (key : κ) (value : ν) :
    (map.insert key value).keys = if key ∈ map.keys then map.keys else map.keys ++ [key] :=
  rfl

@[simp] theorem value_insert (map : OrderedMap κ ν) (key : κ) (value : ν) :
    (map.insert key value).value = Function.update map.value key (some value) :=
  rfl

@[simp] theorem keys_erase (map : OrderedMap κ ν) (key : κ) : (map.erase key).keys = map.keys.filter (· ≠ key) :=
  rfl

@[simp] theorem value_erase (map : OrderedMap κ ν) (key : κ) :
    (map.erase key).value = Function.update map.value key none :=
  rfl

/-- The keys with their values, in the order of the keys. -/
def items (map : OrderedMap κ ν) : List (κ × ν) :=
  map.keys.filterMap fun key => (map.value key).map fun value => (key, value)

end OrderedMap

namespace Registry

/-- Something that changes a registry. -/
inductive Change where
  | register (member : Member)
  | unregister (scheme : Text)
  | setFallback (fallback : Member)

/-- What the providers of a world say about the member of a change is what the change says. -/
def Change.KnownTo (providers : List Provider) : Change → Prop
  | .register member | .setFallback member =>
    ∃ label backing, providers[member.id]? = some ⟨member.scheme, member.claim, label, backing⟩
  | .unregister _ => True

/-- Makes a change to the registry with a number; answers the number of a provider that is removed. -/
def Change.make (number : Nat) : Change → Call World (Option Nat)
  | .register member => do
    World.register number member.id
    pure none
  | .unregister scheme => do
    let id ← World.unregister number scheme
    pure (some id)
  | .setFallback fallback => do
    World.setFallback number fallback.id
    pure none

/-- The same change to a map from schemes to members. -/
def Change.note : Change → Call (OrderedMap Text Member) (Option Member)
  | .register member => Call.ofOutcome fun map =>
    if Scheme.isValid member.scheme then (.ok none, map.insert member.scheme member)
    else (.error (badScheme member.scheme), map)
  | .unregister scheme => Call.ofOutcome fun map =>
    match map.value scheme with
    | none => (.error (unknownScheme scheme), map)
    | some member => (.ok (some member), map.erase scheme)
  | .setFallback _ => pure none

/-! ### The registry and the map -/

/-- A keyed registry is the items of a map. -/
structure Matches (registry : Registry) (map : OrderedMap Text Member) : Prop where
  keyed : registry.Keyed
  schemes : registry.schemes = map.keys
  find? : ∀ scheme, registry.find? scheme = map.value scheme

variable {registry : Registry} {map : OrderedMap Text Member}

theorem Matches.items_eq (h : registry.Matches map) :
    registry.members.map (fun member => (member.scheme, member)) = map.items := by
  have hitem : ∀ member ∈ registry.members,
      (map.value member.scheme).map (fun value => (member.scheme, value)) = some (member.scheme, member) := by
    intro member hm
    rw [← h.find?, (find?_eq_some_iff h.keyed).mpr ⟨hm, rfl⟩, Option.map_some]
  rw [OrderedMap.items, ← h.schemes, Registry.schemes, List.filterMap_map, ← List.filterMap_eq_map]
  exact (List.filterMap_congr hitem).symm

theorem find?_put (member : Member) (members : List Member) (scheme : Text) :
    (put member members).find? (fun other => other.scheme = scheme) =
      if scheme = member.scheme then some member else members.find? fun other => other.scheme = scheme := by
  induction members with
  | nil => simp [put, eq_comm]
  | cons first members ih =>
    rw [put]
    by_cases hf : first.scheme = member.scheme
    · rw [if_pos hf, List.find?_cons, List.find?_cons, hf]
      by_cases hs : scheme = member.scheme
      · simp [hs]
      · simp [hs, Ne.symm hs]
    · rw [if_neg hf, List.find?_cons, List.find?_cons, ih]
      by_cases hs : first.scheme = scheme
      · simp [hs, hs ▸ hf]
      · simp [hs]

theorem schemes_eraseP {members : List Member} (h : (members.map Member.scheme).Nodup) (scheme : Text) :
    (members.eraseP fun member => member.scheme = scheme).map Member.scheme =
      (members.map Member.scheme).filter (· ≠ scheme) := by
  induction members with
  | nil => rfl
  | cons first members ih =>
    rw [List.map_cons, List.nodup_cons] at h
    by_cases hf : first.scheme = scheme
    · -- the first one is the only one
      have hrest : (members.map Member.scheme).filter (· ≠ scheme) = members.map Member.scheme := by
        rw [List.filter_eq_self]
        intro other ho
        simpa using fun he : other = scheme => h.1 (hf ▸ he ▸ ho)
      rw [List.eraseP_cons_of_pos (by simpa using hf), List.map_cons,
        List.filter_cons_of_neg (by simpa using hf), hrest]
    · rw [List.eraseP_cons_of_neg (by simpa using hf), List.map_cons, List.map_cons,
        List.filter_cons_of_pos (by simpa using hf), ih h.2]

/-- Removing the member with a scheme hides no member with another one. -/
theorem find?_eraseP_of_ne {scheme other : Text} (h : other ≠ scheme) (members : List Member) :
    (members.eraseP fun member => member.scheme = scheme).find? (fun member => member.scheme = other) =
      members.find? fun member => member.scheme = other := by
  induction members with
  | nil => rfl
  | cons first members ih =>
    by_cases hf : first.scheme = scheme
    · rw [List.eraseP_cons_of_pos (by simpa using hf), List.find?_cons_of_neg (by simpa [hf] using h.symm)]
    · rw [List.eraseP_cons_of_neg (by simpa using hf), List.find?_cons, List.find?_cons, ih]

theorem find?_eraseP_self (h : registry.Keyed) (scheme : Text) :
    (registry.members.eraseP fun member => member.scheme = scheme).find?
      (fun member => member.scheme = scheme) = none := by
  rw [List.find?_eq_none]
  intro member hm hscheme
  have hmem := List.mem_map_of_mem (f := Member.scheme) hm
  rw [schemes_eraseP h.distinct, List.mem_filter] at hmem
  exact absurd (of_decide_eq_true hscheme) (of_decide_eq_true hmem.2)

theorem Matches.put (h : registry.Matches map) {member : Member}
    (hv : Scheme.isValid member.scheme = true) :
    Matches { registry with members := put member registry.members } (map.insert member.scheme member) where
  keyed := h.keyed.put hv
  schemes := by
    rw [OrderedMap.keys_insert, ← h.schemes]
    have hput := schemes_put member registry.members
    by_cases hm : member.scheme ∈ registry.schemes
    · rw [if_pos hm]
      exact hput.trans (if_pos hm)
    · rw [if_neg hm]
      exact hput.trans (if_neg hm)
  find? scheme := by
    rw [OrderedMap.value_insert, Function.update_apply, ← h.find?]
    exact find?_put member registry.members scheme

theorem Matches.eraseP (h : registry.Matches map) (scheme : Text) :
    Matches { registry with members := registry.members.eraseP fun member => member.scheme = scheme }
      (map.erase scheme) where
  keyed := h.keyed.eraseP scheme
  schemes := by
    rw [OrderedMap.keys_erase, ← h.schemes]
    exact schemes_eraseP h.keyed.distinct scheme
  find? other := by
    rw [OrderedMap.value_erase, Function.update_apply, ← h.find?]
    split_ifs with ho
    · exact ho ▸ find?_eraseP_self h.keyed scheme
    · exact find?_eraseP_of_ne ho registry.members

/-- The registry with a number in a world is the items of a map. -/
def Follows (number : Nat) (world : World) (map : OrderedMap Text Member) : Prop :=
  ∃ registry, world.registries[number]? = some registry ∧ registry.Matches map

variable {number : Nat} {world : World}

theorem follows_set (h : world.registries[number]? = some registry) {registry' : Registry}
    (hm : registry'.Matches map) :
    Follows number { world with registries := world.registries.set number registry' } map :=
  ⟨registry', List.getElem?_set_self (List.getElem?_eq_some_iff.mp h).1, hm⟩

/-- **A change to a registry is the same change to the map**: they answer the same, fail for the same reasons, and
the registry is the items of the map again. -/
theorem follows_change {providers : List Provider} {change : Change} (hk : change.KnownTo providers)
    (h : world.providers = providers ∧ Follows number world map) :
    ((change.make number).outcome world).1 = (change.note.outcome map).1.map (Option.map Member.id) ∧
      ((change.make number).outcome world).2.providers = providers ∧
      Follows number ((change.make number).outcome world).2 (change.note.outcome map).2 := by
  obtain ⟨hproviders, registry, hr, hmatches⟩ := h
  subst hproviders
  cases change with
  | register member =>
    obtain ⟨label, backing, hprovider⟩ := hk
    simp only [Change.make, Change.note, World.register, Call.outcome_bind, World.outcome_registry hr,
      World.outcome_member hprovider, Call.outcome_ofExcept, Call.outcome_ofOutcome, Registry.register]
    -- a scheme that is not valid is refused by both
    by_cases hv : Scheme.isValid member.scheme = true
    · simp only [if_pos hv]
      exact ⟨rfl, rfl, follows_set hr (hmatches.put hv)⟩
    · rw [if_neg hv, if_neg hv]
      exact ⟨rfl, rfl, registry, hr, hmatches⟩
  | unregister scheme =>
    have hfind := hmatches.find? scheme
    simp only [Change.make, Change.note, World.unregister, Call.outcome_bind, World.outcome_registry hr,
      Call.outcome_ofExcept, Call.outcome_ofOutcome, Registry.unregister, hfind]
    -- the reference map tells whether there is a member to take out
    cases hvalue : map.value scheme with
    | none => exact ⟨rfl, rfl, registry, hr, hmatches⟩
    | some member => exact ⟨rfl, rfl, follows_set hr (hmatches.eraseP scheme)⟩
  | setFallback fallback =>
    obtain ⟨label, backing, hprovider⟩ := hk
    simp only [Change.make, Change.note, World.setFallback, Call.outcome_bind, World.outcome_registry hr,
      World.outcome_member hprovider]
    exact ⟨rfl, rfl, follows_set hr ⟨⟨hmatches.keyed.valid, hmatches.keyed.distinct⟩, hmatches.schemes, hmatches.find?⟩⟩

/-! ### The order of the schemes -/

/-- The change puts a member under a scheme. -/
def Change.Registers (change : Change) (scheme : Text) : Prop :=
  ∃ member, change = .register member ∧ member.scheme = scheme ∧ Scheme.isValid scheme = true

/-- At a position of a history a member is registered under a scheme. -/
def RegisteredAt (history : List Change) (scheme : Text) (p : Nat) : Prop :=
  ∃ change, history[p]? = some change ∧ change.Registers scheme

/-- At a position of a history the member with a scheme is removed, if there is one. -/
def RemovedAt (history : List Change) (scheme : Text) (p : Nat) : Prop :=
  history[p]? = some (.unregister scheme)

/-- The position of the earliest registration of a scheme since it was last removed. -/
structure Entered (history : List Change) (scheme : Text) (p : Nat) : Prop where
  registered : RegisteredAt history scheme p
  kept : ∀ q, p < q → ¬ RemovedAt history scheme q
  earliest : ∀ q, q < p → RegisteredAt history scheme q → ∃ r, q < r ∧ r < p ∧ RemovedAt history scheme r

/-- The map after the changes of a history. -/
def noted (history : List Change) : OrderedMap Text Member :=
  (Call.outcomes Change.note history .empty).2

variable {history : List Change} {change : Change} {scheme : Text} {p : Nat}

theorem noted_concat (history : List Change) (change : Change) :
    noted (history ++ [change]) = (change.note.outcome (noted history)).2 :=
  Call.outcomes_concat_snd Change.note history change .empty

theorem getElem?_concat_eq_some_iff {other : Change} :
    (history ++ [change])[p]? = some other ↔
      history[p]? = some other ∨ p = history.length ∧ change = other := by
  rcases Nat.lt_trichotomy p history.length with h | rfl | h
  · rw [List.getElem?_append_left h]
    simp [Nat.ne_of_lt h]
  · simp
  · rw [List.getElem?_eq_none (by simp; omega), List.getElem?_eq_none (by omega)]
    simp [Nat.ne_of_gt h]

theorem registeredAt_concat : RegisteredAt (history ++ [change]) scheme p ↔
    RegisteredAt history scheme p ∨ p = history.length ∧ change.Registers scheme := by
  simp only [RegisteredAt, getElem?_concat_eq_some_iff, or_and_right, exists_or]
  refine or_congr_right ⟨?_, ?_⟩
  · rintro ⟨other, ⟨hp, rfl⟩, hr⟩
    exact ⟨hp, hr⟩
  · rintro ⟨hp, hr⟩
    exact ⟨change, ⟨hp, rfl⟩, hr⟩

theorem removedAt_concat : RemovedAt (history ++ [change]) scheme p ↔
    RemovedAt history scheme p ∨ p = history.length ∧ change = .unregister scheme :=
  getElem?_concat_eq_some_iff

theorem RegisteredAt.lt (h : RegisteredAt history scheme p) : p < history.length := by
  obtain ⟨change, hp, -⟩ := h
  exact (List.getElem?_eq_some_iff.mp hp).1

theorem RemovedAt.lt (h : RemovedAt history scheme p) : p < history.length :=
  (List.getElem?_eq_some_iff.mp h).1

theorem Change.Registers.ne_unregister (h : change.Registers scheme) : change ≠ .unregister scheme := by
  obtain ⟨member, rfl, -⟩ := h
  exact Change.noConfusion

theorem Entered.unique {q : Nat} (hp : Entered history scheme p) (hq : Entered history scheme q) : p = q := by
  rcases Nat.lt_trichotomy p q with h | h | h
  · obtain ⟨r, hr, -, hremoved⟩ := hq.earliest p h hp.registered
    exact absurd hremoved (hp.kept r hr)
  · exact h
  · obtain ⟨r, hr, -, hremoved⟩ := hp.earliest q h hq.registered
    exact absurd hremoved (hq.kept r hr)

/-- The keys that a change leaves are those it registers, and those there were but for the one it removes. -/
theorem mem_keys_note (map : OrderedMap Text Member) :
    scheme ∈ (change.note.outcome map).2.keys ↔
      change.Registers scheme ∨ change ≠ .unregister scheme ∧ scheme ∈ map.keys := by
  cases change with
  | register member =>
    rw [Change.note, Call.outcome_ofOutcome]
    by_cases hv : Scheme.isValid member.scheme = true
    · rw [if_pos hv, OrderedMap.keys_insert]
      by_cases hs : member.scheme = scheme
      · subst hs
        split_ifs with hm <;> simp [Change.Registers, hv, hm]
      · split_ifs with hm <;> simp [Change.Registers, hs, Ne.symm hs]
    · rw [if_neg hv]
      -- an invalid scheme is refused, and such a change registers nothing
      have hnot : ¬ (Change.register member).Registers scheme := by
        rintro ⟨other, hother, rfl, hvalid⟩
        exact hv (Change.register.inj hother ▸ hvalid)
      simp [hnot]
  | unregister removed =>
    rw [Change.note, Call.outcome_ofOutcome]
    cases hvalue : map.value removed with
    | none =>
      -- `unregister` fails here, but it could only have removed what is not there
      have hm : removed ∉ map.keys := by simp [map.mem_keys, hvalue]
      by_cases hs : removed = scheme
      · simp [Change.Registers, hs, hs ▸ hm]
      · simp [Change.Registers, hs]
    | some member => simp [Change.Registers, and_comm, ne_comm]
  | setFallback fallback => simp [Change.note, Change.Registers]

/-- A scheme is there when it has been registered and not been removed again. -/
theorem mem_keys_noted : scheme ∈ (noted history).keys ↔
    ∃ p, RegisteredAt history scheme p ∧ ∀ q, p < q → ¬ RemovedAt history scheme q := by
  induction history using List.reverseRecOn with
  | nil => simp [noted, Call.outcomes, OrderedMap.empty, RegisteredAt]
  | append_singleton history change ih =>
    -- the last change registers the scheme, or it does not remove it and an earlier one has registered it
    rw [noted_concat, mem_keys_note, ih]
    constructor
    · rintro (hr | ⟨hc, p, hp, hkept⟩)
      · refine ⟨history.length, registeredAt_concat.mpr (.inr ⟨rfl, hr⟩), fun q hq hremoved => ?_⟩
        have := hremoved.lt
        simp at this
        omega
      · refine ⟨p, registeredAt_concat.mpr (.inl hp), fun q hq hremoved => ?_⟩
        rcases removedAt_concat.mp hremoved with hremoved | ⟨-, he⟩
        · exact hkept q hq hremoved
        · exact hc he
    · rintro ⟨p, hp, hkept⟩
      rcases registeredAt_concat.mp hp with hold | ⟨rfl, hr⟩
      · refine .inr ⟨fun he => ?_, p, hold, fun q hq hremoved => ?_⟩
        · exact hkept history.length hold.lt (removedAt_concat.mpr (.inr ⟨rfl, he⟩))
        · exact hkept q hq (removedAt_concat.mpr (.inl hremoved))
      · exact .inl hr

theorem mem_keys_noted_iff_entered : scheme ∈ (noted history).keys ↔ ∃ p, Entered history scheme p := by
  classical
  rw [mem_keys_noted]
  constructor
  · intro h
    refine ⟨Nat.find h, (Nat.find_spec h).1, (Nat.find_spec h).2, fun q hq hregistered => ?_⟩
    -- an earlier registration is not the first one that is kept, so it has been removed
    have hnot := Nat.find_min h hq
    simp only [not_and, not_forall, not_not] at hnot
    obtain ⟨r, hr, hremoved⟩ := hnot hregistered
    refine ⟨r, hr, ?_, hremoved⟩
    rcases Nat.lt_trichotomy r (Nat.find h) with hlt | rfl | hgt
    · exact hlt
    · obtain ⟨change, hchange, hregisters⟩ := (Nat.find_spec h).1
      exact absurd (Option.some.inj (hchange.symm.trans hremoved)) hregisters.ne_unregister
    · exact absurd hremoved ((Nat.find_spec h).2 r hgt)
  · rintro ⟨p, hp⟩
    exact ⟨p, hp.registered, hp.kept⟩

/-- A scheme that is there already does not enter again. -/
theorem Entered.of_concat (h : Entered (history ++ [change]) scheme p) (hm : scheme ∈ (noted history).keys) :
    Entered history scheme p := by
  -- the last change has not entered the scheme, since it was there already and is not removed in between
  have hold : RegisteredAt history scheme p := by
    rcases registeredAt_concat.mp h.registered with hold | ⟨rfl, -⟩
    · exact hold
    · obtain ⟨p, hp⟩ := mem_keys_noted_iff_entered.mp hm
      obtain ⟨r, hr, hlt, hremoved⟩ :=
        h.earliest p hp.registered.lt (registeredAt_concat.mpr (.inl hp.registered))
      rcases removedAt_concat.mp hremoved with hremoved | ⟨rfl, -⟩
      · exact absurd hremoved (hp.kept r hr)
      · omega
  refine ⟨hold, fun q hq hremoved => h.kept q hq (removedAt_concat.mpr (.inl hremoved)), fun q hq hr => ?_⟩
  obtain ⟨r, hqr, hrp, hremoved⟩ := h.earliest q hq (registeredAt_concat.mpr (.inl hr))
  rcases removedAt_concat.mp hremoved with hremoved | ⟨rfl, -⟩
  · exact ⟨r, hqr, hrp, hremoved⟩
  · have := hold.lt
    omega

/-- The schemes stand in the order in which they have entered. -/
theorem pairwise_keys_noted (history : List Change) : (noted history).keys.Pairwise fun first second =>
    ∀ {p q : Nat}, Entered history first p → Entered history second q → p < q := by
  induction history using List.reverseRecOn with
  | nil => exact List.Pairwise.nil
  | append_singleton history change ih =>
    have hkeys : (noted history).keys.Pairwise fun first second => ∀ {p q : Nat},
        Entered (history ++ [change]) first p → Entered (history ++ [change]) second q → p < q :=
      ih.imp_of_mem fun hf hs h p q hp hq => h (hp.of_concat hf) (hq.of_concat hs)
    rw [noted_concat]
    cases change with
    | register member =>
      rw [Change.note, Call.outcome_ofOutcome]
      by_cases hv : Scheme.isValid member.scheme = true
      · rw [if_pos hv, OrderedMap.keys_insert]
        split_ifs with hm
        · exact hkeys
        · refine List.pairwise_append.mpr ⟨hkeys, List.pairwise_singleton _ _, fun first hf second hs p q hp hq => ?_⟩
          obtain rfl := List.mem_singleton.mp hs
          -- the new scheme enters now, after all that are there
          have hlt := (hp.of_concat hf).registered.lt
          rcases registeredAt_concat.mp hq.registered with hold | ⟨rfl, -⟩
          · refine absurd (mem_keys_noted.mpr ⟨q, hold, fun r hr hremoved => ?_⟩) hm
            exact hq.kept r hr (removedAt_concat.mpr (.inl hremoved))
          · exact hlt
      · rw [if_neg hv]
        exact hkeys
    | unregister scheme =>
      rw [Change.note, Call.outcome_ofOutcome]
      cases (noted history).value scheme with
      | none => exact hkeys
      | some member => exact hkeys.filter _
    | setFallback fallback => exact hkeys

/-! ### Histories -/

theorem follows_fresh {fallback : Member} (hr : world.registries[number]? = some (fresh fallback)) :
    Follows number world .empty :=
  ⟨fresh fallback, hr, keyed_fresh fallback, rfl, fun _ => rfl⟩

/-- Another fallback, or the number of no provider at all, leaves the members as they are. -/
theorem members_setFallback (hr : world.registries[number]? = some registry) (id : Nat) :
    ∃ registry', ((World.setFallback number id).outcome world).2.registries[number]? = some registry' ∧
      registry'.members = registry.members := by
  rw [World.setFallback, Call.outcome_bind, World.outcome_registry hr]
  cases hprovider : world.providers[id]? with
  | none =>
    have hmember : (World.member id).outcome world = (.error World.missingProvider, world) := by
      rw [World.member, Call.outcome_bind, Call.outcome_get]
      simp only [World.provider?, hprovider]
      rfl
    simp only [Call.outcome_bind, hmember]
    exact ⟨registry, hr, rfl⟩
  | some provider =>
    simp only [Call.outcome_bind, World.outcome_member hprovider]
    exact ⟨_, List.getElem?_set_self (List.getElem?_eq_some_iff.mp hr).1, rfl⟩

/-- **A registry is a map that remembers its order.** Whatever is registered, removed or made the fallback from a
fresh registry on, in vain or not, the answers are those of the map, and the members are its items: their schemes are
valid, no two alike, and in the order of the earliest registration of each since it was last removed. Another fallback
leaves the members alone. -/
theorem ordered_history {fallback : Member} {history : List Change}
    (hr : world.registries[number]? = some (fresh fallback))
    (hk : ∀ change ∈ history, change.KnownTo world.providers) :
    (Call.outcomes (Change.make number) history world).1 =
      (Call.outcomes Change.note history .empty).1.map (Except.map (Option.map Member.id)) ∧
    ∃ registry, (Call.outcomes (Change.make number) history world).2.registries[number]? = some registry ∧
      registry.members.map (fun member => (member.scheme, member)) = (noted history).items ∧
      (∀ member ∈ registry.members, Scheme.isValid member.scheme = true) ∧
      registry.schemes.Nodup ∧
      (∀ scheme, scheme ∈ registry.schemes ↔ ∃! p, Entered history scheme p) ∧
      (registry.schemes.Pairwise fun first second =>
        ∀ {p q : Nat}, Entered history first p → Entered history second q → p < q) ∧
      registry.schemes = (noted history).keys ∧
      registry.members.length = (noted history).keys.length ∧
      (∀ scheme, registry.get scheme = match (noted history).value scheme with
        | some member => .ok member
        | none => .error (unknownScheme scheme)) ∧
      (∀ scheme, registry.contains scheme = true ↔ scheme ∈ (noted history).keys) ∧
      ∀ id, ∃ registry', ((World.setFallback number id).outcome
          (Call.outcomes (Change.make number) history world).2).2.registries[number]? = some registry' ∧
        registry'.members = registry.members := by
  obtain ⟨hanswers, -, registry, hend, hmatches⟩ :=
    Call.outcomes_of_related (fun change hc world' map => follows_change (hk change hc))
      ⟨rfl, follows_fresh hr⟩
  -- the registry follows the reference map through the history, so all that is asked is read off the map
  have hschemes : registry.schemes = (noted history).keys := hmatches.schemes
  refine ⟨hanswers, registry, hend, hmatches.items_eq, fun member hm => hmatches.keyed.valid hm, ?_, ?_, ?_, hschemes,
    ?_, ?_, ?_, members_setFallback hend⟩
  · exact hmatches.keyed.distinct
  · intro scheme
    rw [hschemes, mem_keys_noted_iff_entered]
    exact ⟨fun ⟨p, hp⟩ => ⟨p, hp, fun q hq => hq.unique hp⟩, fun ⟨p, hp, _⟩ => ⟨p, hp⟩⟩
  · rw [hschemes]
    exact pairwise_keys_noted history
  · rw [← hschemes, schemes, List.length_map]
  · intro scheme
    rw [get, hmatches.find?]
    rfl
  · intro scheme
    rw [contains, hmatches.find?, OrderedMap.mem_keys]
    rfl

/-- A world with a fresh registry and some providers, the last of which has no scheme that can be registered. -/
def openWorld : World :=
  { World.fresh [] 0 (.counting []) with
    providers := [⟨"file".toList, .ownSchemeOrNone, none, .disk⟩, ⟨"mem".toList, .ownScheme, none, .view 0 true⟩,
      ⟨"memo".toList, .ownScheme, none, .view 0 true⟩, ⟨"mem".toList, .ownScheme, none, .view 0 false⟩,
      ⟨"m".toList, .ownScheme, none, .view 0 false⟩]
    registries := [.fresh ⟨0, "file".toList, .ownSchemeOrNone⟩] }

/-- Two schemes come, the first is replaced, goes and comes again; the rest is in vain. -/
def openHistory : List Change :=
  [.register ⟨1, "mem".toList, .ownScheme⟩, .register ⟨2, "memo".toList, .ownScheme⟩,
    .register ⟨4, "m".toList, .ownScheme⟩, .register ⟨3, "mem".toList, .ownScheme⟩, .unregister "mem".toList,
    .unregister "m".toList, .setFallback ⟨1, "mem".toList, .ownScheme⟩, .register ⟨1, "mem".toList, .ownScheme⟩]

theorem ordered_openHistory :
    openWorld.registries[0]? = some (fresh ⟨0, "file".toList, .ownSchemeOrNone⟩) ∧
      (∀ change ∈ openHistory, change.KnownTo openWorld.providers) ∧
      ∃ registry, (Call.outcomes (Change.make 0) openHistory openWorld).2.registries[0]? = some registry ∧
        registry.schemes = ["memo".toList, "mem".toList] ∧
        ∃ p, Entered openHistory "mem".toList p := by
  have hknown : ∀ change ∈ openHistory, change.KnownTo openWorld.providers := by
    intro change hc
    simp only [openHistory, List.mem_cons, List.not_mem_nil, or_false] at hc
    rcases hc with rfl | rfl | rfl | rfl | rfl | rfl | rfl | rfl
    all_goals first | exact trivial | exact ⟨_, _, rfl⟩
  have hfresh : openWorld.registries[0]? = some (fresh ⟨0, "file".toList, .ownSchemeOrNone⟩) := rfl
  obtain ⟨-, registry, hr, -, -, -, hentered, -, hkeys, -⟩ := ordered_history hfresh hknown
  have hschemes : registry.schemes = ["memo".toList, "mem".toList] := hkeys
  exact ⟨hfresh, hknown, registry, hr, hschemes, ((hentered _).mp (by rw [hschemes]; decide)).exists⟩

end Registry

end FileRouter
