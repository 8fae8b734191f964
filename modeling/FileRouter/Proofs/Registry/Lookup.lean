import FileRouter.Proofs.Registry
import Mathlib.Data.List.Induction
/-!
Resolution as lookup by the scheme.

A registry asks its members in order and takes the first that claims a path, so what it resolves may depend on
the order. It does not where every member claims by its scheme and only one of them, the disk, the paths without a
scheme too: the members that claim a path are then found by what `Scheme.parse?` says about it alone
(`accepts_iff`). Schemes that begin alike do no harm, because a scheme ends at the first colon of the path.
Resolving a path is looking up its scheme (`Exclusive.resolve_eq`), and registering the same members in another
order gives a registry that resolves every path the same way (`Exclusive.resolve_by_scheme`).
-/

namespace FileRouter.Registry

/-- The members are providers that claim by their scheme, as drives and views do, and at most one, the disk, that
also claims the paths without a scheme. -/
structure Exclusive (registry : Registry) : Prop where
  keyed : registry.Keyed
  byScheme : registry.ByScheme
  oneDisk : ∀ {first second : Member}, first ∈ registry.members → second ∈ registry.members →
    first.claim = .ownSchemeOrNone → second.claim = .ownSchemeOrNone → first = second

variable {registry : Registry}

/-- Resolving a path is looking up what stands in front of it. -/
theorem Exclusive.resolve_eq (h : registry.Exclusive) (path : Text) :
    registry.resolve path = (registry.lookup? (Scheme.parse? path)).getD registry.fallback := by
  rw [resolve, find?_accepts h.keyed h.byScheme]

theorem Exclusive.disk?_eq_some_iff (h : registry.Exclusive) {disk : Member} :
    registry.disk? = some disk ↔ disk ∈ registry.members ∧ disk.claim = .ownSchemeOrNone := by
  rw [disk?, find?_eq_some_iff_of_unique, decide_eq_true_iff]
  intro first hfirst second hsecond hf hs
  exact h.oneDisk hfirst hsecond (of_decide_eq_true hf) (of_decide_eq_true hs)

/-! ### The order of registration -/

theorem put_of_notMem {member : Member} {members : List Member}
    (h : member.scheme ∉ members.map Member.scheme) : put member members = members ++ [member] := by
  induction members with
  | nil => rfl
  | cons first members ih =>
    rw [List.map_cons, List.mem_cons, not_or] at h
    rw [put, if_neg fun he => h.1 he.symm, ih h.2, List.cons_append]

/-- Registered one after the other, members with different schemes stand in the order of their registration. -/
theorem foldlM_register (h : registry.Keyed) :
    registry.members.foldlM register (fresh registry.fallback) = .ok registry := by
  obtain ⟨members, fallback⟩ := registry
  induction members using List.reverseRecOn with
  | nil => rfl
  | append_singleton members member ih =>
    have hm := h.distinct
    rw [List.map_append, List.map_singleton, List.nodup_append] at hm
    have hearlier : Keyed ⟨members, fallback⟩ := ⟨fun hm => h.valid (List.mem_append_left _ hm), hm.1⟩
    -- the last member has a scheme of its own, so it is put at the end
    have hnew : member.scheme ∉ members.map Member.scheme := fun hin => hm.2.2 _ hin _ (by simp) rfl
    rw [List.foldlM_append, ih hearlier]
    show [member].foldlM register ⟨members, fallback⟩ = _
    rw [List.foldlM_cons, register, if_pos (h.valid (List.mem_append_right _ List.mem_cons_self)), put_of_notMem hnew]
    rfl

theorem Exclusive.perm (h : registry.Exclusive) {order : List Member} (hp : order.Perm registry.members) :
    Exclusive ⟨order, registry.fallback⟩ where
  keyed := ⟨fun hm => h.keyed.valid (hp.subset hm), (hp.map Member.scheme).nodup_iff.mpr h.keyed.distinct⟩
  byScheme := fun member hm => h.byScheme member (hp.subset hm)
  oneDisk := fun hfirst hsecond => h.oneDisk (hp.subset hfirst) (hp.subset hsecond)

/-- What is looked up does not depend on the order of the members. -/
theorem Exclusive.lookup?_perm (h : registry.Exclusive) {order : List Member}
    (hp : order.Perm registry.members) (front : Option Text) :
    lookup? ⟨order, registry.fallback⟩ front = registry.lookup? front := by
  refine Option.ext fun member => ?_
  cases front with
  | none => rw [lookup?, lookup?, (h.perm hp).disk?_eq_some_iff, h.disk?_eq_some_iff, hp.mem_iff]
  | some scheme =>
    rw [lookup?, lookup?, find?_eq_some_iff (h.perm hp).keyed, find?_eq_some_iff h.keyed, hp.mem_iff]

/-- A path belongs to the member with its scheme, to the disk if it has none, and otherwise to the fallback;
registering the same members in any other order changes nothing about that. -/
theorem Exclusive.resolve_by_scheme (h : registry.Exclusive) (path : Text) :
    (∀ {scheme : Text} {member : Member}, Scheme.parse? path = some scheme →
      registry.get scheme = .ok member → registry.resolve path = member) ∧
    (∀ {disk : Member}, Scheme.parse? path = none → disk ∈ registry.members →
      disk.claim = .ownSchemeOrNone → registry.resolve path = disk) ∧
    ((∀ {scheme : Text}, Scheme.parse? path = some scheme → registry.contains scheme = false) →
      (Scheme.parse? path = none → ∀ member ∈ registry.members, member.claim ≠ .ownSchemeOrNone) →
      registry.resolve path = registry.fallback) ∧
    ∀ order : List Member, order.Perm registry.members →
      ∃ other, order.foldlM register (fresh registry.fallback) = .ok other ∧
        other.resolve path = registry.resolve path := by
  refine ⟨?_, ?_, ?_, ?_⟩
  · intro scheme member hparse hget
    have hfind : registry.find? scheme = some member := by
      rw [get] at hget
      split at hget
      · next hf => rw [hf, Except.ok.inj hget]
      · exact absurd hget (by simp)
    rw [h.resolve_eq, hparse, lookup?, hfind, Option.getD_some]
  · intro disk hparse hm hclaim
    rw [h.resolve_eq, hparse, lookup?, h.disk?_eq_some_iff.mpr ⟨hm, hclaim⟩, Option.getD_some]
  · intro hscheme hdisk
    have hnone : registry.lookup? (Scheme.parse? path) = none := by
      cases hparse : Scheme.parse? path with
      | none =>
        refine Option.eq_none_iff_forall_not_mem.mpr fun disk hd => ?_
        obtain ⟨hm, hclaim⟩ := h.disk?_eq_some_iff.mp hd
        exact hdisk hparse disk hm hclaim
      | some scheme => exact Option.isSome_eq_false_iff.mp (hscheme hparse) |> Option.isNone_iff_eq_none.mp
    rw [h.resolve_eq, hnone, Option.getD_none]
  · intro order hp
    refine ⟨⟨order, registry.fallback⟩, foldlM_register (h.perm hp).keyed, ?_⟩
    -- in another order the same members are exclusive, so the same one is found
    rw [(h.perm hp).resolve_eq, h.resolve_eq, h.lookup?_perm hp]

/-- A registry with the disk in the middle, and schemes that begin alike. -/
def crowded : Registry :=
  ⟨[⟨1, "mem".toList, .ownScheme⟩, ⟨0, "file".toList, .ownSchemeOrNone⟩, ⟨2, "memo".toList, .ownScheme⟩],
    ⟨3, "ro".toList, .ownScheme⟩⟩

theorem exclusive_crowded : crowded.Exclusive where
  keyed :=
    have hvalid : ∀ member ∈ crowded.members, Scheme.isValid member.scheme = true := by decide
    ⟨fun {member} hm => hvalid member hm, by decide⟩
  byScheme := by
    intro member hm start
    have hclaims : ∀ member ∈ crowded.members,
        member.claim = .ownScheme ∨ member.claim = .ownSchemeOrNone := by decide
    rcases hclaims member hm with hclaim | hclaim <;> simp [hclaim]
  oneDisk := by
    have hone : ∀ first ∈ crowded.members, ∀ second ∈ crowded.members,
        first.claim = .ownSchemeOrNone → second.claim = .ownSchemeOrNone → first = second := by decide
    intro first second hfirst hsecond
    exact hone first hfirst second hsecond

theorem resolve_crowded :
    crowded.Exclusive ∧ crowded.resolve "memo:/a".toList = ⟨2, "memo".toList, .ownScheme⟩ ∧
      crowded.resolve "C:/a".toList = ⟨0, "file".toList, .ownSchemeOrNone⟩ ∧
      crowded.resolve "memory:/a".toList = crowded.fallback ∧
      ∃ other, crowded.members.reverse.foldlM register (fresh crowded.fallback) = .ok other ∧
        other.resolve "mem:/a".toList = crowded.resolve "mem:/a".toList := by
  refine ⟨exclusive_crowded, ?_, ?_, ?_, ?_⟩
  · have hparse : Scheme.parse? "memo:/a".toList = some "memo".toList := by decide
    exact (exclusive_crowded.resolve_by_scheme "memo:/a".toList).1 hparse rfl
  · exact (exclusive_crowded.resolve_by_scheme "C:/a".toList).2.1 (by decide) (by decide) rfl
  · refine (exclusive_crowded.resolve_by_scheme "memory:/a".toList).2.2.1 ?_ (by decide)
    intro scheme hparse
    obtain rfl : "memory".toList = scheme := Option.some.inj hparse
    decide
  · exact (exclusive_crowded.resolve_by_scheme "mem:/a".toList).2.2.2 _ (List.reverse_perm _)

end FileRouter.Registry
