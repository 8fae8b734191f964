import FileRouter.Proofs.Scheme
import FileRouter.Registry
import Mathlib.Data.List.Find
import Mathlib.Data.List.Nodup
/-!
Registries and the owners of paths.

Putting a valid member and removing one keep a registry `Keyed`: its schemes are valid and no two members share
one. Where all members claim by their scheme, the first member that claims a path is found by what
`Scheme.parse?` says about the path alone (`find?_accepts`), so a path that begins with the scheme of a member
belongs to that member, wherever it stands in the order (`Keyed.resolve_of_has`).
-/

namespace FileRouter.Registry

/-- Every member has a valid scheme, and no other member has it too. -/
structure Keyed (registry : Registry) : Prop where
  valid : ∀ {member : Member}, member ∈ registry.members → Scheme.isValid member.scheme = true
  distinct : (registry.members.map Member.scheme).Nodup

/-- Every member claims the paths with its scheme, and perhaps those with none, but no others. -/
def ByScheme (registry : Registry) : Prop :=
  ∀ member ∈ registry.members, ∀ start, member.claim ≠ .leading start

/-! ### Changes -/

theorem mem_put {member other : Member} {members : List Member} (h : other ∈ put member members) :
    other = member ∨ other ∈ members := by
  induction members with
  | nil => exact Or.inl (List.mem_singleton.mp h)
  | cons first members ih =>
    rw [put] at h
    split_ifs at h
    · rcases List.mem_cons.mp h with rfl | h
      · exact Or.inl rfl
      · exact Or.inr (List.mem_cons_of_mem _ h)
    · rcases List.mem_cons.mp h with rfl | h
      · exact Or.inr List.mem_cons_self
      · exact (ih h).imp_right (List.mem_cons_of_mem _)

/-- A member takes the place of the one with its scheme, or comes last. -/
theorem schemes_put (member : Member) (members : List Member) :
    (put member members).map Member.scheme =
      if member.scheme ∈ members.map Member.scheme then members.map Member.scheme
      else members.map Member.scheme ++ [member.scheme] := by
  induction members with
  | nil => rfl
  | cons first members ih =>
    rw [put]
    by_cases hf : first.scheme = member.scheme
    · rw [if_pos hf, List.map_cons, List.map_cons, ← hf, if_pos List.mem_cons_self]
    · rw [if_neg hf, List.map_cons, ih, List.map_cons]
      by_cases hm : member.scheme ∈ members.map Member.scheme
      · rw [if_pos hm, if_pos (List.mem_cons_of_mem _ hm)]
      · rw [if_neg hm, if_neg (by simpa [Ne.symm hf] using hm), List.cons_append]

theorem keyed_fresh (fallback : Member) : (fresh fallback).Keyed :=
  ⟨fun h => absurd h (by simp [fresh]), by simp [fresh]⟩

theorem Keyed.put {registry : Registry} {member : Member} (h : registry.Keyed)
    (hv : Scheme.isValid member.scheme = true) :
    Keyed { registry with members := put member registry.members } := by
  refine ⟨fun {other} ho => ?_, ?_⟩
  · rcases mem_put ho with rfl | ho
    · exact hv
    · exact h.valid ho
  · show ((Registry.put member registry.members).map Member.scheme).Nodup
    rw [schemes_put]
    split_ifs with hm
    · exact h.distinct
    · exact List.nodup_append.mpr ⟨h.distinct, by simp, fun a ha b hb hab => hm (by simp_all)⟩

theorem Keyed.eraseP {registry : Registry} (h : registry.Keyed) (scheme : Text) :
    Keyed { registry with members := registry.members.eraseP fun member => member.scheme = scheme } := by
  have hsub := List.eraseP_sublist (l := registry.members) (p := fun member => member.scheme = scheme)
  exact ⟨fun ho => h.valid (hsub.subset ho), h.distinct.sublist (hsub.map _)⟩

/-! ### Owners -/

/-- The member that claims the paths without a scheme. -/
def disk? (registry : Registry) : Option Member :=
  registry.members.find? fun member => member.claim = .ownSchemeOrNone

/-- The member for what stands in front of a path: the one with the scheme, or the disk for no scheme. -/
def lookup? (registry : Registry) : Option Text → Option Member
  | some scheme => registry.find? scheme
  | none => registry.disk?

/-- A member claims by the scheme of the path alone. -/
theorem accepts_iff {member : Member} (hc : ∀ start, member.claim ≠ .leading start)
    (hv : Scheme.isValid member.scheme = true) (path : Text) :
    member.accepts path = true ↔
      Scheme.parse? path = some member.scheme ∨
        Scheme.parse? path = none ∧ member.claim = .ownSchemeOrNone := by
  have hhas : Scheme.has path member.scheme = true ↔ Scheme.parse? path = some member.scheme := by
    simp [Scheme.parse?_eq_some_iff, hv]
  rw [Member.accepts]
  cases hclaim : member.claim with
  | ownScheme => simp [Claim.accepts, hhas]
  | ownSchemeOrNone => simp [Claim.accepts, hhas]
  | leading start => exact absurd hclaim (hc start)

/-- Where no two members pass a test, the one that is found is the one that passes. -/
theorem find?_eq_some_iff_of_unique {members : List Member} {test : Member → Bool}
    (h : ∀ first ∈ members, ∀ second ∈ members, test first = true → test second = true → first = second)
    {member : Member} : members.find? test = some member ↔ member ∈ members ∧ test member = true := by
  refine ⟨fun hf => ⟨List.mem_of_find?_eq_some hf, List.find?_some hf⟩, ?_⟩
  rintro ⟨hm, htest⟩
  obtain ⟨found, hf⟩ : ∃ found, members.find? test = some found := by
    rw [← Option.isSome_iff_exists, List.find?_isSome]
    exact ⟨member, hm, htest⟩
  rw [hf, h found (List.mem_of_find?_eq_some hf) member hm (List.find?_some hf) htest]

theorem find?_eq_some_iff {registry : Registry} (h : registry.Keyed) {scheme : Text} {member : Member} :
    registry.find? scheme = some member ↔ member ∈ registry.members ∧ member.scheme = scheme := by
  rw [find?, find?_eq_some_iff_of_unique, decide_eq_true_iff]
  intro first hfirst second hsecond hf hs
  refine List.inj_on_of_nodup_map h.distinct hfirst hsecond ?_
  rw [of_decide_eq_true hf, of_decide_eq_true hs]

/-- The first member that claims a path is the one that its scheme is looked up as. -/
theorem find?_accepts {registry : Registry} (hk : registry.Keyed) (hc : registry.ByScheme) (path : Text) :
    registry.members.find? (fun member => member.accepts path) = registry.lookup? (Scheme.parse? path) := by
  cases hp : Scheme.parse? path with
  | none =>
    refine List.find?_congr fun member hm => Bool.eq_iff_iff.mpr ?_
    simp [accepts_iff (hc member hm) (hk.valid hm), hp]
  | some scheme =>
    refine List.find?_congr fun member hm => Bool.eq_iff_iff.mpr ?_
    simp [accepts_iff (hc member hm) (hk.valid hm), hp, eq_comm]

/-- A path that begins with the scheme of a member belongs to that member. -/
theorem Keyed.resolve_of_has {registry : Registry} (h : registry.Keyed) (hc : registry.ByScheme)
    {member : Member} (hm : member ∈ registry.members) {path : Text}
    (hp : Scheme.has path member.scheme = true) : registry.resolve path = member := by
  have hlookup : registry.lookup? (Scheme.parse? path) = some member := by
    rw [Scheme.parse?_of_has (h.valid hm) hp]
    exact (find?_eq_some_iff h).mpr ⟨hm, rfl⟩
  rw [resolve, find?_accepts h hc, hlookup, Option.getD_some]

end FileRouter.Registry
