import FileRouter.Proofs.World.Files
/-!
Registries in which views are stacked on providers.

The members of a registry are drives, disks and views on the registry itself, and what no member claims goes to a drive
or a disk (`Stacked`). A view owns exactly the paths with its scheme (`Stacked.owner_view_iff`), so it takes that scheme
off and hands on a shorter path, and every path comes to a provider that serves it (`Stacked.leads`). The schemes that
come off are at least three characters each with their colons (`Leads.length_add_le`), they stand in front of the path
in the order of the way (`Leads.eq_wrapped`), and no other schemes of views stand behind them (`Leads.prefix_schemes`).
-/

namespace FileRouter

namespace World

variable {world : World} {registry id : Nat} {found : Registry} {path rest : Text} {chain : List (Text × Bool)}

/-- What a member of a registry can be: a drive or a view on the registry, which claim the paths with their scheme, or
a disk, which also claims those that have none. -/
inductive Station (world : World) (registry : Nat) (member : Member) : Prop
  | memory {label : Option Text} {drive : Drive} : member.claim = .ownScheme →
      world.provider? member.id = some ⟨member.scheme, .ownScheme, label, .memory drive⟩ →
      Station world registry member
  | disk {label : Option Text} : member.claim = .ownSchemeOrNone →
      world.provider? member.id = some ⟨member.scheme, .ownSchemeOrNone, label, .disk⟩ →
      Station world registry member
  | view {label : Option Text} {readOnly : Bool} : member.claim = .ownScheme →
      world.provider? member.id = some ⟨member.scheme, .ownScheme, label, .view registry readOnly⟩ →
      Station world registry member

/-- A registry of drives, disks and views on the registry itself, with a fallback that is no view. -/
structure Stacked (world : World) (registry : Nat) (found : Registry) : Prop where
  here : world.registries[registry]? = some found
  keyed : found.Keyed
  station : ∀ {member : Member}, member ∈ found.members → Station world registry member
  fallback : world.IsBase found.fallback.id

/-- A scheme under which a registry has a view on itself, and whether the view is read-only. -/
def ViewUnder (world : World) (registry : Nat) (found : Registry) (view : Text × Bool) : Prop :=
  ∃ member ∈ found.members, member.scheme = view.1 ∧ ∃ label,
    world.provider? member.id = some ⟨view.1, .ownScheme, label, .view registry view.2⟩

/-! ### Owners -/

theorem owner_eq_resolve (h : world.registries[registry]? = some found) (path : Text) :
    world.owner registry path = (found.resolve path).id := by
  rw [owner, owner?, h]
  rfl

section Stacked

variable (h : Stacked world registry found)
include h

theorem Stacked.byScheme : found.ByScheme := by
  intro member hm start
  cases h.station hm with
  | memory hclaim _ | disk hclaim _ | view hclaim _ => simp [hclaim]

theorem Stacked.owner_of_has {member : Member} (hm : member ∈ found.members)
    (hp : Scheme.has path member.scheme = true) : world.owner registry path = member.id := by
  rw [owner_eq_resolve h.here, h.keyed.resolve_of_has h.byScheme hm hp]

/-- The owner of a path is a member that claims it, or the fallback. -/
theorem Stacked.owner_cases (path : Text) :
    (∃ member ∈ found.members, world.owner registry path = member.id ∧ member.accepts path = true) ∨
      world.owner registry path = found.fallback.id := by
  rw [owner_eq_resolve h.here, Registry.resolve]
  cases hf : found.members.find? fun member => member.accepts path with
  | none => exact Or.inr rfl
  | some member =>
    exact Or.inl ⟨member, List.mem_of_find?_eq_some hf, rfl, List.find?_some (p := fun m => Member.accepts m path) hf⟩

/-- A view that owns a path is the member with the scheme that the path has. -/
theorem Stacked.member_of_view {scheme : Text} {claim : Claim} {label : Option Text} {behind : Nat} {readOnly : Bool}
    (hp : world.provider? (world.owner registry path) = some ⟨scheme, claim, label, .view behind readOnly⟩) :
    behind = registry ∧ Scheme.has path scheme = true ∧
      ∃ member ∈ found.members, member.scheme = scheme ∧ member.id = world.owner registry path ∧
        claim = .ownScheme := by
  rcases h.owner_cases path with ⟨member, hm, howner, haccepts⟩ | howner
  · rw [howner] at hp ⊢
    cases h.station hm with
    | memory _ hp' =>
      rw [hp'] at hp
      simp at hp
    | disk _ hp' =>
      rw [hp'] at hp
      simp at hp
    -- neither a drive nor the disk is a view, so the member is one that was added as such
    | view hclaim hp' =>
      rw [hp', Option.some.injEq, Provider.mk.injEq, Backing.view.injEq] at hp
      obtain ⟨rfl, rfl, -, rfl, -⟩ := hp
      rw [Member.accepts, hclaim, Claim.accepts] at haccepts
      exact ⟨rfl, haccepts, member, hm, rfl, rfl, rfl⟩
  · rw [howner] at hp
    exact absurd h.fallback (not_isBase_of_view hp)

/-- **Every path leads to a provider that serves it**: each view takes its scheme off, so what is left is shorter. -/
theorem Stacked.leads (path : Text) : ∃ chain id rest, Leads world registry path chain id rest := by
  have hbase : world.IsBase (world.owner registry path) → ∃ chain id rest, Leads world registry path chain id rest :=
    fun hb => ⟨[], _, path, .base hb⟩
  rcases h.owner_cases path with ⟨member, hm, howner, haccepts⟩ | howner
  · cases h.station hm with
    | memory _ hp => exact hbase (howner ▸ ⟨_, hp, Or.inr ⟨_, rfl⟩⟩)
    | disk _ hp => exact hbase (howner ▸ ⟨_, hp, Or.inl rfl⟩)
    | view _ hp =>
      rw [← howner] at hp
      -- a view takes its scheme off, so the path behind it is shorter
      have hshort := length_strip_lt (h.member_of_view hp).2.1
      obtain ⟨chain, id, rest, hleads⟩ := Stacked.leads (Scheme.strip path member.scheme)
      exact ⟨_, id, rest, .view hp hleads⟩
  · exact hbase (howner ▸ h.fallback)
termination_by path.length

/-! ### What comes off a path -/

/-- The schemes on a way are those of views of the registry. -/
theorem Leads.viewUnder (hl : Leads world registry path chain id rest) :
    ∀ view ∈ chain, ViewUnder world registry found view := by
  induction hl with
  | base _ => exact fun view hm => absurd hm List.not_mem_nil
  | @view path scheme rest claim label readOnly chain id hp _ ih =>
    obtain ⟨-, -, member, hm, hscheme, hid, rfl⟩ := h.member_of_view hp
    refine List.forall_mem_cons.mpr ⟨⟨member, hm, hscheme, label, ?_⟩, ih⟩
    rw [hid, hp]

/-- A path is what is left at the end of its way, with the schemes of the way in front. -/
theorem Leads.eq_wrapped (hl : Leads world registry path chain id rest) : path = wrapped chain rest := by
  induction hl with
  | base _ => rfl
  | @view path scheme rest claim label readOnly chain id hp _ ih =>
    obtain ⟨hne, behind, rfl⟩ := Scheme.has_iff.mp (h.member_of_view hp).2.1
    rw [Scheme.strip_join hne] at ih
    exact congrArg (Scheme.join scheme) ih

/-- At least three characters come off at each view. -/
theorem Leads.length_add_le (hl : Leads world registry path chain id rest) :
    3 * chain.length + rest.length ≤ path.length := by
  induction hl with
  | base _ => simp
  | @view path scheme rest claim label readOnly chain id hp _ ih =>
    obtain ⟨-, hhas, member, hm, rfl, -⟩ := h.member_of_view hp
    have htwo := Scheme.two_le_length_of_isValid (h.keyed.valid hm)
    obtain ⟨hne, behind, rfl⟩ := Scheme.has_iff.mp hhas
    rw [Scheme.strip_join hne] at ih
    rw [Scheme.join, List.length_append, List.length_cons, List.length_cons]
    omega

/-- The view with a scheme owns the paths that begin with the scheme. -/
theorem Stacked.view_owner {view : Text × Bool} (hv : ViewUnder world registry found view) (behind : Text) :
    view.1 ≠ [] ∧ ∃ label, world.provider? (world.owner registry (Scheme.join view.1 behind)) =
      some ⟨view.1, .ownScheme, label, .view registry view.2⟩ := by
  obtain ⟨member, hm, hscheme, label, hp⟩ := hv
  have hne : view.1 ≠ [] := hscheme ▸ Scheme.ne_nil_of_isValid (h.keyed.valid hm)
  have howner : world.owner registry (Scheme.join view.1 behind) = member.id :=
    h.owner_of_has hm (hscheme ▸ Scheme.has_join hne behind)
  exact ⟨hne, label, by rw [howner, hp]⟩

/-- No more schemes of views stand in front of a path than those on its way, and none in another order. -/
theorem Leads.prefix_schemes (hl : Leads world registry path chain id rest) {schemes : List Text} {other : Text}
    (hviews : ∀ scheme ∈ schemes, ∃ readOnly, ViewUnder world registry found (scheme, readOnly))
    (hpath : path = Scheme.joinAll schemes other) : schemes <+: chain.map Prod.fst := by
  induction hl generalizing schemes with
  | base hb =>
    cases schemes with
    | nil => exact List.nil_prefix
    | cons scheme schemes =>
      -- the view with that scheme would own the path
      obtain ⟨readOnly, hv⟩ := hviews scheme List.mem_cons_self
      obtain ⟨-, label, hp⟩ := h.view_owner hv (Scheme.joinAll schemes other)
      rw [hpath] at hb
      exact absurd hb (not_isBase_of_view hp)
  | @view path scheme' rest claim label readOnly' chain id hp _ ih =>
    cases schemes with
    | nil => exact List.nil_prefix
    | cons scheme schemes =>
      obtain ⟨readOnly, hv⟩ := hviews scheme List.mem_cons_self
      obtain ⟨hne, label, hview⟩ := h.view_owner hv (Scheme.joinAll schemes other)
      have hjoin : path = Scheme.join scheme (Scheme.joinAll schemes other) := hpath
      rw [hjoin, hview, Option.some.injEq, Provider.mk.injEq] at hp
      obtain ⟨rfl, -⟩ := hp
      have hbehind := ih (fun scheme hm => hviews scheme (List.mem_cons_of_mem _ hm))
        (by rw [hjoin, Scheme.strip_join hne])
      exact List.cons_prefix_cons.mpr ⟨rfl, hbehind⟩

end Stacked

end World

end FileRouter
