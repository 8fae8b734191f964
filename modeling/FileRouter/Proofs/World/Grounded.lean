import FileRouter.Proofs.Disk.Parent
import FileRouter.Proofs.World.Layers
/-!
Registries over the disk, with views on each other.

Registries are `Grounded` when their members are drives, disks and views on registries of the kind, and each has the disk
for what no member claims. Then every path is handed on to a drive or the disk, which goes on to serve whatever has the
same scheme as what it gets (`Grounded.exists_route`); so the parent that it names for it, with the schemes of the views
in front again, takes the same way (`Route.again`). Requests leave registries grounded (`Grounded.perform`).
-/

namespace FileRouter.World

variable {world world' : World} {known : Nat → Prop} {registry id base : Nat} {path inner other : Text}
  {chain : List (Text × Bool)}

/-- What a member of a grounded registry is: a drive with the scheme under which it is registered, a disk, or a view on a
known registry. -/
inductive Footing (world : World) (known : Nat → Prop) (member : Member) : Prop
  | memory {label : Option Text} {drive : Drive} : member.claim = .ownScheme →
      world.provider? member.id = some ⟨member.scheme, .ownScheme, label, .memory drive⟩ →
      drive.scheme = member.scheme → Footing world known member
  | disk {label : Option Text} : member.claim = .ownSchemeOrNone →
      world.provider? member.id = some ⟨member.scheme, .ownSchemeOrNone, label, .disk⟩ → Footing world known member
  | view {label : Option Text} {behind : Nat} {readOnly : Bool} : member.claim = .ownScheme →
      world.provider? member.id = some ⟨member.scheme, .ownScheme, label, .view behind readOnly⟩ → known behind →
      Footing world known member

/-- Known registries of drives, disks and views on each other, over the disk. -/
structure Grounded (world : World) (known : Nat → Prop) : Prop where
  exists_found : ∀ {registry : Nat}, known registry → ∃ found, world.registries[registry]? = some found ∧ found.Keyed ∧
    world.IsDisk found.fallback.id ∧ ∀ member ∈ found.members, Footing world known member

/-- A registry of layers is grounded on its own. -/
theorem Layered.grounded {found : Registry} (h : Layered world registry found) : Grounded world (· = registry) where
  exists_found := by
    rintro _ rfl
    refine ⟨found, h.here, h.keyed, h.fallback, fun member hm => ?_⟩
    cases h.layer hm with
    | memory hp hscheme => exact .memory (h.claims hm) hp hscheme
    | view hp => exact .view (h.claims hm) hp rfl

/-! ### Owners -/

theorem byScheme_of_footing {found : Registry} (h : ∀ member ∈ found.members, Footing world known member) :
    found.ByScheme := by
  intro member hm start
  cases h member hm with
  | memory hclaim _ _ | disk hclaim _ | view hclaim _ _ => simp [hclaim]

/-- The owner of a path is told by its scheme, or by its having none. -/
theorem Grounded.owner_eq (h : Grounded world known) (hr : known registry)
    (hp : Scheme.parse? other = Scheme.parse? path) : world.owner registry other = world.owner registry path := by
  obtain ⟨found, hfound, hkeyed, -, hmembers⟩ := h.exists_found hr
  have hby := byScheme_of_footing hmembers
  rw [owner_eq_resolve hfound, owner_eq_resolve hfound, Registry.resolve, Registry.resolve,
    Registry.find?_accepts hkeyed hby, Registry.find?_accepts hkeyed hby, hp]

/-! ### Ways -/

/-- A provider that a path comes to: a drive, if the path has its scheme, or the disk. -/
inductive Seated (world : World) (base : Nat) (inner : Text) : Prop
  | drive {drive : Drive} : world.drive? base = some drive → Scheme.isValid drive.scheme = true →
      Scheme.has inner drive.scheme = true → Seated world base inner
  | disk : world.drive? base = none → world.IsDisk base → Seated world base inner

theorem Seated.of_parse? (h : Seated world base inner) (hp : Scheme.parse? other = Scheme.parse? inner) :
    Seated world base other := by
  cases h with
  | drive hd hv hhas => exact .drive hd hv (Scheme.has_eq_of_parse? hv hp ▸ hhas)
  | disk hd hdisk => exact .disk hd hdisk

theorem IsDisk.drive? (h : world.IsDisk id) : world.drive? id = none := by
  obtain ⟨scheme, claim, label, hp⟩ := h
  rw [World.drive?, hp]

theorem Seated.of_isDisk (h : world.IsDisk base) : Seated world base inner := .disk h.drive? h

/-- The way that a path takes from a registry. What has the same scheme as its rest takes the same way, with the schemes
of the views in front. -/
structure Route (world : World) (registry : Nat) (path : Text) (chain : List (Text × Bool)) (base : Nat) (inner : Text) :
    Prop where
  routed : Routed world (world.owner registry path) path chain base inner
  seated : Seated world base inner
  like : ∀ {other : Text}, Scheme.parse? other = Scheme.parse? inner →
    Scheme.parse? (wrapped chain other) = Scheme.parse? path ∧
      Routed world (world.owner registry (wrapped chain other)) (wrapped chain other) chain base other

theorem Route.again (h : Route world registry path chain base inner) (hp : Scheme.parse? other = Scheme.parse? inner) :
    Route world registry (wrapped chain other) chain base other := by
  obtain ⟨hparse, hrouted⟩ := h.like hp
  exact ⟨hrouted, h.seated.of_parse? hp, fun hp' => ⟨(h.like (hp'.trans hp)).1.trans hparse.symm, (h.like (hp'.trans hp)).2⟩⟩

/-- A provider that serves a path itself serves all that have the same scheme. -/
theorem Grounded.route_base (h : Grounded world known) (hr : known registry)
    (hb : world.IsBase (world.owner registry path)) (hs : Seated world (world.owner registry path) path) :
    Route world registry path [] (world.owner registry path) path where
  routed := .base hb
  seated := hs
  like {other} hp := by
    have howner := h.owner_eq hr hp
    exact ⟨hp, howner ▸ .base (howner ▸ hb)⟩

/-- **Every path takes a way**: each view takes its scheme off, and what is left is shorter. -/
theorem Grounded.exists_route {registry : Nat} (h : Grounded world known) (hr : known registry) (path : Text) :
    ∃ chain base inner, Route world registry path chain base inner := by
  obtain ⟨found, hfound, hkeyed, hfallback, hmembers⟩ := h.exists_found hr
  have howner : world.owner registry path = (found.resolve path).id := owner_eq_resolve hfound path
  have hdisk : world.IsDisk (world.owner registry path) → ∃ chain base inner, Route world registry path chain base inner :=
    fun hd => ⟨[], _, path, h.route_base hr hd.isBase (.of_isDisk hd)⟩
  rw [Registry.resolve] at howner
  cases hf : found.members.find? fun member => member.accepts path with
  | none =>
    rw [hf, Option.getD_none] at howner
    exact hdisk (howner ▸ hfallback)
  | some member =>
    rw [hf, Option.getD_some] at howner
    have hm := List.mem_of_find?_eq_some hf
    have hv := hkeyed.valid hm
    have haccepts : member.accepts path = true := List.find?_some (p := fun member => Member.accepts member path) hf
    rw [Member.accepts] at haccepts
    cases hmembers member hm with
    | disk _ hp => exact hdisk (howner ▸ ⟨_, _, _, hp⟩)
    | @memory label drive hclaim hp hscheme =>
      rw [hclaim, Claim.accepts] at haccepts
      have hd : world.drive? (world.owner registry path) = some drive :=
        drive?_eq_some_iff.mpr ⟨_, _, _, howner ▸ hp⟩
      exact ⟨[], _, path, h.route_base hr ⟨_, howner ▸ hp, Or.inr ⟨drive, rfl⟩⟩
        (.drive hd (hscheme ▸ hv) (hscheme ▸ haccepts))⟩
    | @view label behind readOnly hclaim hp hbehind =>
      rw [hclaim, Claim.accepts] at haccepts
      have hne := Scheme.ne_nil_of_isValid hv
      -- what is left behind the scheme is shorter, which is what ends the recursion
      have hshort := length_strip_lt haccepts
      obtain ⟨chain, base, inner, hroute⟩ := Grounded.exists_route h hbehind (Scheme.strip path member.scheme)
      rw [← howner] at hp
      refine ⟨(member.scheme, readOnly) :: chain, base, inner, .view hp hroute.routed, hroute.seated, fun {other} ho => ?_⟩
      have hparse : Scheme.parse? (wrapped ((member.scheme, readOnly) :: chain) other) = Scheme.parse? path := by
        rw [Scheme.parse?_of_has hv haccepts]
        exact Scheme.parse?_join hv _
      refine ⟨hparse, .view (by rw [h.owner_eq hr hparse]; exact hp) ?_⟩
      have hstrip : Scheme.strip (wrapped ((member.scheme, readOnly) :: chain) other) member.scheme = wrapped chain other :=
        Scheme.strip_join hne _
      rw [hstrip]
      exact (hroute.like ho).2
termination_by path.length

/-! ### What requests leave as it is -/

theorem Footing.of_outline {member : Member} (h : Footing world known member) (ho : world'.outline = world.outline) :
    Footing world' known member := by
  cases h with
  | memory hclaim hp hscheme =>
    obtain ⟨backing', hp', hbacking⟩ := provider?_of_outline ho hp
    obtain ⟨drive', rfl, hdrive⟩ := exists_of_bare_memory hbacking
    exact .memory hclaim hp' (hdrive.trans hscheme)
  | disk hclaim hp =>
    obtain ⟨backing', hp', hbacking⟩ := provider?_of_outline ho hp
    obtain rfl := eq_of_bare_disk hbacking
    exact .disk hclaim hp'
  | view hclaim hp hbehind =>
    obtain ⟨backing', hp', hbacking⟩ := provider?_of_outline ho hp
    obtain rfl := eq_of_bare_view hbacking
    exact .view hclaim hp' hbehind

theorem Grounded.of_outline (h : Grounded world known) (ho : world'.outline = world.outline) : Grounded world' known where
  exists_found {registry} hr := by
    obtain ⟨found, hfound, hkeyed, hfallback, hmembers⟩ := h.exists_found hr
    have hregistries : world'.registries = world.registries := congrArg Prod.fst ho
    exact ⟨found, by rw [hregistries, hfound], hkeyed, hfallback.of_outline ho, fun member hm =>
      (hmembers member hm).of_outline ho⟩

/-- Requests leave registries grounded. -/
theorem Grounded.perform (h : Grounded world known) (registry : Nat) (request : Request) :
    Grounded ((World.perform registry request).outcome world).2 known :=
  h.of_outline (outline_perform registry request world)

end FileRouter.World
