import FileRouter.Makers
import FileRouter.Proofs.Call
import FileRouter.Proofs.World.Stacked
/-!
Registries that are made from specs.

Making a provider leaves the providers and the registries that there are (`grown_make`), and all makers but the one
for scripts make drives, disks and views (`make_cases`). So whatever is put into the registry on the way, its fallback
stays the disk that it was made with, and without scripts it is `Stacked` in the end (`stacked_of_build`).
-/

namespace FileRouter.World

variable {world made : World} {registry id number : Nat} {maker : Maker}

/-! ### New providers -/

section Providers

variable (h : world.providers <+: made.providers)
include h

theorem provider?_of_more {provider : Provider} (hp : world.provider? id = some provider) :
    made.provider? id = some provider := by
  obtain ⟨more, hmore⟩ := h
  rw [World.provider?] at hp ⊢
  rw [← hmore, List.getElem?_append_left (List.getElem?_eq_some_iff.mp hp).1, hp]

theorem isDisk_of_more (hd : world.IsDisk id) : made.IsDisk id := by
  obtain ⟨scheme, claim, label, hp⟩ := hd
  exact ⟨scheme, claim, label, provider?_of_more h hp⟩

theorem station_of_more {member : Member} (hs : Station world registry member) : Station made registry member := by
  cases hs with
  | memory hclaim hp => exact .memory hclaim (provider?_of_more h hp)
  | disk hclaim hp => exact .disk hclaim (provider?_of_more h hp)
  | view hclaim hp => exact .view hclaim (provider?_of_more h hp)

end Providers

/-- A world with the same registries, and with the providers of another and perhaps more. -/
structure Grown (world made : World) : Prop where
  registries : made.registries = world.registries
  providers : world.providers <+: made.providers

theorem grown_add (provider : Provider) (world : World) : Grown world ((add provider).outcome world).2 :=
  ⟨rfl, List.prefix_append _ _⟩

/-! ### Makers -/

theorem outcome_addMemory (scheme : Text) (world : World) :
    (addMemory scheme).outcome world =
      if Scheme.isValid scheme then
        (add ⟨scheme, .ownScheme, none, .memory (.fresh scheme (millis world.clock))⟩).outcome world
      else (.error (Registry.badScheme scheme), world) := by
  rw [addMemory, checkScheme]
  split_ifs <;> rfl

theorem outcome_addView (scheme : Text) (registry : Nat) (readOnly : Bool) (world : World) :
    (addView scheme registry readOnly).outcome world =
      if Scheme.isValid scheme then (add ⟨scheme, .ownScheme, none, .view registry readOnly⟩).outcome world
      else (.error (Registry.badScheme scheme), world) := by
  rw [addView, checkScheme]
  split_ifs <;> rfl

/-- A provider that can be a member of a stacked registry. -/
inductive Stackable (registry : Nat) : Provider → Prop
  | memory {scheme : Text} {label : Option Text} {drive : Drive} :
      Stackable registry ⟨scheme, .ownScheme, label, .memory drive⟩
  | disk {scheme : Text} {label : Option Text} : Stackable registry ⟨scheme, .ownSchemeOrNone, label, .disk⟩
  | view {scheme : Text} {label : Option Text} {readOnly : Bool} :
      Stackable registry ⟨scheme, .ownScheme, label, .view registry readOnly⟩

theorem Stackable.station {provider : Provider} (h : Stackable registry provider)
    (hp : world.provider? id = some provider) :
    Station world registry ⟨id, provider.scheme, provider.claim⟩ := by
  cases h with
  | memory => exact .memory rfl hp
  | disk => exact .disk rfl hp
  | view => exact .view rfl hp

/-- A maker that is not for scripts adds a drive, a disk or a view, or fails and adds nothing. -/
theorem make_cases (hm : maker ≠ .scripted) (registry : Nat) (spec : Spec) (world : World) :
    (∃ failure, (maker.make registry spec).outcome world = (.error failure, world)) ∨
      ∃ provider, Stackable registry provider ∧
        (maker.make registry spec).outcome world = (add provider).outcome world := by
  -- the two makers of drives differ in where the scheme comes from
  have hmemory : ∀ scheme, (∃ failure, (addMemory scheme).outcome world = (.error failure, world)) ∨
      ∃ provider, Stackable registry provider ∧ (addMemory scheme).outcome world = (add provider).outcome world := by
    intro scheme
    rw [outcome_addMemory]
    split_ifs
    · exact Or.inr ⟨_, .memory, rfl⟩
    · exact Or.inl ⟨_, rfl⟩
  cases maker with
  | disk => exact Or.inr ⟨_, .disk, rfl⟩
  | memory => exact hmemory _
  | readOnly =>
    rw [Maker.make, outcome_addView]
    split_ifs
    · exact Or.inr ⟨_, .view, rfl⟩
    · exact Or.inl ⟨_, rfl⟩
  | targetMemory => exact hmemory _
  | scripted => exact absurd rfl hm

/-- Making a provider adds at most that provider. -/
theorem grown_make (maker : Maker) (registry : Nat) (spec : Spec) (world : World) :
    Grown world ((maker.make registry spec).outcome world).2 := by
  by_cases hm : maker = .scripted
  · subst hm
    rw [Maker.make, Call.outcome_bind, Call.outcome_change]
    cases spec.param? Makers.schemeParam with
    | none => exact ⟨rfl, List.prefix_refl _⟩
    | some scheme => exact ⟨rfl, List.prefix_append _ _⟩
  · rcases make_cases hm registry spec world with ⟨failure, hmade⟩ | ⟨provider, -, hmade⟩
    · rw [hmade]
      exact ⟨rfl, List.prefix_refl _⟩
    · rw [hmade]
      exact grown_add provider world

/-! ### Building -/

/-- A registry over the disk in the making. Its members are drives, disks and views as long as `plain` holds. -/
def Founded (plain : Prop) (number : Nat) (world : World) : Prop :=
  ∃ found, world.registries[number]? = some found ∧ found.Keyed ∧ world.IsDisk found.fallback.id ∧
    (plain → ∀ member ∈ found.members, Station world number member)

variable {plain : Prop}

theorem Founded.of_grown (h : Founded plain number world) (hg : Grown world made) : Founded plain number made := by
  obtain ⟨found, hfound, hkeyed, hdisk, hstation⟩ := h
  exact ⟨found, hg.registries ▸ hfound, hkeyed, isDisk_of_more hg.providers hdisk, fun hplain member hm =>
    station_of_more hg.providers (hstation hplain member hm)⟩

/-- Registering a provider keeps a registry founded, if the provider can be in it. -/
theorem Founded.register (h : Founded plain number world)
    (hid : plain → ∀ provider, world.provider? id = some provider → Stackable number provider) :
    Founded plain number ((World.register number id).outcome world).2 := by
  have ⟨found, hfound, hkeyed, hdisk, hstation⟩ := h
  rw [World.register, Call.outcome_bind, outcome_registry hfound]
  simp only [Call.outcome_bind]
  cases hp : world.provider? id with
  | none =>
    simp only [World.member, Call.outcome_bind, Call.outcome_get, hp]
    exact h
  | some provider =>
    simp only [outcome_member hp, Call.outcome_ofExcept, Registry.register]
    by_cases hv : Scheme.isValid provider.scheme = true
    · rw [if_pos hv]
      simp only [setRegistry, Call.outcome_change]
      refine ⟨_, List.getElem?_set_self (List.getElem?_eq_some_iff.mp hfound).1, hkeyed.put hv, hdisk,
        fun hplain other hm => ?_⟩
      -- A member that was there keeps its station, and the new one brings its own.
      have hold : Station world number other := by
        rcases Registry.mem_put hm with rfl | hm
        · exact (hid hplain provider hp).station hp
        · exact hstation hplain other hm
      refine station_of_more ?_ hold
      exact List.prefix_refl world.providers
    · rw [if_neg hv]
      exact h

/-- Filling a registry keeps it founded. -/
theorem keeps_founded_fill {makers : Makers} (hplain : plain → ∀ entry ∈ makers, entry.2 ≠ .scripted)
    (number : Nat) (specs : List Text) : Call.Keeps (Founded plain number) (makers.fill number specs) := by
  refine Call.keeps_forM fun text _ world hf => ?_
  refine Call.inv_bind ?_ fun {id made} hmade hfounded => ?_
  · rw [Makers.create, Catalog.create, Call.outcome_bind, Call.outcome_ofExcept]
    cases makers.choose text with
    | error failure => exact hf
    | ok chosen => exact hf.of_grown (grown_make chosen.1 number chosen.2 world)
  · refine hfounded.register fun hp provider hprovider => ?_
    rw [Makers.create, Catalog.create, Call.outcome_bind, Call.outcome_ofExcept] at hmade
    cases hc : makers.choose text with
    | error failure => simp [hc] at hmade
    | ok chosen =>
      obtain ⟨name, hmem⟩ := Catalog.exists_of_choose hc
      simp only [hc] at hmade
      rcases make_cases (hplain hp _ hmem) number chosen.2 world with ⟨failure, hfailed⟩ | ⟨added, hstack, hadded⟩
      · rw [hfailed] at hmade
        simp at hmade
      · -- the provider that was made is the last one
        rw [hadded, add, Call.outcome_ofOutcome, Prod.mk.injEq, Except.ok.injEq] at hmade
        obtain ⟨rfl, rfl⟩ := hmade
        rw [World.provider?, List.getElem?_concat_length, Option.some.injEq] at hprovider
        exact hprovider ▸ hstack

/-- A registry that is built without a fallback is founded. -/
theorem founded_of_build {makers : Makers} (hplain : plain → ∀ entry ∈ makers, entry.2 ≠ .scripted)
    {specs : List Text} (h : (makers.build specs none).outcome world = (.ok number, made)) :
    Founded plain number made := by
  let disk : Provider := ⟨Disk.scheme, .ownSchemeOrNone, none, .disk⟩
  let based : World := { world with providers := world.providers ++ [disk] }
  let begun : World :=
    { based with registries := world.registries ++ [.fresh ⟨world.providers.length, Disk.scheme, .ownSchemeOrNone⟩] }
  have hlast : based.provider? world.providers.length = some disk := List.getElem?_concat_length
  -- a registry that has just been made has no members, only the disk to fall back on
  have hbegun : Founded plain world.registries.length begun :=
    ⟨_, List.getElem?_concat_length, Registry.keyed_fresh _, ⟨_, _, _, hlast⟩, fun _ member hm => by
      simp [Registry.fresh] at hm⟩
  have hadd : (addRegistry world.providers.length).outcome based = (.ok world.registries.length, begun) := by
    rw [addRegistry, Call.outcome_bind, outcome_member hlast]
    rfl
  have hbuild : (makers.build specs none).outcome world =
      (makers.fill world.registries.length specs >>= fun _ => pure world.registries.length).outcome begun := by
    have hbase : (addDisk).outcome world = (.ok world.providers.length, based) := rfl
    rw [Makers.build, Call.outcome_bind, hbase]
    simp only
    rw [Call.outcome_bind, hadd]
  -- filling it keeps what `Founded` says, step by step
  have hkept := keeps_founded_fill hplain world.registries.length specs begun hbegun
  rw [hbuild, Call.outcome_bind] at h
  rcases hfill : (makers.fill world.registries.length specs).outcome begun with ⟨_ | _, filled⟩
  · rw [hfill] at h
    simp at h
  · rw [hfill] at h hkept
    simp only [Call.outcome_pure, Prod.mk.injEq, Except.ok.injEq] at h
    obtain ⟨rfl, rfl⟩ := h
    exact hkept

end FileRouter.World
