import FileRouter.Proofs.World.Results
import FileRouter.Proofs.World.Stacked
/-!
Registries of layers.

A registry is `Layered` when its members are drives and views on the registry itself, each under its own scheme,
and the disk serves whatever no member claims. Every path then takes a way to a provider that serves it
(`Layered.leads`), a path with the scheme of a view in front goes to that view, and how often a request may be
handed on does not matter as long as it is often enough (`Leads.outcome_within_eq`). Requests leave the layers
as they are (`outline_perform`).
-/

namespace FileRouter.World

open Call

variable {world world' : World} {registry id : Nat} {found : Registry} {path inner : Text}
  {chain : List (Text × Bool)}

/-- What a member of a registry of layers is: a drive or a view on the registry, which both claim the paths with
their scheme. -/
inductive Layer (world : World) (registry : Nat) (member : Member) : Prop
  | memory {label : Option Text} {drive : Drive} :
      world.provider? member.id = some ⟨member.scheme, .ownScheme, label, .memory drive⟩ →
      drive.scheme = member.scheme → Layer world registry member
  | view {label : Option Text} {readOnly : Bool} :
      world.provider? member.id = some ⟨member.scheme, .ownScheme, label, .view registry readOnly⟩ →
      Layer world registry member

/-- A registry of layers over the disk. -/
structure Layered (world : World) (registry : Nat) (found : Registry) : Prop where
  here : world.registries[registry]? = some found
  keyed : found.Keyed
  claims : ∀ {member : Member}, member ∈ found.members → member.claim = .ownScheme
  layer : ∀ {member : Member}, member ∈ found.members → Layer world registry member
  fallback : world.IsDisk found.fallback.id

/-! ### Owners -/

theorem IsDisk.isBase (h : world.IsDisk id) : world.IsBase id := by
  obtain ⟨scheme, claim, label, hp⟩ := h
  exact ⟨_, hp, Or.inl rfl⟩

theorem Layered.stacked (h : Layered world registry found) : Stacked world registry found where
  here := h.here
  keyed := h.keyed
  station hm := by
    cases h.layer hm with
    | memory hp _ => exact .memory (h.claims hm) hp
    | view hp => exact .view (h.claims hm) hp
  fallback := h.fallback.isBase

theorem Layered.byScheme (h : Layered world registry found) : found.ByScheme :=
  h.stacked.byScheme

theorem Layered.owner_of_has (h : Layered world registry found) {member : Member}
    (hm : member ∈ found.members) (hp : Scheme.has path member.scheme = true) :
    world.owner registry path = member.id :=
  h.stacked.owner_of_has hm hp

/-- A path belongs to a member whose scheme it carries, or to the disk. -/
theorem Layered.owner_cases (h : Layered world registry found) (path : Text) :
    (∃ member ∈ found.members, world.owner registry path = member.id ∧
        Scheme.has path member.scheme = true) ∨
      world.owner registry path = found.fallback.id := by
  refine (h.stacked.owner_cases path).imp_left fun ⟨member, hm, howner, haccepts⟩ => ⟨member, hm, howner, ?_⟩
  rwa [Member.accepts, h.claims hm, Claim.accepts] at haccepts

/-- A view that owns a path is the member with the scheme of that path, and owns every path with its scheme. -/
theorem Layered.view_scheme (h : Layered world registry found) {scheme : Text} {claim : Claim}
    {label : Option Text} {behind : Nat} {readOnly : Bool}
    (hp : world.provider? (world.owner registry path) = some ⟨scheme, claim, label, .view behind readOnly⟩) :
    Scheme.isValid scheme = true ∧ behind = registry ∧ Scheme.has path scheme = true ∧
      ∀ rest, world.owner registry (Scheme.join scheme rest) = world.owner registry path := by
  obtain ⟨hbehind, hhas, member, hm, rfl, hid, -⟩ := h.stacked.member_of_view hp
  have hv := h.keyed.valid hm
  refine ⟨hv, hbehind, hhas, fun rest => ?_⟩
  rw [h.owner_of_has hm (Scheme.has_join (Scheme.ne_nil_of_isValid hv) rest), hid]

/-- **Every path leads somewhere**: each view takes its scheme off, so the rest is shorter. -/
theorem Layered.leads (h : Layered world registry found) (path : Text) :
    ∃ chain id inner, Leads world registry path chain id inner :=
  h.stacked.leads path

/-! ### Handing on -/

/-- How often a request may be handed on does not matter, as long as it is often enough. -/
theorem Leads.outcome_within_eq (h : Leads world registry path chain id inner) {limit limit' : Nat}
    (hl : chain.length < limit) (hl' : chain.length < limit') (given given' : Given) {request : Request}
    (hpath : request.path = path) :
    (performWithin limit given (world.owner registry path) request).outcome world =
      (performWithin limit' given' (world.owner registry path) request).outcome world := by
  induction h generalizing limit limit' given given' request with
  | base hb =>
    rw [List.length_nil] at hl hl'
    obtain ⟨limit, rfl⟩ := Nat.exists_eq_succ_of_ne_zero (Nat.ne_of_gt hl)
    obtain ⟨limit', rfl⟩ := Nat.exists_eq_succ_of_ne_zero (Nat.ne_of_gt hl')
    rw [outcome_performWithin_base hb, outcome_performWithin_base hb]
  | @view path scheme inner claim label readOnly chain id hp _ ih =>
    rw [List.length_cons] at hl hl'
    obtain ⟨limit, rfl⟩ : ∃ n, limit = n + 1 := ⟨limit - 1, by omega⟩
    obtain ⟨limit', rfl⟩ : ∃ n, limit' = n + 1 := ⟨limit' - 1, by omega⟩
    -- behind the view both requests are handed on often enough
    have hbehind : ∀ behind : Request, behind.path = Scheme.strip request.path scheme →
        (performWithin limit .all (world.owner registry behind.path) behind).outcome world =
          (performWithin limit' .all (world.owner registry behind.path) behind).outcome world := by
      intro behind hb
      rw [hpath] at hb
      rw [hb]
      exact ih (by omega) (by omega) .all .all hb
    rw [outcome_performWithin_view hp, outcome_performWithin_view hp]
    cases readOnly with
    | true => exact View.guarded_congr hbehind
    | false => exact View.forward_congr hbehind

/-- What a view comes to in the world. -/
theorem served_view {scheme : Text} {claim : Claim} {label : Option Text} {readOnly : Bool}
    (hp : world.provider? id = some ⟨scheme, claim, label, .view registry readOnly⟩) (limit : Nat)
    (given : Given) (request : Request) :
    View.Served readOnly scheme (world.owner registry) (performWithin limit .all) request world
      ((View.result (performWithin (limit + 1) given) id request).outcome world) := by
  have hserved : View.Served readOnly scheme (world.owner registry) (performWithin limit .all) request world
      ((Result.ofReply request <$> View.view readOnly scheme (world.owner registry)
        (performWithin limit .all) request).outcome world) :=
    View.served_view readOnly request world
  rw [Call.outcome_map] at hserved
  rw [View.result, Call.outcome_map, outcome_performWithin_view hp]
  exact hserved

/-! ### What requests leave as it is -/

/-- What stands behind a provider, without what it holds. -/
def bare : Backing → Backing
  | .memory drive => .memory ⟨drive.scheme, [], []⟩
  | .scripted _ => .scripted ⟨[], []⟩
  | backing => backing

/-- The registries and the providers of a world, without what the providers hold. -/
def outline (world : World) : List Registry × List Provider :=
  (world.registries, world.providers.map fun provider => { provider with backing := bare provider.backing })

theorem outline_setBacking {provider : Provider} {backing : Backing}
    (hp : world.provider? id = some provider) (hb : bare backing = bare provider.backing) :
    (setBacking id backing world).outline = world.outline := by
  rw [provider?] at hp
  refine Prod.ext rfl (List.ext_getElem? fun other => ?_)
  simp only [outline, setBacking, List.getElem?_map, List.getElem?_modify]
  by_cases he : id = other
  · subst he
    rw [hp]
    simp [hb]
  · simp [he]

theorem outline_onScript {provider : Provider} {script : Script} (hp : world.provider? id = some provider)
    (hb : provider.backing = .scripted script) (given : Given) (request : Request) :
    ((onScript id script given request).outcome world).2.outline = world.outline := by
  have hset : ∀ script' : Script, (setBacking id (.scripted script') world).outline = world.outline :=
    fun script' => outline_setBacking hp (by rw [hb]; rfl)
  rw [onScript]
  rcases script.respond request with ⟨_ | reply, script'⟩ <;> exact hset script'

theorem outline_performWithin (limit : Nat) (given : Given) (id : Nat) (request : Request)
    (world : World) :
    ((performWithin limit given id request).outcome world).2.outline = world.outline := by
  induction limit generalizing given id request world with
  | zero => rfl
  | succ limit ih =>
    cases hp : world.provider? id with
    | none =>
      rw [performWithin, Call.outcome_bind, Call.outcome_get]
      simp only [hp]
      rfl
    | some provider =>
      obtain ⟨scheme, claim, label, backing⟩ := provider
      cases backing with
      | view behind readOnly =>
        -- what is left is left by the request behind the view, if there is one
        have hstate := (served_view hp limit given request).state
        rw [View.result, Call.outcome_map] at hstate
        rcases hstate with hsame | ⟨behind, -, -, hleft⟩
        · exact congrArg outline hsame
        · exact (congrArg outline hleft).trans (ih _ _ _ _)
      | disk =>
        rw [performWithin, Call.outcome_bind, Call.outcome_get]
        simp only [hp, Call.outcome_map]
        rfl
      | memory drive =>
        rw [performWithin, Call.outcome_bind, Call.outcome_get]
        simp only [hp, Call.outcome_map]
        rw [outcome_onDrive]
        have hscheme := (Drive.later_perform (millis world.clock) request (drive, world.tokens)).scheme
        refine outline_setBacking hp ?_
        rw [bare, hscheme]
        rfl
      | scripted script =>
        rw [performWithin, Call.outcome_bind, Call.outcome_get]
        simp only [hp]
        exact outline_onScript hp rfl given request

/-- **Requests leave the outline of the world alone**: they change what providers hold, not what they are. -/
theorem outline_perform (registry : Nat) (request : Request) (world : World) :
    ((perform registry request).outcome world).2.outline = world.outline := by
  rw [perform, Call.outcome_bind, Call.outcome_get]
  simp only
  cases world.mismatch? registry request with
  | some failure => rfl
  | none =>
    rw [performAt, Call.outcome_bind, Call.outcome_get]
    exact outline_performWithin _ _ _ _ world

/-- Requests to handles leave the outline alone too. -/
theorem outline_onHandle (handle : Handle) (request : StreamRequest) (world : World) :
    ((onHandle handle request).outcome world).2.outline = world.outline := by
  cases handle with
  | disk index => rfl
  | memory id index =>
    cases hd : world.drive? id with
    | none =>
      rw [onHandle, Call.outcome_bind, Call.outcome_get]
      simp only [hd]
      rfl
    | some drive =>
      obtain ⟨scheme, claim, label, hp⟩ := drive?_eq_some_iff.mp hd
      rw [outcome_onHandle_memory hd]
      -- a drive never changes its scheme, which is all the outline keeps of it
      have hscheme := (Drive.later_onFile (millis world.clock) index request drive).scheme
      refine outline_setBacking hp ?_
      rw [bare, hscheme]
      rfl
  | scripted index =>
    rw [onHandle, Call.outcome_bind, Call.outcome_get]
    simp only
    cases world.streams[index]? <;> rfl

/-- Where the outlines agree, a provider has its like. -/
theorem provider?_of_outline (ho : world'.outline = world.outline) {provider : Provider}
    (hp : world.provider? id = some provider) :
    ∃ backing', world'.provider? id = some { provider with backing := backing' } ∧
      bare backing' = bare provider.backing := by
  have hid := congrArg (fun outline : List Registry × List Provider => outline.2[id]?) ho
  simp only [outline, List.getElem?_map] at hid
  rw [provider?] at hp
  rw [hp, Option.map_some, Option.map_eq_some_iff] at hid
  obtain ⟨⟨scheme', claim', label', backing'⟩, hp', hsame⟩ := hid
  rw [Provider.mk.injEq] at hsame
  obtain ⟨rfl, rfl, rfl, hbacking⟩ := hsame
  exact ⟨backing', hp', hbacking⟩

theorem eq_of_bare_view {backing : Backing} {readOnly : Bool}
    (h : bare backing = .view registry readOnly) : backing = .view registry readOnly := by
  cases backing <;> simp_all [bare]

theorem eq_of_bare_disk {backing : Backing} (h : bare backing = .disk) : backing = .disk := by
  cases backing <;> simp_all [bare]

theorem exists_of_bare_memory {backing : Backing} {drive : Drive}
    (h : bare backing = .memory ⟨drive.scheme, [], []⟩) :
    ∃ drive', backing = .memory drive' ∧ drive'.scheme = drive.scheme := by
  cases backing with
  | memory drive' =>
    rw [bare, Backing.memory.injEq, Drive.mk.injEq] at h
    exact ⟨drive', rfl, h.1⟩
  | _ => simp [bare] at h

theorem IsDisk.of_outline (h : world.IsDisk id) (ho : world'.outline = world.outline) :
    world'.IsDisk id := by
  obtain ⟨scheme, claim, label, hp⟩ := h
  obtain ⟨backing', hp', hbacking⟩ := provider?_of_outline ho hp
  obtain rfl := eq_of_bare_disk hbacking
  exact ⟨scheme, claim, label, hp'⟩

/-- Layers stay layers as long as the outline of the world stays the same. -/
theorem Layered.of_outline (h : Layered world registry found) (ho : world'.outline = world.outline) :
    Layered world' registry found where
  here := by
    have hregistries : world'.registries = world.registries := congrArg Prod.fst ho
    rw [hregistries, h.here]
  keyed := h.keyed
  claims := h.claims
  layer {member} hm := by
    cases h.layer hm with
    | @memory label drive hp hscheme =>
      obtain ⟨backing', hp', hbacking⟩ := provider?_of_outline ho hp
      obtain ⟨drive', rfl, hdrive⟩ := exists_of_bare_memory hbacking
      exact .memory hp' (hdrive.trans hscheme)
    | @view label readOnly hp =>
      obtain ⟨backing', hp', hbacking⟩ := provider?_of_outline ho hp
      obtain rfl := eq_of_bare_view hbacking
      exact .view hp'
  fallback := h.fallback.of_outline ho

/-! ### A layered world -/

/-- A drive, a read-only view and a plain view, over a disk. -/
def viewedRegistry : Registry :=
  ⟨[⟨1, "mem".toList, .ownScheme⟩, ⟨2, "ro".toList, .ownScheme⟩, ⟨3, "via".toList, .ownScheme⟩],
    ⟨0, Disk.scheme, .ownSchemeOrNone⟩⟩

/-- A world with that registry, and with one file in the drive. -/
def viewedWorld : World :=
  let drive : Drive := ⟨"mem".toList, [([], .newDirectory 0), ([['a']], .newFile 0)], []⟩
  { fresh [] 0 (.counting []) with
    providers := [⟨Disk.scheme, .ownSchemeOrNone, none, .disk⟩,
      ⟨"mem".toList, .ownScheme, none, .memory drive⟩,
      ⟨"ro".toList, .ownScheme, none, .view 0 true⟩,
      ⟨"via".toList, .ownScheme, none, .view 0 false⟩]
    registries := [viewedRegistry] }

theorem layered_viewedWorld : Layered viewedWorld 0 viewedRegistry where
  here := rfl
  keyed := by
    refine ⟨fun {member} hm => ?_, by decide⟩
    simp only [viewedRegistry, List.mem_cons, List.not_mem_nil, or_false] at hm
    rcases hm with rfl | rfl | rfl <;> decide
  claims {member} hm := by
    simp only [viewedRegistry, List.mem_cons, List.not_mem_nil, or_false] at hm
    rcases hm with rfl | rfl | rfl <;> rfl
  layer {member} hm := by
    simp only [viewedRegistry, List.mem_cons, List.not_mem_nil, or_false] at hm
    rcases hm with rfl | rfl | rfl
    · exact .memory rfl rfl
    · exact .view rfl
    · exact .view rfl
  fallback := ⟨_, _, _, rfl⟩

end FileRouter.World
