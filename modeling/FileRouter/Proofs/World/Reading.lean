import FileRouter.Proofs.Call
import FileRouter.Proofs.Disk.Reading
import FileRouter.Proofs.Memory.Reading
import FileRouter.Proofs.World.Layers
/-!
Reading through layers, and paths behind a read-only view.

A path is `Guarded` when a read-only view is on its way. Whatever is asked for such a path leaves every tree and
the disk `Undisturbed`, and brings no handle that could write (`Guarded.quiet_perform`). The paths in the answer
are guarded again: a view puts its scheme in front of what comes from behind it, so what comes out leads through
the same view (`Layered.guarded_leadsTo`).
-/

namespace FileRouter.World

variable {world world' world'' : World} {registry id : Nat} {found : Registry} {path inner : Text}
  {chain : List (Text × Bool)}

/-- The handle was opened for reading and has nothing to store. -/
def OnlyReads (world : World) : Handle → Prop
  | .memory id index => ∃ drive, world.drive? id = some drive ∧ drive.OnlyReads index
  | .disk index => world.disk.OnlyReads index
  | .scripted _ => False

/-- What reading leaves of a world: its layers, the trees of its drives, and its disk. -/
structure Undisturbed (world world' : World) : Prop where
  outline : world'.outline = world.outline
  drive : ∀ {id : Nat} {drive : Drive}, world.drive? id = some drive →
    ∃ drive', world'.drive? id = some drive' ∧ drive.Undisturbed drive'
  disk : world.disk.Undisturbed world'.disk

theorem Undisturbed.refl (world : World) : Undisturbed world world :=
  ⟨rfl, fun {_ drive} h => ⟨drive, h, .refl drive⟩, .refl world.disk⟩

theorem Undisturbed.trans (h : Undisturbed world world') (h' : Undisturbed world' world'') :
    Undisturbed world world'' := by
  refine ⟨h'.outline.trans h.outline, fun {id drive} hd => ?_, h.disk.trans h'.disk⟩
  obtain ⟨drive', hd', hsame⟩ := h.drive hd
  obtain ⟨drive'', hd'', hsame'⟩ := h'.drive hd'
  exact ⟨drive'', hd'', hsame.trans hsame'⟩

theorem Undisturbed.onlyReads (h : Undisturbed world world') {handle : Handle}
    (hr : world.OnlyReads handle) : world'.OnlyReads handle := by
  cases handle with
  | memory id index =>
    obtain ⟨drive, hd, hreads⟩ := hr
    obtain ⟨drive', hd', hsame⟩ := h.drive hd
    exact ⟨drive', hd', hsame.files hreads⟩
  | disk index => exact h.disk.files hr
  | scripted index => exact hr

/-- The tree of a memory provider is what it was. -/
theorem Undisturbed.tree (h : Undisturbed world world') (id : Nat) :
    (world'.drive? id).map Drive.tree = (world.drive? id).map Drive.tree := by
  cases hd : world.drive? id with
  | some drive =>
    obtain ⟨drive', hd', hsame⟩ := h.drive hd
    rw [hd', Option.map_some, Option.map_some, hsame.tree]
  | none =>
    -- a drive behind the provider now would have been one before
    cases hd' : world'.drive? id with
    | none => rfl
    | some drive' =>
      obtain ⟨scheme, claim, label, hp'⟩ := drive?_eq_some_iff.mp hd'
      obtain ⟨backing, hp, hbacking⟩ := provider?_of_outline h.outline.symm hp'
      obtain ⟨drive, rfl, -⟩ := exists_of_bare_memory hbacking
      rw [drive?_eq_some_iff.mpr ⟨scheme, claim, label, hp⟩] at hd
      simp at hd

/-! ### Where paths lead afterwards -/

theorem sameWays_of_outline (ho : world'.outline = world.outline) : SameWays world world' where
  owner registry path := by
    -- the owner is looked up in the registry, and without one it is the number after the last provider
    have hregistries : world'.registries = world.registries := congrArg Prod.fst ho
    have hlength := congrArg (fun outline : List Registry × List Provider => outline.2.length) ho
    simp only [World.outline, List.length_map] at hlength
    rw [owner, owner, owner?, owner?, hregistries, hlength]
  view hp := by
    obtain ⟨backing, hp', hbacking⟩ := provider?_of_outline ho hp
    obtain rfl := eq_of_bare_view hbacking
    exact hp'
  base {id} hb := by
    obtain ⟨⟨scheme, claim, label, backing⟩, hp, rfl | ⟨drive, rfl⟩⟩ := hb
    · obtain ⟨backing', hp', hbacking⟩ := provider?_of_outline ho hp
      obtain rfl := eq_of_bare_disk hbacking
      exact ⟨_, hp', Or.inl rfl⟩
    · obtain ⟨backing', hp', hbacking⟩ := provider?_of_outline ho hp
      obtain ⟨drive', rfl, -⟩ := exists_of_bare_memory hbacking
      exact ⟨_, hp', Or.inr ⟨drive', rfl⟩⟩

/-- A read-only view is on the way of a path. -/
def Guarded (world : World) (registry : Nat) (path : Text) : Prop :=
  ∃ chain id inner, Leads world registry path chain id inner ∧ ∃ scheme, (scheme, true) ∈ chain

theorem Guarded.of_outline (h : Guarded world registry path) (ho : world'.outline = world.outline) :
    Guarded world' registry path := by
  obtain ⟨chain, id, inner, hleads, hread⟩ := h
  exact ⟨chain, id, inner, hleads.of_sameWays (sameWays_of_outline ho), hread⟩

/-! ### Requests -/

/-- What comes of a request that cannot change anything: the world is undisturbed, and a handle can only
read. -/
def Quiet (world : World) (out : Except Failure Result × World) : Prop :=
  Undisturbed world out.2 ∧ ∀ {value : Result} {handle : Handle},
    out.1 = .ok value → value.handle? = some handle → out.2.OnlyReads handle

theorem Quiet.error (failure : Failure) (world : World) : Quiet world (.error failure, world) :=
  ⟨.refl world, fun h => by simp at h⟩

/-- An answer has the handle that its result has. -/
theorem handle?_ofReply {η : Type} (f : η → Handle) (request : Request) (reply : request.Reply η) :
    (Result.ofReply request (request.mapHandle f reply)).handle? = (request.handle? reply).map f := by
  cases request <;> rfl

/-- A handle that comes of a request is one that its answer has. -/
theorem exists_of_handle? {η : Type} {f : η → Handle} {request : Request} {answer : Except Failure (request.Reply η)}
    {value : Result} {handle : Handle}
    (hv : (answer.map (request.mapHandle f)).map (Result.ofReply request) = .ok value)
    (hh : value.handle? = some handle) :
    ∃ reply index, answer = .ok reply ∧ request.handle? reply = some index ∧ f index = handle := by
  cases answer with
  | error failure => simp [Except.map] at hv
  | ok reply =>
    obtain rfl := Except.ok.inj hv
    rw [handle?_ofReply, Option.map_eq_some_iff] at hh
    obtain ⟨index, hindex, rfl⟩ := hh
    exact ⟨reply, index, rfl, hindex, rfl⟩

theorem undisturbed_withDrive {drive drive' : Drive} (hd : world.drive? id = some drive)
    (h : drive.Undisturbed drive') : Undisturbed world (withDrive id drive' world) := by
  obtain ⟨scheme, claim, label, hp⟩ := drive?_eq_some_iff.mp hd
  refine ⟨outline_setBacking hp ?_, fun {other old} ho => ?_, .refl world.disk⟩
  · rw [bare, bare, h.scheme]
  · by_cases he : id = other
    · subst he
      rw [hd] at ho
      obtain rfl := Option.some.inj ho
      exact ⟨drive', drive?_withDrive hd, h⟩
    · refine ⟨old, ?_, .refl old⟩
      -- only the one provider is replaced
      have hsame : (withDrive id drive' world).provider? other = world.provider? other := by
        simp [provider?, withDrive, setBacking, he]
      rw [drive?, hsame]
      exact ho

theorem quiet_memory {drive : Drive} (hd : world.drive? id = some drive) {request : Request}
    (hreads : request.Reads) (limit : Nat) (given : Given) :
    Quiet world ((View.result (performWithin (limit + 1) given) id request).outcome world) := by
  obtain ⟨hsame, htokens, hhandle⟩ :=
    Drive.undisturbed_perform (millis world.clock) hreads (drive, world.tokens)
  rw [View.result, Call.outcome_map, outcome_performWithin_memory limit given request hd]
  generalize (Drive.perform (millis world.clock) request).outcome (drive, world.tokens) = out at *
  obtain ⟨answer, drive', tokens⟩ := out
  obtain rfl : tokens = world.tokens := htokens
  refine ⟨undisturbed_withDrive hd hsame, fun {value handle} hv hh => ?_⟩
  obtain ⟨reply, index, rfl, hindex, rfl⟩ := exists_of_handle? hv hh
  exact ⟨drive', drive?_withDrive hd, hhandle rfl hindex⟩

theorem quiet_disk (hd : world.IsDisk id) {request : Request} (hreads : request.Reads) (limit : Nat)
    (given : Given) :
    Quiet world ((View.result (performWithin (limit + 1) given) id request).outcome world) := by
  obtain ⟨hsame, htokens, hhandle⟩ := Disk.undisturbed_perform hreads (world.disk, world.tokens)
  rw [View.result, Call.outcome_map, outcome_performWithin_base hd.isBase, outcome_direct_disk hd]
  generalize (Disk.perform request).outcome (world.disk, world.tokens) = out at *
  obtain ⟨answer, disk', tokens⟩ := out
  obtain rfl : tokens = world.tokens := htokens
  refine ⟨⟨rfl, fun {_ drive} h => ⟨drive, h, .refl drive⟩, hsame⟩, fun {value handle} hv hh => ?_⟩
  obtain ⟨reply, index, rfl, hindex, rfl⟩ := exists_of_handle? hv hh
  exact hhandle rfl hindex

/-- A request that reads, or that meets a read-only view on its way, cannot change anything. -/
theorem Leads.quiet (h : Leads world registry path chain id inner) {limit : Nat} (given : Given)
    {request : Request} (hpath : request.path = path)
    (hsafe : request.Reads ∨ ∃ scheme, (scheme, true) ∈ chain) :
    Quiet world
      ((View.result (performWithin limit given) (world.owner registry path) request).outcome world) := by
  induction h generalizing limit given request with
  | base hb =>
    have hreads : request.Reads := hsafe.resolve_right (by simp)
    cases limit with
    | zero => exact .error _ world
    | succ limit =>
      rcases hb.cases with ⟨drive, hd⟩ | ⟨-, hd⟩
      · exact quiet_memory hd hreads limit given
      · exact quiet_disk hd hreads limit given
  | @view path scheme inner claim label readOnly chain id hp _ ih =>
    cases limit with
    | zero => exact .error _ world
    | succ limit =>
      have hserved := served_view hp limit given request
      generalize (View.result (performWithin (limit + 1) given) _ request).outcome world = out at hserved ⊢
      cases hserved with
      | alone hnone =>
        refine ⟨.refl world, fun {value handle} hv hh => ?_⟩
        rw [(hnone hv).2] at hh
        simp at hh
      | @asked behind hbehind hreads =>
        rw [hpath] at hbehind
        have hsafe' : behind.Reads ∨ ∃ scheme, (scheme, true) ∈ chain := by
          rcases hsafe with hr | ⟨scheme', hm⟩
          · exact Or.inl (hreads (Or.inr hr))
          · rcases List.mem_cons.mp hm with he | hm
            · exact Or.inl (hreads (Or.inl (Prod.mk.inj he).2.symm))
            · exact Or.inr ⟨scheme', hm⟩
        rw [hbehind]
        obtain ⟨hsame, hhandle⟩ := ih .all hbehind hsafe'
        refine ⟨hsame, fun {value handle} hv hh => ?_⟩
        -- the view changes the paths of a result, not its handle
        obtain ⟨value', hv', rfl⟩ := Call.exists_of_map_eq_ok hv
        rw [Result.handle?_mapPaths] at hh
        exact hhandle hv' hh

/-- A path with the scheme of a view in front leads through that view. -/
theorem Layered.guarded_join (h : Layered world registry found) {scheme : Text} {claim : Claim}
    {label : Option Text} {behind : Nat} {readOnly : Bool}
    (hp : world.provider? (world.owner registry path) = some ⟨scheme, claim, label, .view behind readOnly⟩)
    {rest : Text} (hrest : readOnly = true ∨ Guarded world registry rest) :
    Guarded world registry (Scheme.join scheme rest) := by
  obtain ⟨hv, rfl, -, howner⟩ := h.view_scheme hp
  have hstrip := Scheme.strip_join (Scheme.ne_nil_of_isValid hv) rest
  rw [← howner rest] at hp
  rcases hrest with rfl | ⟨chain, id, inner, hleads, scheme', hm⟩
  · obtain ⟨chain, id, inner, hleads⟩ := h.leads rest
    rw [← hstrip] at hleads
    exact ⟨_, id, inner, .view hp hleads, scheme, List.mem_cons_self⟩
  · rw [← hstrip] at hleads
    exact ⟨_, id, inner, .view hp hleads, scheme', List.mem_cons_of_mem _ hm⟩

/-- **What comes out of a guarded path is guarded**: the paths of every answer lead through the same views. -/
theorem Layered.guarded_leadsTo (hl : Layered world registry found)
    (h : Leads world registry path chain id inner) (hread : ∃ scheme, (scheme, true) ∈ chain) {limit : Nat}
    {given : Given} {request : Request} (hpath : request.path = path) {value : Result}
    (hv : ((View.result (performWithin limit given) (world.owner registry path) request).outcome world).1 =
      .ok value) : ∀ other ∈ value.leadsTo, Guarded world registry other := by
  induction h generalizing limit given request value with
  | base _ => simp at hread
  | @view path scheme inner claim label readOnly chain id hp _ ih =>
    cases limit with
    | zero => simp [View.result, performWithin] at hv
    | succ limit =>
      have hserved := served_view hp limit given request
      generalize (View.result (performWithin (limit + 1) given) _ request).outcome world = out at hserved hv
      cases hserved with
      | alone hnone =>
        rw [(hnone hv).1]
        simp
      | @asked behind hbehind _ =>
        rw [hpath] at hbehind
        rw [hbehind] at hv
        obtain ⟨value', hv', rfl⟩ := Call.exists_of_map_eq_ok hv
        intro other ho
        rw [Result.leadsTo_mapPaths, List.mem_map] at ho
        obtain ⟨rest, hrest, rfl⟩ := ho
        refine hl.guarded_join hp ?_
        cases readOnly with
        | true => exact Or.inl rfl
        | false =>
          have hread' : ∃ scheme, (scheme, true) ∈ chain := by simpa using hread
          exact Or.inr (ih hread' hbehind hv' rest hrest)

/-- **A request for a guarded path** cannot change anything, and what it answers leads to guarded paths only. -/
theorem Guarded.quiet_perform (hl : Layered world registry found) {request : Request}
    (h : Guarded world registry request.path) :
    Quiet world ((Result.ofReply request <$> perform registry request).outcome world) ∧
      ∀ {value : Result}, ((Result.ofReply request <$> perform registry request).outcome world).1 = .ok value →
        ∀ other ∈ value.leadsTo, Guarded world registry other := by
  obtain ⟨chain, id, inner, hleads, hread⟩ := h
  rw [Call.outcome_map]
  cases hm : world.mismatch? registry request with
  | some failure =>
    rw [perform, Call.outcome_bind, Call.outcome_get]
    simp only [hm]
    exact ⟨.error failure world, fun h => by simp [Except.map] at h⟩
  | none =>
    rw [outcome_perform_owner hm, ← Call.outcome_map]
    exact ⟨hleads.quiet .all rfl (Or.inr hread), fun hv => hl.guarded_leadsTo hleads hread rfl hv⟩

/-! ### Handles -/

/-- **Whatever is asked** of a handle that can only read, the world is undisturbed. -/
theorem OnlyReads.onHandle {handle : Handle} (h : world.OnlyReads handle) (request : StreamRequest) :
    Undisturbed world ((onHandle handle request).outcome world).2 := by
  cases handle with
  | memory id index =>
    obtain ⟨drive, hd, hreads⟩ := h
    rw [outcome_onHandle_memory hd]
    exact undisturbed_withDrive hd (Drive.undisturbed_onFile (millis world.clock) hreads request)
  | disk index =>
    rw [outcome_onHandle_disk]
    exact ⟨rfl, fun {_ drive} hd => ⟨drive, hd, .refl drive⟩, Disk.undisturbed_onFile h request⟩
  | scripted index => exact h.elim

end FileRouter.World
