import FileRouter.Proofs.Agreement
import FileRouter.Proofs.Call
import FileRouter.Proofs.Disk.Canonical
import FileRouter.Proofs.Store.Copy
import FileRouter.Proofs.World.Layers
/-!
Requests through a plain view.

A path with the scheme of a plain view in front is served by the owner of the path itself, so a request for such
paths does what it does for the paths, and its result has the scheme in front of every path
(`PlainView.outcome_ask`). Only moves between two owners are refused at another place (`PlainView.agreeAt_ask`).
-/

namespace FileRouter.World

open Call

variable {world world' : World} {registry : Nat} {found : Registry} {scheme path : Text}

/-- A scheme under which a registry has a plain view on itself. -/
def PlainView (world : World) (registry : Nat) (found : Registry) (scheme : Text) : Prop :=
  ∃ member ∈ found.members, member.scheme = scheme ∧ ∃ label,
    world.provider? member.id = some ⟨scheme, .ownScheme, label, .view registry false⟩

/-- With a scheme in front of a path, a request for it may be handed on once more. -/
theorem Leads.length_lt_handOverLimit_join {chain : List (Text × Bool)} {id : Nat} {inner : Text}
    (h : Leads world registry path chain id inner) (scheme : Text) :
    chain.length + 1 < world.handOverLimit (Scheme.join scheme path) := by
  have hle := h.length_le
  have hlong : path.length + 2 ≤ (Scheme.join scheme path).length + 1 := by
    rw [Scheme.join, List.length_append, List.length_cons]
    omega
  calc chain.length + 1 < path.length + 2 := by omega
    _ ≤ (Scheme.join scheme path).length + 1 := hlong
    _ ≤ world.handOverLimit (Scheme.join scheme path) := Nat.le_mul_of_pos_right _ (Nat.succ_pos _)

namespace PlainView

theorem of_outline (h : PlainView world registry found scheme) (ho : world'.outline = world.outline) :
    PlainView world' registry found scheme := by
  obtain ⟨member, hm, hscheme, label, hp⟩ := h
  obtain ⟨backing', hp', hbacking⟩ := provider?_of_outline ho hp
  obtain rfl := eq_of_bare_view hbacking
  exact ⟨member, hm, hscheme, label, hp'⟩

section Requests

variable (hv : PlainView world registry found scheme) (hl : Layered world registry found)
include hv hl

theorem isValid : Scheme.isValid scheme = true := by
  obtain ⟨member, hm, rfl, -⟩ := hv
  exact hl.keyed.valid hm

/-- The view owns every path with its scheme. -/
theorem owner_join : ∃ label, ∀ path,
    world.provider? (world.owner registry (Scheme.join scheme path)) =
      some ⟨scheme, .ownScheme, label, .view registry false⟩ := by
  obtain ⟨member, hm, rfl, label, hp⟩ := hv
  refine ⟨label, fun path => ?_⟩
  rw [hl.owner_of_has hm (Scheme.has_join (Scheme.ne_nil_of_isValid (hl.keyed.valid hm)) path), hp]

theorem owner_eq (path other : Text) :
    world.owner registry (Scheme.join scheme path) = world.owner registry (Scheme.join scheme other) := by
  obtain ⟨member, hm, rfl, -⟩ := hv
  have hne := Scheme.ne_nil_of_isValid (hl.keyed.valid hm)
  rw [hl.owner_of_has hm (Scheme.has_join hne path), hl.owner_of_has hm (Scheme.has_join hne other)]

/-- A view takes off again what stands in front of the paths. -/
theorem mapPaths_strip (request : Request) :
    (request.mapPaths (Scheme.join scheme)).mapPaths (Scheme.strip · scheme) = request := by
  rw [Request.mapPaths_mapPaths]
  exact Request.mapPaths_eq_self fun path => Scheme.strip_join (Scheme.ne_nil_of_isValid (hv.isValid hl)) path

/-- A view refuses a move where the registry would. -/
theorem mismatch?_join (request : Request) :
    View.mismatch? scheme (world.owner registry) (request.mapPaths (Scheme.join scheme)) = none ↔
      world.mismatch? registry request = none := by
  have hne := Scheme.ne_nil_of_isValid (hv.isValid hl)
  cases request with
  | move old new replace =>
    simp only [Request.mapPaths, View.mismatch?, mismatch?, Scheme.strip_join hne]
    split_ifs <;> simp
  | _ => exact Iff.rfl

/-- The registry lets every move between paths of the view pass. -/
theorem not_mismatch_join (request : Request) :
    world.mismatch? registry (request.mapPaths (Scheme.join scheme)) = none := by
  cases request with
  | move old new replace =>
    rw [Request.mapPaths, mismatch?, if_neg (not_not_intro (hv.owner_eq hl new old))]
  | _ => rfl

/-- What a view comes to for paths with its scheme. -/
theorem outcome_result (request : Request) :
    (Result.ofReply (request.mapPaths (Scheme.join scheme)) <$>
        perform registry (request.mapPaths (Scheme.join scheme))).outcome world =
      match View.mismatch? scheme (world.owner registry) (request.mapPaths (Scheme.join scheme)) with
      | some failure => (.error failure, world)
      | none =>
        let out := (Result.ofReply request <$>
          performWithin (world.handOverLimit request.path) .all (world.owner registry request.path)
            request).outcome world
        (out.1.map (Result.mapPaths (Scheme.join scheme)), out.2) := by
  have hne := Scheme.ne_nil_of_isValid (hv.isValid hl)
  obtain ⟨label, hview⟩ := hv.owner_join hl
  have hpath := Request.path_mapPaths (Scheme.join scheme) request
  obtain ⟨chain, id, inner, hleads⟩ := hl.leads request.path
  have hlimit := hleads.length_lt_handOverLimit_join scheme
  obtain ⟨limit, hsucc⟩ := exists_handOverLimit world (Scheme.join scheme request.path)
  -- The limits differ on the two sides, but both are beyond the length of the chain.
  have hsame : (performWithin limit .all (world.owner registry request.path) request).outcome world =
      (performWithin (world.handOverLimit request.path) .all (world.owner registry request.path)
        request).outcome world :=
    hleads.outcome_within_eq (by omega) hleads.length_lt_handOverLimit .all .all rfl
  have hview' := hview request.path
  rw [← hpath] at hview' hsucc
  rw [Call.outcome_map, outcome_perform_owner (hv.not_mismatch_join hl request), hsucc,
    outcome_performWithin_view hview',
    if_neg (by simp), ← Call.outcome_map, View.outcome_forward, hv.mapPaths_strip hl, hpath,
    Scheme.strip_join hne]
  cases View.mismatch? scheme (world.owner registry) (request.mapPaths (Scheme.join scheme)) with
  | some failure => rfl
  | none => rw [View.result, Call.outcome_map, Call.outcome_map, hsame]

/-- **A plain view is transparent** to a request that the registry hands on: the same happens, and the result has
the scheme in front of every path. -/
theorem outcome_ask {request : Request} (hm : world.mismatch? registry request = none) :
    (Result.ofReply (request.mapPaths (Scheme.join scheme)) <$>
        perform registry (request.mapPaths (Scheme.join scheme))).outcome world =
      let out := (Result.ofReply request <$> perform registry request).outcome world
      (out.1.map (Result.mapPaths (Scheme.join scheme)), out.2) := by
  rw [hv.outcome_result hl, (hv.mismatch?_join hl request).mpr hm, Call.outcome_map, Call.outcome_map,
    outcome_perform_owner hm]

/-- The answer to a request is known by its result. -/
theorem outcome_perform (request : Request) (hm : world.mismatch? registry request = none)
    (change : request.Reply Handle → (request.mapPaths (Scheme.join scheme)).Reply Handle)
    (hchange : ∀ reply, Result.ofReply (request.mapPaths (Scheme.join scheme)) (change reply) =
      (Result.ofReply request reply).mapPaths (Scheme.join scheme)) :
    (perform registry (request.mapPaths (Scheme.join scheme))).outcome world =
      (((perform registry request).outcome world).1.map change, ((perform registry request).outcome world).2) := by
  have hchanged : (Result.ofReply (request.mapPaths (Scheme.join scheme)) <$> change <$>
      perform registry request).outcome world =
      (((Result.ofReply request <$> perform registry request).outcome world).1.map
          (Result.mapPaths (Scheme.join scheme)),
        ((Result.ofReply request <$> perform registry request).outcome world).2) := by
    rw [Call.outcome_map, Call.outcome_map, Call.outcome_map]
    refine Prod.ext ?_ rfl
    cases ((perform registry request).outcome world).1 with
    | error failure => rfl
    | ok reply => exact congrArg Except.ok (hchange reply)
  rw [← Call.outcome_map]
  exact View.outcome_eq_of_result ((hv.outcome_ask hl hm).trans hchanged.symm)

theorem outcome_canonicalPath {answer : Except Failure Text} {path : Text}
    (h : ((store registry).canonicalPath path).outcome world = (answer, world)) :
    ((store registry).canonicalPath (Scheme.join scheme path)).outcome world =
      (answer.map (Scheme.join scheme), world) := by
  have hview := hv.outcome_perform hl (.canonicalPath path) rfl (Scheme.join scheme) fun _ => rfl
  rw [show (perform registry (.canonicalPath path)).outcome world = (answer, world) from h] at hview
  exact hview

/-- **Through a plain view** a request fails for the same reason, or has the result with the scheme in front of
every path, and leaves the same world. -/
theorem agreeAt_ask (request : Request) :
    AgreeAt (fun result result' => result' = result.mapPaths (Scheme.join scheme))
      (Result.ofReply request <$> perform registry request)
      (Result.ofReply (request.mapPaths (Scheme.join scheme)) <$>
        perform registry (request.mapPaths (Scheme.join scheme))) world := by
  rw [AgreeAt]
  cases hm : world.mismatch? registry request with
  | none =>
    rw [hv.outcome_ask hl hm]
    refine ⟨alike_map (Result.mapPaths (Scheme.join scheme)) (fun value => ?_) _, rfl⟩
    rfl
  | some failure =>
    -- the move is refused by the registry in the one case and by the view in the other
    have hrefused : ((Result.ofReply request <$> perform registry request).outcome world) =
        (.error failure, world) := by
      rw [Call.outcome_map, perform, Call.outcome_bind, Call.outcome_get]
      simp only [hm]
      rfl
    rw [hrefused, hv.outcome_result hl]
    cases hm' : View.mismatch? scheme (world.owner registry) (request.mapPaths (Scheme.join scheme)) with
    | none => exact absurd ((hv.mismatch?_join hl request).mp hm') (by simp [hm])
    | some failure' =>
      refine ⟨.error ?_, rfl⟩
      cases request with
      | move old new replace =>
        rw [mismatch?] at hm
        rw [Request.mapPaths, View.mismatch?] at hm'
        split_ifs at hm hm'
        obtain rfl := Option.some.inj hm
        obtain rfl := Option.some.inj hm'
        rfl
      | _ => simp [mismatch?] at hm

end Requests

end PlainView

/-! ### Canonical paths -/

/-- What is left of a path behind its views is a part of it. -/
theorem Leads.mem_of_mem_inner {chain : List (Text × Bool)} {id : Nat} {inner : Text} {c : Char}
    (h : Leads world registry path chain id inner) (hc : c ∈ inner) : c ∈ path := by
  induction h with
  | base _ => exact hc
  | view _ _ ih => exact Disk.mem_of_mem_strip (ih hc)

section CanonicalPaths

variable (hl : Layered world registry found)
include hl

/-- A path with the scheme of a member goes to that member, and one that begins with a slash to the disk. -/
theorem Layered.owner_of_slash (hp : path.head? = some '/') : world.owner registry path = found.fallback.id := by
  rcases hl.owner_cases path with ⟨member, hm, -, hhas⟩ | howner
  · -- a scheme begins with a letter
    obtain ⟨hne, rest, rfl⟩ := Scheme.has_iff.mp hhas
    exfalso
    cases hs : member.scheme with
    | nil => exact hne hs
    | cons c tail =>
      rw [hs, Scheme.join, List.cons_append, List.head?_cons, Option.some.injEq] at hp
      refine Scheme.slash_notMem_of_isValid (hl.keyed.valid hm) ?_
      rw [hs, hp]
      exact List.mem_cons_self
  · exact howner

/-- **A canonical path belongs to the owner of the path.** -/
theorem Layered.owner_canonical {canonical : Text}
    (h : ((World.perform registry (.canonicalPath path)).outcome world).1 = .ok canonical) :
    world.owner registry canonical = world.owner registry path := by
  rcases hl.owner_cases path with ⟨member, hm, howner, hhas⟩ | howner
  · -- whoever owns a path by its scheme puts that scheme in front of the canonical path
    have hjoined : Scheme.has canonical member.scheme = true := by
      have hne := Scheme.ne_nil_of_isValid (hl.keyed.valid hm)
      cases hl.layer hm with
      | @memory label drive hp hscheme =>
        have hd : world.drive? (world.owner registry path) = some drive := by
          rw [howner]
          exact drive?_eq_some_iff.mpr ⟨_, _, _, hp⟩
        have hbase : world.IsBase (world.owner registry path) := by
          rw [howner]
          exact ⟨_, hp, Or.inr ⟨drive, rfl⟩⟩
        rw [(Leads.base hbase).outcome_canonicalPath, outcome_direct_memory hd] at h
        obtain rfl : drive.pathOf (drive.keyOf path) = canonical := Except.ok.inj h
        rw [Drive.pathOf, hscheme]
        exact Scheme.has_join hne _
      | @view label readOnly hp =>
        rw [← howner] at hp
        obtain ⟨chain, id, inner, hleads⟩ := hl.leads (Scheme.strip path member.scheme)
        rw [(Leads.view hp hleads).outcome_canonicalPath] at h
        obtain ⟨value, -, rfl⟩ := exists_of_map_eq_ok h
        exact Scheme.has_join hne _
    rw [hl.owner_of_has hm hjoined, howner]
  · have hdisk : world.IsDisk (world.owner registry path) := howner ▸ hl.fallback
    rw [(Leads.base hdisk.isBase).outcome_canonicalPath, outcome_direct_disk hdisk] at h
    obtain ⟨value, hvalue, rfl⟩ := exists_of_map_eq_ok h
    obtain ⟨native, hnative, rfl⟩ := exists_of_map_eq_ok hvalue
    -- what the disk makes is absolute, so no scheme claims it
    have hcanonical : native = world.disk.fs.canonical (Disk.nativePath world.disk.fs path) :=
      Disk.eq_canonical hnative
    rw [howner, hcanonical]
    exact hl.owner_of_slash (Disk.head?_canonical _ _)

/-- Where the disk is inhabited, every path without a NUL has a canonical path. -/
theorem Layered.exists_canonical (hdisk : Disk.Inhabited world.disk.fs) (hp : '\x00' ∉ path) :
    ∃ canonical, (World.perform registry (.canonicalPath path)).outcome world = (.ok canonical, world) := by
  obtain ⟨chain, id, inner, hleads⟩ := hl.leads path
  -- stripping schemes brings in no new character
  have hinner : '\x00' ∉ inner := fun hm => hp (hleads.mem_of_mem_inner hm)
  have hdirect : ∃ canonical, (direct id (.canonicalPath inner)).outcome world = (.ok canonical, world) := by
    refine (Exists.imp fun canonical hc => Prod.ext hc (canonicalPath_unchanged hleads.isBase inner)) ?_
    rcases hleads.isBase.cases with ⟨drive, hd⟩ | ⟨-, hd⟩
    · rw [outcome_direct_memory hd]
      exact ⟨_, rfl⟩
    · rw [outcome_direct_disk hd]
      show ∃ canonical, ((Disk.canonicalPath inner).outcome world.disk).1.map _ = .ok canonical
      rw [Disk.outcome_canonicalPath_of_inhabited hdisk hinner]
      exact ⟨_, rfl⟩
  obtain ⟨canonical, hcanonical⟩ := hdirect
  refine ⟨wrapped chain canonical, ?_⟩
  rw [hleads.outcome_canonicalPath, hcanonical]
  rfl

/-- Paths of different owners have different canonical paths. -/
theorem Layered.exists_canonical_ne {source target : Text} (hdisk : Disk.Inhabited world.disk.fs)
    (hs : '\x00' ∉ source) (ht : '\x00' ∉ target)
    (hne : world.owner registry source ≠ world.owner registry target) :
    ∃ canonical other, ((store registry).canonicalPath source).outcome world = (.ok canonical, world) ∧
      ((store registry).canonicalPath target).outcome world = (.ok other, world) ∧ canonical ≠ other := by
  obtain ⟨canonical, hc⟩ := hl.exists_canonical hdisk hs
  obtain ⟨other, ho⟩ := hl.exists_canonical hdisk ht
  refine ⟨canonical, other, hc, ho, ?_⟩
  rintro rfl
  have hsource := hl.owner_canonical (congrArg Prod.fst hc)
  have htarget := hl.owner_canonical (congrArg Prod.fst ho)
  exact hne (hsource.symm.trans htarget)

end CanonicalPaths

end FileRouter.World
