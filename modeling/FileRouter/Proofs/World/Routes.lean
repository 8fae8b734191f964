import FileRouter.Proofs.World.Memory
import Mathlib.Data.List.Perm.Subperm
import Mathlib.Data.List.ProdSigma
/-!
Ways through views.

A provider hands a path on through views, each of which looks at a registry of its own, until one serves what is left
of it (`Routed`). The provider and the path tell what comes next, so there is one such way at most, and none comes to a
provider with the same path twice: a request is always handed on far enough (`Routed.length_lt_handOverLimit`). Opening
a file for reading does at the end of the way what it does there directly; opening one for writing does too, unless a
read-only view is on the way; and a canonical path comes back with the schemes of the way in front.
-/

namespace FileRouter.World

variable {world : World} {registry id base : Nat} {path inner : Text} {chain : List (Text × Bool)}

/-- A provider that serves paths itself: the disk or a drive. -/
def IsBase (world : World) (id : Nat) : Prop :=
  ∃ provider, world.provider? id = some provider ∧
    (provider.backing = .disk ∨ ∃ drive, provider.backing = .memory drive)

/-- A request to a provider that is not to hand it on. -/
def direct (id : Nat) (request : Request) : Call World (request.Reply Handle) :=
  performWithin 1 .all id request

/-- The way on which a provider hands a path on: through views, each with its scheme and whether it is read-only, to a
provider that serves the rest of the path. -/
inductive Routed (world : World) : Nat → Text → List (Text × Bool) → Nat → Text → Prop
  | base {id : Nat} {path : Text} : world.IsBase id → Routed world id path [] id path
  | view {id behind base : Nat} {path scheme inner : Text} {claim : Claim} {label : Option Text} {readOnly : Bool}
      {chain : List (Text × Bool)} :
      world.provider? id = some ⟨scheme, claim, label, .view behind readOnly⟩ →
      Routed world (world.owner behind (Scheme.strip path scheme)) (Scheme.strip path scheme) chain base inner →
      Routed world id path ((scheme, readOnly) :: chain) base inner

/-- A path with the schemes of a way in front. -/
def wrapped (chain : List (Text × Bool)) (path : Text) : Text :=
  chain.foldr (fun view path => Scheme.join view.1 path) path

theorem Routed.isBase (h : Routed world id path chain base inner) : world.IsBase base := by
  induction h with
  | base hb => exact hb
  | view _ _ ih => exact ih

theorem not_isBase_of_view {scheme : Text} {claim : Claim} {label : Option Text} {readOnly : Bool}
    (hp : world.provider? id = some ⟨scheme, claim, label, .view registry readOnly⟩) :
    ¬ world.IsBase id := by
  rintro ⟨provider, hprovider, hbacking⟩
  rw [hp] at hprovider
  obtain rfl := Option.some.inj hprovider
  simp at hbacking

/-- A provider hands a path on in one way only. -/
theorem Routed.unique (h : Routed world id path chain base inner) {chain' : List (Text × Bool)} {base' : Nat}
    {inner' : Text} (h' : Routed world id path chain' base' inner') : chain = chain' ∧ base = base' ∧ inner = inner' := by
  induction h generalizing chain' with
  | base hb =>
    cases h' with
    | base _ => exact ⟨rfl, rfl, rfl⟩
    | view hp _ => exact absurd hb (not_isBase_of_view hp)
  | view hp _ ih =>
    cases h' with
    | base hb => exact absurd hb (not_isBase_of_view hp)
    | view hp' hrest =>
      rw [hp, Option.some.injEq, Provider.mk.injEq, Backing.view.injEq] at hp'
      -- the provider fixes the view, so the first steps are the same
      obtain ⟨rfl, -, -, rfl, rfl⟩ := hp'
      obtain ⟨rfl, rfl, rfl⟩ := ih hrest
      exact ⟨rfl, rfl, rfl⟩

/-! ### How long a way can be -/

/-- What a way passes are different pairs of a provider and the length of what is left of the path: from the same pair
it would go on as before, and never come to an end. -/
theorem Routed.exists_stations (h : Routed world id path chain base inner) :
    ∃ stations : List (Nat × Nat), stations.length = chain.length ∧ stations.Nodup ∧
      ∀ station ∈ stations, station.1 < world.providers.length ∧
        ∃ rest chain', rest <:+ path ∧ rest.length = station.2 ∧ chain'.length ≤ chain.length ∧
          Routed world station.1 rest chain' base inner := by
  induction h with
  | base _ => exact ⟨[], rfl, List.nodup_nil, fun station hm => absurd hm List.not_mem_nil⟩
  | @view id behind base path scheme inner claim label readOnly chain hp hrest ih =>
    obtain ⟨stations, hlength, hnodup, hall⟩ := ih
    have hself := Routed.view hp hrest
    refine ⟨(id, path.length) :: stations, by rw [List.length_cons, hlength, List.length_cons],
      List.nodup_cons.mpr ⟨fun hm => ?_, hnodup⟩, fun station hm => ?_⟩
    -- with as many characters left the path is the same, and the way would go on from there as it did from here
    · obtain ⟨-, rest, chain', hsuffix, hsame, hshort, hagain⟩ := hall _ hm
      obtain rfl : rest = path := (hsuffix.trans (Scheme.strip_suffix path scheme)).eq_of_length hsame
      have hloop := congrArg List.length (hself.unique hagain).1
      rw [List.length_cons] at hloop
      omega
    · rcases List.mem_cons.mp hm with rfl | hm
      · exact ⟨(List.getElem?_eq_some_iff.mp hp).1, path, _, List.suffix_refl path, rfl, Nat.le_refl _, hself⟩
      · obtain ⟨hid, rest, chain', hsuffix, hrestlength, hshort, hrouted⟩ := hall station hm
        exact ⟨hid, rest, chain', hsuffix.trans (Scheme.strip_suffix path scheme), hrestlength, Nat.le_succ_of_le hshort,
          hrouted⟩

theorem Routed.length_lt_handOverLimit (h : Routed world id path chain base inner) :
    chain.length < world.handOverLimit path := by
  obtain ⟨stations, hlength, hnodup, hall⟩ := h.exists_stations
  have hsub : stations ⊆ List.range world.providers.length ×ˢ List.range (path.length + 1) := by
    intro station hm
    obtain ⟨hid, rest, -, hsuffix, hrest, -, -⟩ := hall station hm
    have hle := hsuffix.length_le
    exact List.mem_product.mpr ⟨List.mem_range.mpr hid, List.mem_range.mpr (by omega)⟩
  have hcount := (hnodup.subperm hsub).length_le
  rw [List.length_product, List.length_range, List.length_range, hlength, Nat.mul_comm] at hcount
  rw [handOverLimit, Nat.mul_succ]
  omega

/-! ### Handing on -/

theorem outcome_performWithin_base (hb : world.IsBase id) (limit : Nat) (given : Given)
    (request : Request) :
    (performWithin (limit + 1) given id request).outcome world =
      (direct id request).outcome world := by
  obtain ⟨⟨scheme, claim, label, backing⟩, hp, hbacking⟩ := hb
  rw [direct, performWithin, performWithin, Call.outcome_bind, Call.outcome_bind, Call.outcome_get]
  simp only [hp]
  rcases hbacking with rfl | ⟨drive, rfl⟩ <;> rfl

theorem outcome_performWithin_view {scheme : Text} {claim : Claim} {label : Option Text}
    {readOnly : Bool} (hp : world.provider? id = some ⟨scheme, claim, label, .view registry readOnly⟩)
    (limit : Nat) (given : Given) (request : Request) :
    (performWithin (limit + 1) given id request).outcome world =
      (if readOnly then
          View.guarded scheme (world.owner registry) (fun id request => performWithin limit .all id request)
            request
        else
          View.forward scheme (world.owner registry) (fun id request => performWithin limit .all id request)
            request).outcome world := by
  rw [performWithin, Call.outcome_bind, Call.outcome_get]
  simp only [hp]

/-- **What views hand on in any case** is done by the provider at the end of the way, and each view on the way changes the
answer when it comes back. What is asked depends on the limit, the stated arguments, the provider and the path. -/
theorem Routed.outcome_handedOn {α : Type} (ask : Nat → Given → Nat → Text → Call World α)
    (back : List (Text × Bool) → α → α) (hnil : ∀ answer, back [] answer = answer)
    (hcons : ∀ view chain answer, back (view :: chain) answer = back [view] (back chain answer))
    (hbase : ∀ {limit : Nat} {given : Given} {id : Nat} {path : Text}, world.IsBase id →
      (ask (limit + 1) given id path).outcome world = (ask 1 .all id path).outcome world)
    (hview : ∀ {limit : Nat} {given : Given} {id behind : Nat} {path scheme : Text} {claim : Claim} {label : Option Text}
      {readOnly : Bool}, world.provider? id = some ⟨scheme, claim, label, .view behind readOnly⟩ →
      (ask (limit + 1) given id path).outcome world =
        let out := (ask limit .all (world.owner behind (Scheme.strip path scheme)) (Scheme.strip path scheme)).outcome world
        (out.1.map (back [(scheme, readOnly)]), out.2))
    (h : Routed world id path chain base inner) {limit : Nat} (hl : chain.length < limit) (given : Given) :
    (ask limit given id path).outcome world =
      (((ask 1 .all base inner).outcome world).1.map (back chain), ((ask 1 .all base inner).outcome world).2) := by
  induction h generalizing limit given with
  | @base id path hb =>
    obtain ⟨limit, rfl⟩ : ∃ n, limit = n + 1 := Nat.exists_eq_succ_of_ne_zero (Nat.ne_of_gt hl)
    rw [hbase hb]
    rcases (ask 1 .all id path).outcome world with ⟨_ | answer, _⟩
    · rfl
    · exact Prod.ext (congrArg Except.ok (hnil answer).symm) rfl
  | @view id behind base path scheme inner claim label readOnly chain hp _ ih =>
    rw [List.length_cons] at hl
    obtain ⟨limit, rfl⟩ : ∃ n, limit = n + 1 := ⟨limit - 1, by omega⟩
    rw [hview hp, ih (show chain.length < limit by omega) .all]
    rcases (ask 1 .all base inner).outcome world with ⟨_ | answer, _⟩
    · rfl
    · exact Prod.ext (congrArg Except.ok (hcons (scheme, readOnly) chain answer).symm) rfl

/-- What is handed on and comes back as it is. -/
theorem Routed.outcome_handedOn_as_is {α : Type} (ask : Nat → Given → Nat → Text → Call World α)
    (hbase : ∀ {limit : Nat} {given : Given} {id : Nat} {path : Text}, world.IsBase id →
      (ask (limit + 1) given id path).outcome world = (ask 1 .all id path).outcome world)
    (hview : ∀ {limit : Nat} {given : Given} {id behind : Nat} {path scheme : Text} {claim : Claim} {label : Option Text}
      {readOnly : Bool}, world.provider? id = some ⟨scheme, claim, label, .view behind readOnly⟩ →
      (ask (limit + 1) given id path).outcome world =
        (ask limit .all (world.owner behind (Scheme.strip path scheme)) (Scheme.strip path scheme)).outcome world)
    (h : Routed world id path chain base inner) {limit : Nat} (hl : chain.length < limit) (given : Given) :
    (ask limit given id path).outcome world = (ask 1 .all base inner).outcome world := by
  have hself : ∀ out : Except Failure α × World, (out.1.map fun answer => answer, out.2) = out := by
    rintro ⟨_ | _, _⟩ <;> rfl
  exact (h.outcome_handedOn ask (fun _ answer => answer) (fun _ => rfl) (fun _ _ _ => rfl) hbase
    (fun hp => (hview hp).trans (hself _).symm) hl given).trans (hself _)

/-- Any view hands on the opening of a file for reading. -/
theorem Routed.outcome_openInput_within (h : Routed world id path chain base inner) {limit : Nat}
    (hl : chain.length < limit) (given : Given) :
    (performWithin limit given id (.openInput path)).outcome world = (direct base (.openInput inner)).outcome world := by
  refine h.outcome_handedOn_as_is (fun limit given id path => performWithin limit given id (.openInput path))
    (fun hb => outcome_performWithin_base hb _ _ _) (fun {_ _ _ _ _ _ _ _ readOnly} hp => ?_) hl given
  rw [outcome_performWithin_view hp]
  cases readOnly <;> rfl

/-- Plain views hand on the opening of a file for writing. -/
theorem Routed.outcome_openOutput_within (h : Routed world id path chain base inner)
    (hplain : ∀ scheme, (scheme, true) ∉ chain) {limit : Nat} (hl : chain.length < limit) (given : Given)
    (append : Bool) :
    (performWithin limit given id (.openOutput path append)).outcome world =
      (direct base (.openOutput inner append)).outcome world := by
  induction h generalizing limit given with
  | base hb =>
    obtain ⟨limit, rfl⟩ : ∃ n, limit = n + 1 := Nat.exists_eq_succ_of_ne_zero (Nat.ne_of_gt hl)
    exact outcome_performWithin_base hb limit given _
  | @view id behind base path scheme inner claim label readOnly chain hp _ ih =>
    rw [List.length_cons] at hl
    obtain ⟨limit, rfl⟩ : ∃ n, limit = n + 1 := ⟨limit - 1, by omega⟩
    have hrest := ih (fun scheme hm => hplain scheme (List.mem_cons_of_mem _ hm))
      (show chain.length < limit by omega) .all
    rw [outcome_performWithin_view hp]
    cases readOnly with
    | true => exact absurd List.mem_cons_self (hplain scheme)
    | false => exact hrest

/-- The first read-only view on a way refuses to open a file for writing. -/
theorem Routed.outcome_openOutput_readOnly (h : Routed world id path chain base inner)
    (hread : ∃ scheme, (scheme, true) ∈ chain) {limit : Nat} (hl : chain.length < limit) (given : Given)
    (append : Bool) :
    ∃ refused, (performWithin limit given id (.openOutput path append)).outcome world =
      (.error (View.readOnlyFault refused), world) := by
  induction h generalizing limit given with
  | base _ => simp at hread
  | @view id behind base path scheme inner claim label readOnly chain hp _ ih =>
    rw [List.length_cons] at hl
    obtain ⟨limit, rfl⟩ : ∃ n, limit = n + 1 := ⟨limit - 1, by omega⟩
    rw [outcome_performWithin_view hp]
    cases readOnly with
    | true => exact ⟨path, rfl⟩
    | false =>
      have hrest : ∃ scheme, (scheme, true) ∈ chain := by simpa using hread
      exact ih hrest (show chain.length < limit by omega) .all

/-- A canonical path comes back with the schemes of the way in front. -/
theorem Routed.outcome_canonicalPath_within (h : Routed world id path chain base inner) {limit : Nat}
    (hl : chain.length < limit) (given : Given) :
    (performWithin limit given id (.canonicalPath path)).outcome world =
      (((direct base (.canonicalPath inner)).outcome world).1.map (wrapped chain),
        ((direct base (.canonicalPath inner)).outcome world).2) := by
  refine h.outcome_handedOn (fun limit given id path => performWithin limit given id (.canonicalPath path)) wrapped
    (fun _ => rfl) (fun _ _ _ => rfl) (fun hb => outcome_performWithin_base hb _ _ _)
    (fun {limit _ id behind path scheme _ _ readOnly} hp => ?_) hl given
  -- a read-only view hands this on like any other
  have hforward : (View.forward scheme (world.owner behind) (fun id request => performWithin limit .all id request)
      (.canonicalPath path)).outcome world =
      let out := (performWithin limit .all (world.owner behind (Scheme.strip path scheme))
        (.canonicalPath (Scheme.strip path scheme))).outcome world
      (out.1.map (Scheme.join scheme), out.2) := by
    rw [View.forward, Call.outcome_bind]
    simp only [Request.path]
    rcases (performWithin limit .all (world.owner behind (Scheme.strip path scheme))
      (.canonicalPath (Scheme.strip path scheme))).outcome world with ⟨_ | _, _⟩ <;> rfl
  rw [outcome_performWithin_view hp]
  cases readOnly <;> exact hforward

/-! ### Through a registry -/

/-- A request other than a move goes to the owner of its path. -/
theorem outcome_perform_owner {request : Request} (hm : world.mismatch? registry request = none) :
    (perform registry request).outcome world =
      (performWithin (world.handOverLimit request.path) .all (world.owner registry request.path)
        request).outcome world := by
  rw [perform, Call.outcome_bind, Call.outcome_get]
  simp only [hm]
  rw [performAt, Call.outcome_bind, Call.outcome_get]

section Owner

variable (h : Routed world (world.owner registry path) path chain base inner)

include h

theorem Routed.outcome_openInput :
    (perform registry (.openInput path)).outcome world = (direct base (.openInput inner)).outcome world := by
  rw [outcome_perform_owner rfl]
  exact h.outcome_openInput_within h.length_lt_handOverLimit .all

theorem Routed.outcome_openOutput (hplain : ∀ scheme, (scheme, true) ∉ chain) (append : Bool) :
    (perform registry (.openOutput path append)).outcome world =
      (direct base (.openOutput inner append)).outcome world := by
  rw [outcome_perform_owner rfl]
  exact h.outcome_openOutput_within hplain h.length_lt_handOverLimit .all append

theorem Routed.outcome_openOutput_refused (hread : ∃ scheme, (scheme, true) ∈ chain) (append : Bool) :
    ∃ refused, (perform registry (.openOutput path append)).outcome world =
      (.error (View.readOnlyFault refused), world) := by
  rw [outcome_perform_owner rfl]
  exact h.outcome_openOutput_readOnly hread h.length_lt_handOverLimit .all append

theorem Routed.outcome_canonicalPath :
    (perform registry (.canonicalPath path)).outcome world =
      (((direct base (.canonicalPath inner)).outcome world).1.map (wrapped chain),
        ((direct base (.canonicalPath inner)).outcome world).2) := by
  rw [outcome_perform_owner rfl]
  exact h.outcome_canonicalPath_within h.length_lt_handOverLimit .all

end Owner

end FileRouter.World
