import FileRouter.Proofs.World.Building
import FileRouter.Proofs.World.Layers
/-!
Requests that only read, handed on through stacked views.

A view makes another request of one that it is asked, unless it answers by itself: it takes its scheme off the paths,
and a read-only view asks whether a file exists instead of whether it is read-only (`View.behind?`). What comes out
behind all views of a way is asked of the provider at its end, and the paths in the answer get the schemes of the way
in front again (`Leads.outcome_reads`). A way is at most a third as long as its path, so a request needs to be handed
on no more often than that.
-/

namespace FileRouter

/-! ### Views -/

namespace View

variable {σ : Type} {scheme : Text} {readOnly : Bool} {owner : Text → Nat}
  {next : Nat → (request : Request) → Call σ (request.Reply Handle)} {request last : Request}
  {chain : List (Text × Bool)}

/-- The request that a view makes of one that it is asked, if it does not answer by itself. -/
def behind? (scheme : Text) (readOnly : Bool) (request : Request) : Option Request :=
  if readOnly then
    match verdict request with
    | .pass request' => some (request'.mapPaths (Scheme.strip · scheme))
    | _ => none
  else some (request.mapPaths (Scheme.strip · scheme))

/-- The request that comes out behind views, the first one first. -/
def behindAll? : List (Text × Bool) → Request → Option Request
  | [], request => some request
  | (scheme, readOnly) :: chain, request => (behind? scheme readOnly request).bind (behindAll? chain)

theorem mismatch?_of_reads (h : request.Reads) : mismatch? scheme owner request = none := by
  cases request with
  | move old new replace => exact absurd h id
  | _ => rfl

/-- What comes out behind a read-only view is what the view lets pass, without its scheme. -/
theorem exists_pass_of_behind? (hb : behind? scheme true request = some last) :
    ∃ passed, verdict request = .pass passed ∧ last = passed.mapPaths (Scheme.strip · scheme) := by
  rw [behind?, if_pos rfl] at hb
  cases hv : verdict request with
  | refuse failure | deny => simp [hv] at hb
  | pass passed =>
    rw [hv] at hb
    exact ⟨passed, rfl, (Option.some.inj hb).symm⟩

/-- What comes out behind a view reads as well, and asks about the path without the scheme of the view. -/
theorem reads_behind (h : request.Reads) (hb : behind? scheme readOnly request = some last) :
    last.Reads ∧ last.path = Scheme.strip request.path scheme := by
  cases readOnly with
  | false =>
    obtain rfl := Option.some.inj hb
    exact ⟨h.mapPaths _, Request.path_mapPaths _ _⟩
  | true =>
    obtain ⟨passed, hv, rfl⟩ := exists_pass_of_behind? hb
    obtain ⟨hreads, hpath⟩ := pass_reads hv
    exact ⟨hreads.mapPaths _, by rw [Request.path_mapPaths, hpath]⟩

/-- A view asks what comes out behind it of the owner of its path, and puts its scheme in front of what it answers. -/
theorem outcome_view_of_reads (h : request.Reads) (hb : behind? scheme readOnly request = some last) (s : σ) :
    (Result.ofReply request <$> view readOnly scheme owner next request).outcome s =
      let out := (result next (owner last.path) last).outcome s
      (out.1.map (Result.mapPaths (Scheme.join scheme)), out.2) := by
  cases readOnly with
  | false =>
    obtain rfl := Option.some.inj hb
    have hview : view false scheme owner next request = forward scheme owner next request := rfl
    rw [hview, outcome_forward, mismatch?_of_reads h, Request.path_mapPaths]
  | true =>
    have hview : view true scheme owner next request = guarded scheme owner next request := rfl
    obtain ⟨passed, hv, rfl⟩ := exists_pass_of_behind? hb
    rw [hview, outcome_guarded, hv]
    simp only
    rw [outcome_forward, mismatch?_of_reads (pass_reads hv).1, Request.path_mapPaths]

/-- Whether a request that reads is one that a read-only view answers by itself: whether a path can be written, and the
opening of a handle in a mode that there is not. -/
def AnswersAlone : Request → Prop
  | .canWrite _ => True
  | .openHandle _ mode => mode ∉ HandleMode.all.map HandleMode.name
  | _ => False

theorem answersAlone_mapPaths (f : Text → Text) (request : Request) :
    AnswersAlone (request.mapPaths f) ↔ AnswersAlone request := by
  cases request <;> exact Iff.rfl

theorem exists_parse {mode : Text} (h : mode ∈ HandleMode.all.map HandleMode.name) (path : Text) :
    ∃ parsed, HandleMode.parse mode path = .ok parsed := by
  obtain ⟨parsed, hm, rfl⟩ := List.mem_map.mp h
  cases parsed <;> exact ⟨_, rfl⟩

/-- A read-only view passes what reads, if it does not answer by itself. -/
theorem exists_pass (h : request.Reads) (halone : ¬ AnswersAlone request) :
    ∃ request', verdict request = .pass request' ∧ ¬ AnswersAlone request' := by
  cases request with
  | openHandle path mode =>
    obtain ⟨parsed, hparsed⟩ := exists_parse (not_not.mp halone) path
    refine ⟨.openHandle path mode, ?_, halone⟩
    simp [verdict, hparsed, h hparsed]
  | canWrite path => exact absurd trivial halone
  | createDirectory | createFile | delete | move | openOutput | setReadOnly | createTemp => exact absurd h id
  | _ => exact ⟨_, rfl, id⟩

/-- Of the requests that read, views hand on all that a read-only one among them does not answer by itself. -/
theorem exists_behindAll (h : request.Reads) (halone : AnswersAlone request → ∀ scheme, (scheme, true) ∉ chain) :
    ∃ last, behindAll? chain request = some last := by
  induction chain generalizing request with
  | nil => exact ⟨request, rfl⟩
  | cons first chain ih =>
    obtain ⟨scheme, readOnly⟩ := first
    have hbehind : ∃ request', behind? scheme readOnly request = some request' ∧
        (AnswersAlone request' → AnswersAlone request) := by
      cases readOnly with
      | false => exact ⟨_, rfl, (answersAlone_mapPaths _ request).mp⟩
      | true =>
        -- a read-only view answers some reads alone, and those are excluded
        obtain ⟨request', hpass, hnot⟩ := exists_pass h fun ha => halone ha scheme List.mem_cons_self
        refine ⟨request'.mapPaths (Scheme.strip · scheme), by rw [behind?, if_pos rfl, hpass], fun ha => ?_⟩
        exact absurd ((answersAlone_mapPaths _ _).mp ha) hnot
    obtain ⟨request', hb, halone'⟩ := hbehind
    rw [behindAll?, hb, Option.bind_some]
    exact ih (reads_behind h hb).1 fun ha scheme hm => halone (halone' ha) scheme (List.mem_cons_of_mem _ hm)

end View

namespace World

variable {world : World} {registry id : Nat} {found : Registry} {path rest : Text} {chain : List (Text × Bool)}
  {request last : Request}

/-- What a request to a provider comes to behind views, which put their schemes in front of the paths in the answer. -/
def answerBehind (world : World) (chain : List (Text × Bool)) (id : Nat) (request : Request) :
    Except Failure Result × World :=
  let out := (View.result direct id request).outcome world
  (out.1.map (Result.mapPaths (wrapped chain)), out.2)

/-- **A request that reads comes to the provider at the end of the way**, if the views on the way hand it on, and if
it may be handed on as often as there are views. -/
theorem Leads.outcome_reads (h : Leads world registry path chain id rest) (hreads : request.Reads)
    (hpath : request.path = path) (hlast : View.behindAll? chain request = some last) {limit : Nat}
    (hl : chain.length < limit) (given : Given) :
    last.path = rest ∧
      (View.result (performWithin limit given) (world.owner registry path) request).outcome world =
        world.answerBehind chain id last := by
  induction h generalizing limit given request with
  | base hb =>
    obtain rfl := Option.some.inj hlast
    obtain ⟨limit, rfl⟩ : ∃ n, limit = n + 1 := ⟨limit - 1, by omega⟩
    refine ⟨hpath, ?_⟩
    have hself : Result.mapPaths (wrapped []) = fun result => result := funext Result.mapPaths_id
    rw [answerBehind, View.result, View.result, Call.outcome_map, Call.outcome_map, outcome_performWithin_base hb,
      hself]
    rcases (direct _ request).outcome world with ⟨_ | _, _⟩ <;> rfl
  | @view path scheme rest claim label readOnly chain id hp _ ih =>
    rw [List.length_cons] at hl
    obtain ⟨limit, rfl⟩ : ∃ n, limit = n + 1 := ⟨limit - 1, by omega⟩
    rw [View.behindAll?, Option.bind_eq_some_iff] at hlast
    obtain ⟨behind, hb, hlast⟩ := hlast
    obtain ⟨hbehind, hstrip⟩ := View.reads_behind hreads hb
    rw [hpath] at hstrip
    -- The request behind the view is a read as well, so the rest of the chain answers it.
    obtain ⟨hrest, hout⟩ := ih hbehind hstrip hlast (show chain.length < limit by omega) .all
    refine ⟨hrest, ?_⟩
    have hview : (View.result (performWithin (limit + 1) given) (world.owner registry path) request).outcome world =
        (Result.ofReply request <$> View.view readOnly scheme (world.owner registry) (performWithin limit .all)
          request).outcome world := by
      rw [View.result, Call.outcome_map, Call.outcome_map, outcome_performWithin_view hp]
      rfl
    -- unwrapping step by step is unwrapping all at once
    have hjoin : Result.mapPaths (Scheme.join scheme) ∘ Result.mapPaths (wrapped chain) =
        Result.mapPaths (wrapped ((scheme, readOnly) :: chain)) :=
      funext fun result => Result.mapPaths_mapPaths _ _ result
    rw [hview, View.outcome_view_of_reads hreads hb, hstrip, hout, answerBehind, answerBehind, ← hjoin]
    rcases (View.result direct id last).outcome world with ⟨_ | _, _⟩ <;> rfl

/-- What a provider that serves a path gives for it when all views are gone: the disk has a scheme of its own, which it
takes off as well. -/
def unwrappedAt (world : World) (id : Nat) (path : Text) : Text :=
  match world.drive? id with
  | some _ => path
  | none => Scheme.strip path Disk.scheme

theorem outcome_direct_unwrap (hb : world.IsBase id) (path : Text) :
    (direct id (.unwrap path)).outcome world = (.ok (world.unwrappedAt id path), world) := by
  rcases hb.cases with ⟨drive, hd⟩ | ⟨hd, hdisk⟩
  · rw [outcome_direct_memory hd, unwrappedAt, hd]
    have hself : withDrive id drive world = world := withDrive_self hd
    exact Prod.ext rfl (congrArg (fun w : World => { w with tokens := world.tokens }) hself)
  · rw [outcome_direct_disk hdisk, unwrappedAt, hd]
    rfl

/-- Views hand on the question what is behind them all as it is. -/
theorem exists_of_behindAll_unwrap (h : View.behindAll? chain (.unwrap path) = some last) :
    ∃ other, last = .unwrap other := by
  induction chain generalizing path with
  | nil => exact ⟨path, (Option.some.inj h).symm⟩
  | cons view chain ih =>
    obtain ⟨scheme, readOnly⟩ := view
    rw [View.behindAll?] at h
    cases readOnly <;> exact ih h

/-- A request that passes the views of a way and comes to the provider at its end, which is asked about the rest of the
path. It suffices to hand the request on as often as there are views. -/
def Arrives (world : World) (registry : Nat) (chain : List (Text × Bool)) (id : Nat) (rest : Text)
    (request : Request) : Prop :=
  ∃ last, View.behindAll? chain request = some last ∧ last.path = rest ∧
    (Result.ofReply request <$> perform registry request).outcome world = world.answerBehind chain id last ∧
    ∀ limit, chain.length < limit → ∀ given,
      (View.result (performWithin limit given) (world.owner registry request.path) request).outcome world =
        world.answerBehind chain id last

/-- Where a path comes to among views: through those of a chain to a provider, which is given the rest. -/
structure Delegated (world : World) (registry : Nat) (found : Registry) (path : Text) (chain : List (Text × Bool))
    (id : Nat) (rest : Text) : Prop where
  /-- What comes off the path are schemes of views. -/
  schemes : path = wrapped chain rest ∧ ∀ view ∈ chain, ViewUnder world registry found view
  /-- No longer sequence of schemes of views stands in front of the path. -/
  longest : ∀ schemes other,
    (∀ scheme ∈ schemes, ∃ readOnly, ViewUnder world registry found (scheme, readOnly)) →
    path = Scheme.joinAll schemes other → schemes <+: chain.map Prod.fst
  few : chain.length ≤ path.length / 3
  /-- The provider at the end is no view, and owns the rest. -/
  base : world.IsBase id ∧ world.owner registry rest = id
  unwrap : (perform registry (.unwrap path)).outcome world = (.ok (world.unwrappedAt id rest), world)
  /-- Every request that reads arrives, unless a read-only view answers it by itself. -/
  reads : ∀ request : Request, request.Reads → request.path = path →
    (View.AnswersAlone request → ∀ scheme, (scheme, true) ∉ chain) → Arrives world registry chain id rest request

theorem mismatch?_of_reads (h : request.Reads) : world.mismatch? registry request = none := by
  cases request with
  | move old new replace => exact absurd h id
  | _ => rfl

theorem Leads.owner (h : Leads world registry path chain id rest) : world.owner registry rest = id := by
  induction h with
  | base _ => rfl
  | view _ _ ih => exact ih

theorem Leads.arrives (h : Leads world registry path chain id rest) (hreads : request.Reads)
    (hpath : request.path = path) (halone : View.AnswersAlone request → ∀ scheme, (scheme, true) ∉ chain) :
    Arrives world registry chain id rest request := by
  obtain ⟨last, hlast⟩ := View.exists_behindAll hreads halone
  have hout := fun limit (hl : chain.length < limit) given => h.outcome_reads hreads hpath hlast hl given
  have hself := hout _ h.length_lt_handOverLimit .all
  refine ⟨last, hlast, hself.1, ?_, fun limit hl given => ?_⟩
  · rw [Call.outcome_map, outcome_perform_owner (mismatch?_of_reads hreads), ← Call.outcome_map, hpath]
    exact hself.2
  · rw [hpath]
    exact (hout limit hl given).2

/-- What comes back of the question what is behind all views, at the end of a way. -/
theorem Leads.outcome_unwrap (h : Leads world registry path chain id rest) :
    (perform registry (.unwrap path)).outcome world = (.ok (world.unwrappedAt id rest), world) := by
  have hreads : Request.Reads (.unwrap path) := trivial
  obtain ⟨last, hlast, hrest, hout, -⟩ := h.arrives hreads rfl False.elim
  obtain ⟨other, rfl⟩ := exists_of_behindAll_unwrap hlast
  obtain rfl : other = rest := hrest
  let unwrapped : Call World ((Request.unwrap path).Reply Handle) := pure (world.unwrappedAt id other)
  have hresult : (Result.ofReply (.unwrap path) <$> perform registry (.unwrap path)).outcome world =
      (Result.ofReply (.unwrap path) <$> unwrapped).outcome world := by
    rw [hout, answerBehind, View.result, Call.outcome_map, outcome_direct_unwrap h.isBase]
    rfl
  exact View.outcome_eq_of_result hresult

theorem Leads.delegated (h : Leads world registry path chain id rest) (hs : Stacked world registry found) :
    Delegated world registry found path chain id rest where
  schemes := ⟨h.eq_wrapped hs, h.viewUnder hs⟩
  longest _ _ hviews hpath := h.prefix_schemes hs hviews hpath
  few := by
    have hlength := h.length_add_le hs
    omega
  base := ⟨h.isBase, h.owner⟩
  unwrap := h.outcome_unwrap
  reads _ hreads hpath halone := h.arrives hreads hpath halone

/-- **Requests come to an end among views.** A registry that is built without a fallback falls back to the disk, and if
its makers make no scripts it is stacked; and in a stacked registry every path comes to a provider that is no view, when
the schemes of views in front of it, and nothing else, are off. -/
theorem every_path_delegated :
    (∀ {makers : Makers} {specs : List Text} {world made : World} {number : Nat},
      (makers.build specs none).outcome world = (.ok number, made) →
      ∃ found, made.registries[number]? = some found ∧ made.IsDisk found.fallback.id ∧
        ((∀ entry ∈ makers, entry.2 ≠ .scripted) → Stacked made number found)) ∧
    ∀ {world : World} {registry : Nat} {found : Registry}, Stacked world registry found → ∀ path, ∃ chain id rest,
      Delegated world registry found path chain id rest := by
  refine ⟨fun {makers specs world made number} hbuild => ?_, fun {world registry found} hs path => ?_⟩
  · obtain ⟨found, hfound, hkeyed, hdisk, hstation⟩ := founded_of_build id hbuild
    exact ⟨found, hfound, hdisk, fun hplain => ⟨hfound, hkeyed, hstation hplain _, hdisk.isBase⟩⟩
  · obtain ⟨chain, id, rest, hleads⟩ := hs.leads path
    exact ⟨chain, id, rest, hleads.delegated hs⟩

/-- The usual registry is built and stacked, and three views on its drive come off a path in the world with views. -/
theorem viewed_path_delegated :
    (∃ made found, (Makers.builtIn.build Makers.usualSpecs none).outcome (fresh [] 0 (.counting [])) = (.ok 0, made) ∧
      Stacked made 0 found ∧ made.IsDisk found.fallback.id) ∧
    Stacked viewedWorld 0 viewedRegistry ∧
      ∃ chain id rest, Delegated viewedWorld 0 viewedRegistry "via:ro:via:mem:/a".toList chain id rest ∧
        viewedWorld.unwrappedAt id rest = "mem:/a".toList := by
  have hbuild : (Makers.builtIn.build Makers.usualSpecs none).outcome (fresh [] 0 (.counting [])) =
      (.ok 0, ((Makers.builtIn.build Makers.usualSpecs none).outcome (fresh [] 0 (.counting []))).2) :=
    Prod.ext (by decide +kernel) rfl
  obtain ⟨found, -, hdisk, hstacked⟩ := every_path_delegated.1 hbuild
  obtain ⟨chain, id, rest, hdelegated⟩ :=
    every_path_delegated.2 layered_viewedWorld.stacked "via:ro:via:mem:/a".toList
  refine ⟨⟨_, found, hbuild, hstacked (by decide), hdisk⟩, layered_viewedWorld.stacked, chain, id, rest, hdelegated, ?_⟩
  have hunwrap : ((perform 0 (.unwrap "via:ro:via:mem:/a".toList)).outcome viewedWorld).1 = .ok "mem:/a".toList := rfl
  rw [hdelegated.unwrap] at hunwrap
  exact Except.ok.inj hunwrap

end World

end FileRouter
