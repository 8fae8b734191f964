import FileRouter.Proofs.Store.Command
import FileRouter.Proofs.Store.Stream
import FileRouter.Proofs.World.PlainView
/-!
Plain views are transparent.

A command for paths with the schemes of plain views in front leaves the same world as the command for the paths
themselves, and comes to the same, with the schemes in front of every path that leads back to a provider
(`transparent_joinAll`). For one view, the operations that are built on requests are followed step by step: what
the one run is handed the other is handed with the scheme in front (`agree_deleteRecursive`,
`agree_createDirectories`). A copy compares its paths at the registry or at the view; the comparison ends alike as
long as the disk has canonical paths at all (`agreeAt_checkDistinct`). Chains of views follow by composition
(`Command.Transparent.trans`).
-/

namespace FileRouter

open Call

namespace Command

variable {registry : Nat} {change change' : Text → Text} {command : Command} {world : World}

/-- A command with changed paths comes to the same as the command itself: it leaves the same world, and fails for
the same reason or has the same result, with the paths in it changed as well. -/
def Transparent (registry : Nat) (change : Text → Text) (command : Command) (world : World) : Prop :=
  AgreeAt (fun result result' => result' = result.mapPaths change) (command.run registry)
    ((command.mapPaths change).run registry) world

theorem transparent_id : command.Transparent registry id world := by
  rw [Transparent, mapPaths_id]
  refine ⟨?_, rfl⟩
  cases ((command.run registry).outcome world).1 with
  | error failure => exact .error rfl
  | ok result => exact .ok result.mapPaths_id.symm

theorem Transparent.trans (h : command.Transparent registry change world)
    (h' : (command.mapPaths change).Transparent registry change' world) :
    command.Transparent registry (change' ∘ change) world := by
  rw [Transparent, mapPaths_mapPaths] at h'
  refine ⟨h.1.trans h'.1 fun {result result' result''} hr hr' => ?_, h'.2.trans h.2⟩
  rw [hr', hr, Result.mapPaths_mapPaths]

end Command

namespace World

variable {world : World} {registry : Nat} {found : Registry} {scheme : Text}

/-- Worlds with the registries and providers of a given one, whatever the providers hold. -/
abbrev SameOutline (world now : World) : Prop := now.outline = world.outline

theorem keeps_outline_perform (request : Request) : Keeps (SameOutline world) (perform registry request) :=
  fun now hnow => (outline_perform registry request now).trans hnow

theorem keeps_outline_onHandle (handle : Handle) (request : StreamRequest) :
    Keeps (SameOutline world) (onHandle handle request) :=
  fun now hnow => (outline_onHandle handle request now).trans hnow

/-- Whatever is done with a handle, closing it ends both runs in the same way. -/
theorem agree_closing {α β : Type} {R : α → β → Prop} {use : Call World α} {use' : Call World β}
    (handle : Handle) (h : Agree (SameOutline world) R use use') :
    Agree (SameOutline world) R ((store registry).closing handle use) ((store registry).closing handle use') :=
  agree_ensuring h (keeps_outline_onHandle handle .close)

section Single

variable (hl : Layered world registry found) (hv : PlainView world registry found scheme)
include hl hv

/-! ### Requests -/

/-- A request that the registry always hands on, in both runs. -/
theorem agree_request (request : Request) (hm : ∀ now : World, now.mismatch? registry request = none)
    (change : request.Reply Handle → (request.mapPaths (Scheme.join scheme)).Reply Handle)
    (hchange : ∀ reply, Result.ofReply (request.mapPaths (Scheme.join scheme)) (change reply) =
      (Result.ofReply request reply).mapPaths (Scheme.join scheme)) :
    Agree (SameOutline world) (fun reply reply' => reply' = change reply) (perform registry request)
      (perform registry (request.mapPaths (Scheme.join scheme))) := by
  intro now hnow
  rw [AgreeAt, (hv.of_outline hnow).outcome_perform (hl.of_outline hnow) request (hm now) change hchange]
  refine ⟨⟨alike_map change (fun reply => ?_) _, rfl⟩, keeps_outline_perform request now hnow⟩
  rfl

/-- Deleting leaves the same state and fails with the same failure. -/
theorem outcome_delete_join {now : World} (hnow : SameOutline world now) (path : Text) :
    ((store registry).delete (Scheme.join scheme path)).outcome now =
      ((store registry).delete path).outcome now := by
  have hsame := (hv.of_outline hnow).outcome_perform (hl.of_outline hnow) (.delete path) rfl id fun _ => rfl
  have hid : ∀ answer : Except Failure Unit, answer.map id = answer := fun answer => by cases answer <;> rfl
  exact hsame.trans (Prod.ext (hid _) rfl)

theorem agree_attemptDelete (path : Text) :
    Agree (SameOutline world) (fun outcome outcome' => outcome' =
        { outcome with path := Scheme.join scheme outcome.path })
      ((store registry).attemptDelete path) ((store registry).attemptDelete (Scheme.join scheme path)) := by
  intro now hnow
  have hkept : SameOutline world (((store registry).delete path).outcome now).2 :=
    keeps_outline_perform (.delete path) now hnow
  rw [AgreeAt, Store.attemptDelete, Store.attemptDelete, outcome_bind, outcome_bind, outcome_failure?,
    outcome_failure?, outcome_delete_join hl hv hnow]
  cases hd : ((store registry).delete path).outcome now with
  | mk answer after =>
    rw [hd] at hkept
    cases answer with
    | error failure => exact ⟨⟨.ok rfl, rfl⟩, hkept⟩
    | ok value => exact ⟨⟨.ok rfl, rfl⟩, hkept⟩

/-! ### Deleting -/

theorem agree_remove (tryOnly : Bool) (path : Text) :
    Agree (SameOutline world) (fun _ _ => True) ((store registry).remove tryOnly path)
      ((store registry).remove tryOnly (Scheme.join scheme path)) := by
  cases tryOnly with
  | true => exact agree_bind (agree_attemptDelete hl hv path) fun _ _ _ => agree_pure trivial
  | false => exact (agree_request hl hv (.delete path) (fun _ => rfl) id fun _ => rfl).mono fun _ => trivial

/-- Both runs ask for the same entries and delete them in the same order. -/
theorem agree_deleteRecursive (tryOnly : Bool) (levels : Nat) (path : Text) :
    Agree (SameOutline world) (fun _ _ => True) ((store registry).deleteRecursive tryOnly levels path)
      ((store registry).deleteRecursive tryOnly levels (Scheme.join scheme path)) := by
  induction levels generalizing path with
  | zero => exact agree_throw rfl
  | succ levels ih =>
    rw [Store.deleteRecursive_succ, Store.deleteRecursive_succ]
    refine agree_bind (agree_request hl hv (.exists path) (fun _ => rfl) id fun _ => rfl)
      fun there there' hthere => ?_
    obtain rfl : there' = there := hthere
    split_ifs
    · refine agree_bind (agree_request hl hv (.isDirectory path) (fun _ => rfl) id fun _ => rfl)
        fun isDirectory isDirectory' hdirectory => ?_
      obtain rfl : isDirectory' = isDirectory := hdirectory
      split_ifs
      · -- the entries come back with the scheme in front, so the induction goes on with joined paths
        refine agree_bind (agree_request hl hv (.listFiles path) (fun _ => rfl)
          (List.map (Scheme.join scheme)) fun _ => rfl) fun entries entries' hentries => ?_
        obtain rfl : entries' = entries.map (Scheme.join scheme) := hentries
        exact agree_bind (agree_forM entries fun entry _ => ih entry) fun _ _ _ =>
          agree_remove hl hv tryOnly path
      · exact agree_remove hl hv tryOnly path
    · exact agree_pure trivial

/-! ### Making directories -/

/-- Both runs climb through the same ancestors. -/
theorem agree_missing (steps : Nat) (start : Option Text) (passed : List Text) :
    Agree (SameOutline world) (fun missing missing' => missing' = missing.map (Scheme.join scheme))
      ((store registry).missing steps start passed)
      ((store registry).missing steps (start.map (Scheme.join scheme)) (passed.map (Scheme.join scheme))) := by
  induction steps generalizing start passed with
  | zero => exact agree_throw rfl
  | succ steps ih =>
    cases start with
    | none => exact agree_pure rfl
    | some path =>
      -- joining is injective, so a path comes again on one side exactly when it does on the other
      have hpassed : Scheme.join scheme path ∈ passed.map (Scheme.join scheme) ↔ path ∈ passed :=
        List.mem_map_of_injective (Scheme.join_injective scheme)
      rw [Option.map_some, Store.missing, Store.missing]
      refine agree_bind (agree_request hl hv (.exists path) (fun _ => rfl) id fun _ => rfl)
        fun there there' hthere => ?_
      obtain rfl : there' = there := hthere
      by_cases hthere : there' = true
      · rw [if_pos hthere, if_pos hthere]
        exact agree_pure rfl
      · rw [if_neg hthere, if_neg hthere]
        by_cases hloop : path ∈ passed
        · rw [if_pos hloop, if_pos (hpassed.mpr hloop)]
          exact agree_throw rfl
        · rw [if_neg hloop, if_neg fun hm => hloop (hpassed.mp hm)]
          refine agree_bind (agree_request hl hv (.parent path) (fun _ => rfl)
            (Option.map (Scheme.join scheme)) fun _ => rfl) fun parent parent' hparent => ?_
          obtain rfl : parent' = parent.map (Scheme.join scheme) := hparent
          exact ih parent (path :: passed)

theorem agree_createDirectories (steps : Nat) (path : Option Text) :
    Agree (SameOutline world) (fun _ _ => True) ((store registry).createDirectories steps path)
      ((store registry).createDirectories steps (path.map (Scheme.join scheme))) := by
  rw [Store.createDirectories, Store.createDirectories]
  refine agree_bind (agree_missing hl hv steps path []) fun missing missing' hmissing => ?_
  obtain rfl : missing' = missing.map (Scheme.join scheme) := hmissing
  refine agree_forM missing fun directory _ => ?_
  exact (agree_request hl hv (.createDirectory directory) (fun _ => rfl) id fun _ => rfl).mono fun _ => trivial

/-- The scheme of a view has no slash in it, so both runs climb as far. -/
theorem climb_join (path : Text) : world.climb (Scheme.join scheme path) = world.climb path := by
  have hslash : scheme.count '/' = 0 :=
    List.count_eq_zero.mpr (Scheme.slash_notMem_of_isValid (hv.isValid hl))
  have hcount : (Scheme.join scheme path).count '/' = path.count '/' := by
    rw [Scheme.join, List.count_append, hslash, Nat.zero_add, List.count_cons_of_ne (by decide)]
  rw [climb, climb, hcount]

/-! ### Copying -/

/-- The check of a copy compares the canonical paths of the two paths if one provider owns both. With the scheme
in front that is always so; but canonical paths of two owners are different, so it is let through as well. -/
theorem agreeAt_checkDistinct {source target : Text}
    (hcanonical : world.owner registry source ≠ world.owner registry target →
      Disk.Inhabited world.disk.fs ∧ '\x00' ∉ source ∧ '\x00' ∉ target) :
    AgreeAt (fun _ _ => True) ((store registry).checkDistinct source target)
      ((store registry).checkDistinct (Scheme.join scheme source) (Scheme.join scheme target)) world ∧
    (((store registry).checkDistinct source target).outcome world).2 = world := by
  obtain ⟨chain, id, inner, hsource⟩ := hl.leads source
  obtain ⟨chain', id', inner', htarget⟩ := hl.leads target
  refine ⟨?_, checkDistinct_unchanged hsource htarget⟩
  obtain ⟨first, hfirst⟩ : ∃ first, ((store registry).canonicalPath source).outcome world = (first, world) :=
    ⟨_, outcome_store_canonicalPath hsource⟩
  obtain ⟨second, hsecond⟩ : ∃ second, ((store registry).canonicalPath target).outcome world = (second, world) :=
    ⟨_, outcome_store_canonicalPath htarget⟩
  have hfirst' := hv.outcome_canonicalPath hl hfirst
  have hsecond' := hv.outcome_canonicalPath hl hsecond
  have hone : (store registry).owner world (Scheme.join scheme target) =
      (store registry).owner world (Scheme.join scheme source) := hv.owner_eq hl target source
  -- The joined paths have one owner, the view, so on their side the canonical paths are always compared.
  rw [AgreeAt, Store.outcome_checkDistinct_of hfirst hsecond, Store.outcome_checkDistinct_of hfirst' hsecond',
    if_pos hone]
  split_ifs with howner
  · cases first with
    | error failure => exact ⟨.error rfl, rfl⟩
    | ok canonical =>
      cases second with
      | error failure => exact ⟨.error rfl, rfl⟩
      | ok other =>
        simp only [Except.map, (Scheme.join_injective scheme).eq_iff]
        split_ifs
        · exact ⟨.error rfl, rfl⟩
        · exact ⟨.ok trivial, rfl⟩
  · -- different owners: nothing is compared behind the view, so the canonical paths have to exist and differ
    obtain ⟨hdisk, hs, ht⟩ := hcanonical (Ne.symm howner)
    obtain ⟨canonical, other, hc, ho, hne⟩ := hl.exists_canonical_ne hdisk hs ht (Ne.symm howner)
    obtain rfl : first = .ok canonical := congrArg Prod.fst (hfirst.symm.trans hc)
    obtain rfl : second = .ok other := congrArg Prod.fst (hsecond.symm.trans ho)
    simp only [Except.map]
    rw [if_neg ((Scheme.join_injective scheme).ne hne)]
    exact ⟨.ok trivial, rfl⟩

/-- Once the source is open, the runs differ in the path of the target only. -/
theorem agree_transfer (handle : Handle) (target : Text) (chunkSize : Int) (chunks : Nat) :
    Agree (SameOutline world) Eq (transfer registry handle target chunkSize chunks)
      (transfer registry handle (Scheme.join scheme target) chunkSize chunks) := by
  refine agree_closing handle (agree_bind
    (agree_request hl hv (.openOutput target false) (fun _ => rfl) id fun _ => rfl) fun sink sink' hsink => ?_)
  obtain rfl : sink' = sink := hsink
  refine agree_closing sink' (agree_refl ?_)
  exact keeps_copyStream (keeps_outline_onHandle handle _)
    (fun chunk => keeps_map _ (keeps_outline_onHandle sink' _)) chunks

theorem agreeAt_copy {source target : Text} (chunkSize : Int)
    (hcanonical : world.owner registry source ≠ world.owner registry target →
      Disk.Inhabited world.disk.fs ∧ '\x00' ∉ source ∧ '\x00' ∉ target) :
    AgreeAt Eq (copy registry source target chunkSize)
      (copy registry (Scheme.join scheme source) (Scheme.join scheme target) chunkSize) world := by
  obtain ⟨hcheck, hsame⟩ := agreeAt_checkDistinct hl hv hcanonical
  -- past the check the two copies ask the same, path by path
  have hrest : Agree (SameOutline world) Eq
      ((store registry).openInput source >>= fun handle =>
        transfer registry handle target chunkSize world.volume)
      ((store registry).openInput (Scheme.join scheme source) >>= fun handle =>
        transfer registry handle (Scheme.join scheme target) chunkSize world.volume) := by
    refine agree_bind (agree_request hl hv (.openInput source) (fun _ => rfl) id fun _ => rfl)
      fun handle handle' hhandle => ?_
    obtain rfl : handle' = handle := hhandle
    exact agree_transfer hl hv handle' target chunkSize world.volume
  refine agreeAt_get (agreeAt_bind hcheck fun _ _ _ => ?_)
  rw [hsame]
  exact (hrest world rfl).1

/-! ### Commands -/

theorem transparent_join {command : Command}
    (hcopy : ∀ {source target : Text} {chunkSize : Int}, command = .copy source target chunkSize →
      world.owner registry source ≠ world.owner registry target →
        Disk.Inhabited world.disk.fs ∧ '\x00' ∉ source ∧ '\x00' ∉ target) :
    command.Transparent registry (Scheme.join scheme) world := by
  cases command with
  | ask request => exact hv.agreeAt_ask hl request
  | deleteRecursive path tryOnly =>
    have hdelete := (agree_deleteRecursive hl hv tryOnly world.levels path world rfl).1
    exact agreeAt_map (agreeAt_get hdelete) fun _ _ _ => rfl
  | createDirectories path =>
    -- the scheme in front adds no step to the climb
    have hclimb : world.climb ((path.map (Scheme.join scheme)).getD []) = world.climb (path.getD []) := by
      cases path with
      | none => rfl
      | some path => exact climb_join hl hv path
    have hmake := (agree_createDirectories hl hv (world.climb (path.getD [])) path world rfl).1
    refine agreeAt_map (agreeAt_get ?_) fun _ _ (_ : True) => rfl
    rw [hclimb]
    exact hmake
  | copy source target chunkSize =>
    refine agreeAt_map (agreeAt_copy hl hv chunkSize (hcopy rfl)) fun count count' hcount => ?_
    rw [hcount]
    rfl
  | attemptDelete path =>
    refine agreeAt_map (agree_attemptDelete hl hv path world rfl).1 fun outcome outcome' houtcome => ?_
    rw [houtcome]
    rfl
  | tryDelete path =>
    have hagree : Agree (SameOutline world) Eq ((store registry).tryDelete path)
        ((store registry).tryDelete (Scheme.join scheme path)) :=
      agree_bind (agree_attemptDelete hl hv path) fun _ _ h => agree_pure (by rw [h]; rfl)
    refine agreeAt_map (hagree world rfl).1 fun flag flag' hflag => ?_
    rw [hflag]
    rfl

end Single

/-- **Plain views are transparent**: with their schemes in front of its paths, a command leaves the same world and
comes to the same, with the schemes in front of the paths in the result. Only a copy from one provider to another
relies on the disk, since the views ask for canonical paths that are not needed without them. -/
theorem transparent_joinAll (hl : Layered world registry found) {schemes : List Text}
    (hviews : ∀ scheme ∈ schemes, PlainView world registry found scheme) {command : Command}
    (hnul : ∀ path ∈ command.paths, '\x00' ∉ path)
    (hcopy : ∀ {source target : Text} {chunkSize : Int}, command = .copy source target chunkSize →
      world.owner registry source ≠ world.owner registry target → Disk.Inhabited world.disk.fs) :
    command.Transparent registry (Scheme.joinAll schemes) world := by
  induction schemes with
  | nil => exact Command.transparent_id
  | cons scheme schemes ih =>
    have hbehind := ih fun other ho => hviews other (List.mem_cons_of_mem _ ho)
    have hfront := hviews scheme List.mem_cons_self
    refine hbehind.trans (transparent_join hl hfront fun {source target chunkSize} hc hne => ?_)
    obtain ⟨source', target', rfl, rfl, rfl⟩ := Command.exists_of_mapPaths_eq_copy hc
    -- views own both paths of the copy, unless there are no more of them
    have howner : world.owner registry source' ≠ world.owner registry target' := by
      cases schemes with
      | nil => exact hne
      | cons next schemes =>
        have hnext := hviews next (List.mem_cons_of_mem _ List.mem_cons_self)
        exact absurd (hnext.owner_eq hl _ _) hne
    have hfree : ∀ path, '\x00' ∉ path → '\x00' ∉ Scheme.joinAll schemes path := fun path hp =>
      Scheme.notMem_joinAll (fun other ho =>
        Scheme.nul_notMem_of_isValid ((hviews other (List.mem_cons_of_mem _ ho)).isValid hl)) (by decide) hp
    exact ⟨hcopy rfl howner, hfree _ (hnul _ List.mem_cons_self),
      hfree _ (hnul _ (List.mem_cons_of_mem _ List.mem_cons_self))⟩

theorem plainView_viewedWorld : PlainView viewedWorld 0 viewedRegistry "via".toList :=
  ⟨⟨3, "via".toList, .ownScheme⟩, by decide, rfl, none, rfl⟩

/-- Behind two views a file is copied from the drive to the disk as without them. -/
theorem transparent_joinAll_viewed :
    Layered viewedWorld 0 viewedRegistry ∧ PlainView viewedWorld 0 viewedRegistry "via".toList ∧
      (Command.copy "mem:/a".toList "b".toList 8192).Transparent 0
        (Scheme.joinAll ["via".toList, "via".toList]) viewedWorld := by
  have hviews : ∀ scheme ∈ ["via".toList, "via".toList], PlainView viewedWorld 0 viewedRegistry scheme := by
    intro scheme hs
    obtain rfl : scheme = "via".toList := by simpa using hs
    exact plainView_viewedWorld
  have hnul : ∀ path ∈ (Command.copy "mem:/a".toList "b".toList 8192).paths, '\x00' ∉ path := by decide
  have hdisk : Disk.Inhabited viewedWorld.disk.fs := ⟨by decide, by decide, by decide⟩
  exact ⟨layered_viewedWorld, plainView_viewedWorld,
    transparent_joinAll layered_viewedWorld hviews hnul fun _ _ => hdisk⟩

/-- What comes of an attempt to delete tells the path as it was given, with the schemes of views. -/
theorem not_forall_attemptDelete_same :
    ¬ ∀ (world : World) (registry : Nat) (found : Registry) (schemes : List Text) (path : Text),
      Layered world registry found → (∀ scheme ∈ schemes, PlainView world registry found scheme) →
      '\x00' ∉ path →
      (((store registry).attemptDelete (Scheme.joinAll schemes path)).outcome world).1 =
        (((store registry).attemptDelete path).outcome world).1 := by
  intro h
  have hviews : ∀ scheme ∈ ["via".toList], PlainView viewedWorld 0 viewedRegistry scheme := by
    intro scheme hs
    obtain rfl : scheme = "via".toList := by simpa using hs
    exact plainView_viewedWorld
  have hsame := h viewedWorld 0 viewedRegistry ["via".toList] "mem:/a".toList layered_viewedWorld hviews
    (by decide)
  obtain ⟨failure, hplain⟩ := (store 0).outcome_attemptDelete_fst "mem:/a".toList viewedWorld
  obtain ⟨failure', hview⟩ :=
    (store 0).outcome_attemptDelete_fst (Scheme.joinAll ["via".toList] "mem:/a".toList) viewedWorld
  rw [hplain, hview] at hsame
  -- the outcome repeats the path that was given, with the scheme in front
  have hpath : Scheme.joinAll ["via".toList] "mem:/a".toList = "mem:/a".toList :=
    congrArg DeleteOutcome.path (Except.ok.inj hsame)
  exact absurd hpath (by decide)

/-- The same world once the working directory is gone. -/
def strandedWorld : World :=
  { viewedWorld with
    disk := { viewedWorld.disk with fs := { viewedWorld.disk.fs with work := ["gone".toList] } } }

/-- Without a working directory a view asks for a canonical path that the copy itself has no use for. -/
theorem not_forall_transparent_copy :
    ¬ ∀ (world : World) (registry : Nat) (found : Registry) (scheme source target : Text) (chunkSize : Int),
      Layered world registry found → PlainView world registry found scheme →
      '\x00' ∉ source → '\x00' ∉ target →
      (Command.copy source target chunkSize).Transparent registry (Scheme.join scheme) world := by
  intro h
  obtain ⟨halike, -⟩ := h strandedWorld 0 viewedRegistry "via".toList "mem:/".toList "b".toList 1
    (layered_viewedWorld.of_outline rfl) (plainView_viewedWorld.of_outline rfl) (by decide) (by decide)
  have hplain : (((Command.copy "mem:/".toList "b".toList 1).run 0).outcome strandedWorld).1 =
      .error (.refused .cannotOpenDirectory "mem:/".toList) := by rfl
  have hview : ((((Command.copy "mem:/".toList "b".toList 1).mapPaths (Scheme.join "via".toList)).run
      0).outcome strandedWorld).1 = .error (Disk.Fault.noEntry.failure []) := by rfl
  rw [hplain, hview] at halike
  cases halike with
  | error hreason => exact absurd hreason (by decide)

end World

end FileRouter
