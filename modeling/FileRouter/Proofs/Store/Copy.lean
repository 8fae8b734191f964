import FileRouter.Proofs.Store.Stream
import FileRouter.Proofs.World.Files
/-!
The parts of a copy.

A copy checks its two paths, which changes nothing, opens its source, and then transfers it to its target. The
check refuses two paths that name a file at the same provider exactly when both belong to one provider and have
one canonical path with the schemes of their ways in front (`outcome_checkDistinct`).
-/

namespace FileRouter

theorem Store.outcome_checkDistinct_of {σ η : Type} {store : Store σ η} {path target : Text} {s : σ}
    {first second : Except Failure Text}
    (hfirst : (store.canonicalPath path).outcome s = (first, s))
    (hsecond : (store.canonicalPath target).outcome s = (second, s)) :
    (store.checkDistinct path target).outcome s =
      if store.owner s target = store.owner s path then
        match first, second with
        | .ok canonical, .ok other =>
          if canonical = other then (.error (.refused .copyOntoItself target), s) else (.ok (), s)
        | .error failure, _ => (.error failure, s)
        | .ok _, .error failure => (.error failure, s)
      else (.ok (), s) := by
  rw [checkDistinct, Call.outcome_bind, Call.outcome_get]
  simp only
  -- with different owners nothing is looked up at all
  split_ifs with howner
  · rw [Call.outcome_bind, hfirst]
    cases first with
    | error failure => rfl
    | ok canonical =>
      simp only
      rw [Call.outcome_bind, hsecond]
      cases second with
      | error failure => rfl
      | ok other =>
        simp only
        split_ifs <;> rfl
  · rfl

namespace World

variable {world : World} {registry id : Nat} {source target inner inner' : Text}
  {chain chain' : List (Text × Bool)} {place : Place} {body : Nat}

/-! ### What the copy recognizes -/

/-- Asking for a canonical path changes nothing. -/
theorem canonicalPath_unchanged (hb : world.IsBase id) (path : Text) :
    ((direct id (.canonicalPath path)).outcome world).2 = world := by
  rcases hb.cases with ⟨drive, hd⟩ | ⟨-, hdisk⟩
  · rw [outcome_direct_memory hd]
    show { withDrive id drive world with tokens := world.tokens } = world
    rw [withDrive_self hd]
  · rw [outcome_direct_disk hdisk]
    show { withDisk ((Disk.canonicalPath path).outcome world.disk).2 world with
      tokens := world.tokens } = world
    rw [Disk.canonicalPath_unchanged]
    rfl

/-- A path that names a file has a canonical path. -/
theorem outcome_direct_canonicalPath (hb : world.IsBase id) (h : world.place? id inner = some place) :
    (direct id (.canonicalPath inner)).outcome world = (.ok (world.canonicalAt id inner), world) := by
  refine Prod.ext ?_ (canonicalPath_unchanged hb inner)
  rcases hb.cases with ⟨drive, hd⟩ | ⟨hd, hdisk⟩
  · rw [outcome_direct_memory hd, canonicalAt, hd]
    rfl
  · obtain ⟨body, hbody, -⟩ := (place?_disk hd).mp h
    rw [outcome_direct_disk hdisk, canonicalAt, hd]
    show ((Disk.canonicalPath inner).outcome world.disk).1.map _ = _
    rw [Disk.outcome_canonicalPath hbody]
    rfl

theorem outcome_store_canonicalPath (hs : world.Leads registry source chain id inner) :
    ((store registry).canonicalPath source).outcome world =
      (((direct id (.canonicalPath inner)).outcome world).1.map (wrapped chain), world) := by
  rw [show (store registry).canonicalPath source = perform registry (.canonicalPath source) from rfl,
    hs.outcome_canonicalPath, canonicalPath_unchanged hs.isBase]

/-- The check at the start of a copy changes nothing. -/
theorem checkDistinct_unchanged {id' : Nat} (hs : world.Leads registry source chain id inner)
    (ht : world.Leads registry target chain' id' inner') :
    (((store registry).checkDistinct source target).outcome world).2 = world := by
  rw [Store.outcome_checkDistinct_of (outcome_store_canonicalPath hs) (outcome_store_canonicalPath ht)]
  split_ifs
  · split
    · split_ifs <;> rfl
    · rfl
    · rfl
  · rfl

/-- Whether two paths belong to one provider and have one canonical path, with the schemes of their ways in
front. -/
def Recognized (world : World) (registry id : Nat) (source target : Text) (chain chain' : List (Text × Bool))
    (inner inner' : Text) : Prop :=
  world.owner registry target = world.owner registry source ∧
    wrapped chain (world.canonicalAt id inner) = wrapped chain' (world.canonicalAt id inner')

open Classical in
/-- The check refuses exactly what it recognizes. -/
theorem outcome_checkDistinct {place' : Place} (hs : world.Leads registry source chain id inner)
    (ht : world.Leads registry target chain' id inner') (hplace : world.place? id inner = some place)
    (hplace' : world.place? id inner' = some place') :
    ((store registry).checkDistinct source target).outcome world =
      if world.Recognized registry id source target chain chain' inner inner' then
        (.error (.refused .copyOntoItself target), world)
      else (.ok (), world) := by
  rw [Store.outcome_checkDistinct_of (outcome_store_canonicalPath hs) (outcome_store_canonicalPath ht),
    outcome_direct_canonicalPath hs.isBase hplace, outcome_direct_canonicalPath ht.isBase hplace',
    show (store registry).owner world = world.owner registry from rfl]
  simp only [Recognized, Except.map]
  split_ifs <;> simp_all

/-! ### What happens then -/

/-- What a copy does once its source is open. -/
def transfer (registry : Nat) (handle : Handle) (target : Text) (chunkSize : Int) (chunks : Nat) :
    Call World Nat :=
  (store registry).closing handle do
    let sink ← (store registry).openOutput target false
    (store registry).closing sink
      (copyStream ((store registry).read handle (some chunkSize))
        (fun data => discard ((store registry).write sink data)) chunks)

theorem outcome_copy_of_refused {failure : Failure} (chunkSize : Int)
    (h : ((store registry).checkDistinct source target).outcome world = (.error failure, world)) :
    (copy registry source target chunkSize).outcome world = (.error failure, world) := by
  rw [copy, Call.outcome_bind, Call.outcome_get]
  simp only
  rw [Store.copy, Call.outcome_bind, h]

theorem outcome_copy_of_opened {handle : Handle} {opened : World} (chunkSize : Int)
    (hc : ((store registry).checkDistinct source target).outcome world = (.ok (), world))
    (ho : (perform registry (.openInput source)).outcome world = (.ok handle, opened)) :
    (copy registry source target chunkSize).outcome world =
      (transfer registry handle target chunkSize world.volume).outcome opened := by
  rw [copy, Call.outcome_bind, Call.outcome_get]
  simp only
  rw [Store.copy, Call.outcome_bind, hc]
  simp only
  have hopen : (store registry).openInput source = perform registry (.openInput source) := rfl
  rw [Call.outcome_bind, hopen,
    ho]
  rfl

end World

end FileRouter
