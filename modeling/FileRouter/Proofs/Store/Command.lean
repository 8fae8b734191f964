import FileRouter.Proofs.World.Results
/-!
Commands: everything that the store over a registry can be asked.

A command is a request or one of the operations that are built on requests. Its result is a `Result`, so that
one statement can speak of all of them.
-/

namespace FileRouter

/-- A request, or an operation that is built on requests, with its arguments. -/
inductive Command where
  | ask (request : Request)
  | deleteRecursive (path : Text) (tryOnly : Bool)
  | createDirectories (path : Option Text)
  | copy (source target : Text) (chunkSize : Int)
  | attemptDelete (path : Text)
  | tryDelete (path : Text)
  deriving Repr, DecidableEq

namespace Command

/-- The paths among the arguments. -/
def paths : Command → List Text
  | ask request => request.paths
  | deleteRecursive path _ | attemptDelete path | tryDelete path => [path]
  | createDirectories path => path.toList
  | copy source target _ => [source, target]

/-- The command with its paths changed. -/
def mapPaths (f : Text → Text) : Command → Command
  | ask request => .ask (request.mapPaths f)
  | deleteRecursive path tryOnly => .deleteRecursive (f path) tryOnly
  | createDirectories path => .createDirectories (path.map f)
  | copy source target chunkSize => .copy (f source) (f target) chunkSize
  | attemptDelete path => .attemptDelete (f path)
  | tryDelete path => .tryDelete (f path)

/-- What the store over a registry does. -/
def run (registry : Nat) : Command → Call World Result
  | ask request => Result.ofReply request <$> World.perform registry request
  | deleteRecursive path tryOnly => (fun _ => .nothing) <$> World.deleteRecursive registry path tryOnly
  | createDirectories path => (fun _ => .nothing) <$> World.createDirectories registry path
  | copy source target chunkSize =>
    (fun count : Nat => .number count) <$> World.copy registry source target chunkSize
  | attemptDelete path => .deletion <$> (World.store registry).attemptDelete path
  | tryDelete path => .flag <$> (World.store registry).tryDelete path

theorem mapPaths_id (command : Command) : command.mapPaths id = command := by
  cases command with
  | ask request => exact congrArg ask (Request.mapPaths_eq_self fun _ => rfl)
  | createDirectories path => cases path <;> rfl
  | _ => rfl

theorem mapPaths_mapPaths (f g : Text → Text) (command : Command) :
    (command.mapPaths f).mapPaths g = command.mapPaths (g ∘ f) := by
  cases command with
  | ask request => exact congrArg ask (Request.mapPaths_mapPaths f g request)
  | createDirectories path => cases path <;> rfl
  | _ => rfl

theorem exists_of_mapPaths_eq_copy {f : Text → Text} {command : Command} {source target : Text}
    {chunkSize : Int} (h : command.mapPaths f = .copy source target chunkSize) :
    ∃ source' target', command = .copy source' target' chunkSize ∧ source = f source' ∧ target = f target' := by
  cases command with
  | copy source' target' chunkSize' =>
    obtain ⟨rfl, rfl, rfl⟩ := Command.copy.inj h
    exact ⟨source', target', rfl, rfl, rfl⟩
  | _ => simp [mapPaths] at h

end Command

namespace Store

variable {σ η : Type} (store : Store σ η)

/-- An attempt to delete never fails, and tells the path that it is made for. -/
theorem outcome_attemptDelete_fst (path : Text) (s : σ) :
    ∃ failure, ((store.attemptDelete path).outcome s).1 = .ok ⟨path, failure⟩ := by
  rw [attemptDelete, Call.outcome_bind, Call.outcome_failure?]
  rcases (store.delete path).outcome s with ⟨failure | _, left⟩
  · exact ⟨some failure, rfl⟩
  · exact ⟨none, rfl⟩

/-- Deletes one entry, in either mode. -/
def remove (tryOnly : Bool) (path : Text) : Call σ Unit :=
  if tryOnly then (do let _ ← store.attemptDelete path) else store.delete path

/-- One level of a recursive deletion. -/
theorem deleteRecursive_succ (tryOnly : Bool) (levels : Nat) (path : Text) :
    store.deleteRecursive tryOnly (levels + 1) path =
      (do
        if ← store.exists? path then
          if ← store.isDirectory path then
            let entries ← store.listFiles path
            entries.forM (store.deleteRecursive tryOnly levels)
            store.remove tryOnly path
          else store.remove tryOnly path) := by
  cases tryOnly <;> rfl

end Store

end FileRouter
