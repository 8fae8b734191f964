import FileRouter.Disk.Handle
import FileRouter.Disk.Provider
import FileRouter.Memory.Handle
import FileRouter.Registry
import FileRouter.Script
import FileRouter.View
/-!
The world: every provider there is, and what they share.

A provider has a scheme and a claim, by which registries know it, and something that backs it: the disk,
a drive in memory, a script, or, for a view, the registry through which it finds the owners of the paths
behind it. Providers and registries go by their numbers. All providers share the clock, the tokens for
fresh names, and the one disk.

`World.performAt` is a request to a provider, `World.perform` one to the owner of its path, and
`World.onHandle` one to an open handle. A view hands on to another provider; the number of times that can
happen is bounded by `World.handOverLimit`, because every view takes its scheme off the path.
-/

namespace FileRouter

/-- What stands behind a provider. -/
inductive Backing where
  | disk
  | memory (drive : Drive)
  /-- A view on the owners of a registry, which may be read-only. -/
  | view (registry : Nat) (readOnly : Bool)
  | scripted (script : Script)
  deriving Repr, DecidableEq

/-- A provider: its scheme, what it claims, the label its owner has given it, and its backing. -/
structure Provider where
  scheme : Text
  claim : Claim
  label : Option Text
  backing : Backing
  deriving Repr, DecidableEq

/-- An open handle, by the provider it is from and its number there. -/
inductive Handle where
  | memory (provider index : Nat)
  | disk (index : Nat)
  | scripted (index : Nat)
  deriving Repr, DecidableEq

/-- Everything that requests can change or depend on. The clock shows nanoseconds. -/
structure World where
  providers : List Provider
  registries : List Registry
  disk : Disk
  streams : List ScriptedStream
  clock : Int
  tokens : TokenSource
  events : List Event

namespace World

/-- A world without providers, on a fresh host that works in a directory. -/
def fresh (work : Key) (clock : Int) (tokens : TokenSource) : World :=
  ⟨[], [], .fresh work, [], clock, tokens, []⟩

/-- The time of day in milliseconds. -/
def millis (clock : Int) : Int := clock / 1000000

/-- The provider with a number. -/
def provider? (world : World) (id : Nat) : Option Provider := world.providers[id]?

/-- The drive behind a provider. -/
def drive? (world : World) (id : Nat) : Option Drive :=
  match world.provider? id with
  | some ⟨_, _, _, .memory drive⟩ => some drive
  | _ => none

/-- Changes what stands behind a provider. -/
def setBacking (id : Nat) (backing : Backing) (world : World) : World :=
  { world with providers := world.providers.modify id fun provider => { provider with backing } }

/-- The member that owns a path in the registry with a number. -/
def owner? (world : World) (registry : Nat) (path : Text) : Option Member :=
  (world.registries[registry]?).map fun registry => registry.resolve path

/-- The number of the provider that owns a path. A registry that is not there owns nothing, which the
number after the last provider says. -/
def owner (world : World) (registry : Nat) (path : Text) : Nat :=
  ((world.owner? registry path).map Member.id).getD world.providers.length

/-! ### Calls on a part of the world -/

/-- Makes a call on a drive. -/
def onDrive {α : Type} (id : Nat) (drive : Drive) (call : Call (Drive × TokenSource) α) :
    Call World α :=
  Call.within (fun world => (drive, world.tokens))
    (fun s world => { setBacking id (.memory s.1) world with tokens := s.2 }) call

/-- Makes a call on the disk. -/
def onDisk {α : Type} (call : Call (Disk × TokenSource) α) : Call World α :=
  Call.within (fun world => (world.disk, world.tokens))
    (fun s world => { world with disk := s.1, tokens := s.2 }) call

/-- Asks a script, and opens the stream that it may answer with. -/
def onScript (id : Nat) (script : Script) (given : Given) (request : Request) :
    Call World (request.Reply Handle) := do
  let recorded := if Script.isSilent request then [] else [.request script.label given request]
  let (result, script) := script.respond request
  Call.change fun world =>
    { setBacking id (.scripted script) world with events := world.events ++ recorded }
  let reply ← Call.ofExcept result
  let streams := (← get).streams
  let opened := (request.handle? reply).map ScriptedStream.start
  Call.change fun world => { world with streams := world.streams ++ opened.toList }
  pure (request.mapHandle (fun _ => .scripted streams.length) reply)

/-! ### Requests -/

/-- The failure of a request to a provider that does not exist. -/
def missingProvider : Failure := .missingKey "provider".toList

/-- A request to the provider with a number, handed on at most a given number of times. The optional
arguments that were stated matter to the record of a script only. -/
def performWithin : Nat → Given → Nat → (request : Request) → Call World (request.Reply Handle)
  | 0, _, _, _ => throw .endless
  | limit + 1, given, id, request => do
    let world ← get
    match world.provider? id with
    | none => throw missingProvider
    | some ⟨scheme, _, _, backing⟩ =>
      match backing with
      | .disk => request.mapHandle .disk <$> onDisk (Disk.perform request)
      | .memory drive =>
        request.mapHandle (.memory id) <$> onDrive id drive (Drive.perform (millis world.clock) request)
      | .scripted script => onScript id script given request
      | .view registry readOnly =>
        let next := fun id request => performWithin limit .all id request
        if readOnly then View.guarded scheme (world.owner registry) next request
        else View.forward scheme (world.owner registry) next request

/-- How often a request for a path can be handed on. Between two views that take their scheme off the
path, each provider is met at most once. -/
def handOverLimit (world : World) (path : Text) : Nat :=
  (path.length + 1) * (world.providers.length + 1)

/-- A request to the provider with a number. -/
def performAt (given : Given) (id : Nat) (request : Request) : Call World (request.Reply Handle) := do
  performWithin ((← get).handOverLimit request.path) given id request

/-- Why a request cannot be made through a registry, if it cannot: a move needs one owner for both
paths. -/
def mismatch? (world : World) (registry : Nat) : Request → Option Failure
  | .move old new _ =>
    if world.owner registry new ≠ world.owner registry old then
      some (.atPath (.mismatch new) old)
    else none
  | _ => none

/-- A request to the owner of its path in a registry. -/
def perform (registry : Nat) (request : Request) : Call World (request.Reply Handle) := do
  let world ← get
  match world.mismatch? registry request with
  | some failure => throw failure
  | none => performAt .all (world.owner registry request.path) request

/-- A request to an open handle. -/
def onHandle (handle : Handle) (request : StreamRequest) : Call World request.Reply := do
  let world ← get
  match handle with
  | .memory id index =>
    match world.drive? id with
    | none => throw missingProvider
    | some drive =>
      onDrive id drive (Drive.plain (Drive.onFile (millis world.clock) index request))
  | .disk index => onDisk (Disk.plain (Disk.onFile index request))
  | .scripted index =>
    match world.streams[index]? with
    | none => throw missingProvider
    | some stream =>
      Call.within (fun world => (stream, world.events))
        (fun s world => { world with streams := world.streams.set index s.1, events := s.2 })
        (ScriptedStream.perform request)

end World

end FileRouter
