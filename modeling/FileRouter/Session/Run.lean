import FileRouter.Failure.Conversion
import FileRouter.Session.Step
import FileRouter.World.Display
/-!
Running a session.

A session is a world with a registry of its own, the labels of its providers, the names of its open
handles, and two catalogs of makers: its own, and the one that is shared. The shared store is made when
it is first asked for. `Session.run` takes steps one after the other; a step that fails leaves the
session as far as it got, and the next one goes on from there.
-/

namespace FileRouter

/-- A world in use. Labels and names are listed with the latest first. -/
structure Session where
  world : World
  labels : List (Text × Nat)
  handles : List (Text × Handle)
  registry : Nat
  makers : Makers
  sharedMakers : Makers
  sharedNumber : Option Nat

namespace Session

/-- A session in a world, before it has a registry. -/
def fresh (world : World) : Session :=
  ⟨world, [], [], world.registries.length, .builtIn, .builtIn, none⟩

/-- Makes a call on the world of a session. -/
def inWorld {α : Type} (call : Call World α) : Call Session α :=
  Call.within Session.world (fun world session => { session with world }) call

/-- The failure for a label or a name that nothing has. -/
def unknownName (name : Text) : Failure := .missingKey name

/-- The number of the provider with a label. -/
def labelled (label : Text) : Call Session Nat := do
  match (← get).labels.find? fun entry => entry.1 = label with
  | some entry => pure entry.2
  | none => throw (unknownName label)

/-- The handle with a name. -/
def handle (name : Text) : Call Session Handle := do
  match (← get).handles.find? fun entry => entry.1 = name with
  | some entry => pure entry.2
  | none => throw (unknownName name)

/-! ### Providers and registries -/

/-- Adds a provider of a kind to the world, for a registry. -/
def make (registry : Nat) (scheme label : Option Text) : ProviderKind → Call World Nat
  | .disk => World.addDisk
  | .memory => World.addMemory (scheme.getD World.memoryScheme)
  | .view => World.addView (scheme.getD []) registry false
  | .readOnlyView => World.addView (scheme.getD World.readOnlyScheme) registry true
  | .scripted leading rules =>
    let scheme := scheme.getD []
    let claim := (leading.map Claim.leading).getD .ownScheme
    World.addScripted scheme claim ⟨label.getD scheme, rules⟩

/-- The number of the provider that is meant, which is made for a registry if it is new. A new provider
takes its label over from the one that has had it. -/
def provide (registry : Nat) : ProviderPlan → Call Session Nat
  | .known label => labelled label
  | .fresh kind scheme label => do
    let id ← inWorld (make registry scheme label kind)
    let member ← inWorld (World.member id)
    let label := label.getD member.scheme
    inWorld (World.setLabel id label)
    Call.change fun session => { session with labels := (label, id) :: session.labels }
    pure id

/-- The number of the provider that is meant, if one is. -/
def provideIf (registry : Nat) : Option ProviderPlan → Call Session (Option Nat)
  | none => pure none
  | some plan => some <$> provide registry plan

/-- The disk, under the label it has when nothing else is said. -/
def usualFallback : ProviderPlan := .fresh .disk none (some "disk".toList)

/-- Makes the shared registry; answers its number. -/
def makeShared : Call Session Nat := do
  let registry ← inWorld ((← get).sharedMakers.build Makers.usualSpecs none)
  Call.change fun session => { session with sharedNumber := some registry }
  pure registry

/-- The number of the shared registry, which is made when it is first asked for. -/
def shared : Call Session Nat := do
  match (← get).sharedNumber with
  | some registry => pure registry
  | none => makeShared

/-- Makes the registry that a session begins with. -/
def begin (plan : RegistryPlan) : Call Session Unit := do
  let next := (← get).world.registries.length
  let registry ←
    match plan with
    | .shared => shared
    | .specs specs fallback =>
      let fallback ← provideIf next fallback
      inWorld ((← get).makers.build specs fallback)
    | .listed members fallback =>
      let fallback ← provide next (fallback.getD usualFallback)
      let registry ← inWorld (World.addRegistry fallback)
      members.forM fun plan => do
        let id ← provide registry plan
        inWorld (World.register registry id)
      pure registry
  Call.change fun session => { session with registry }

/-- The session's registry at a glance. -/
def summary : Call Session RegistrySummary := do
  let session ← get
  let registry ← inWorld (World.registry session.registry)
  pure
    { size := registry.members.length
      schemes := registry.schemes
      display := session.world.displayRegistry registry
      members := registry.members.map fun member => session.world.called member.id
      fallback := session.world.called registry.fallback.id }

/-- Puts a maker into the session's catalog or the shared one. -/
def registerMaker (name : Text) (maker : Option Maker) (isShared : Bool) : Call Session Unit := do
  let session ← get
  let makers := if isShared then session.sharedMakers else session.makers
  let makers ← Call.ofExcept (makers.register name maker)
  Call.change fun session =>
    if isShared then { session with sharedMakers := makers } else { session with makers }

/-- Makes a registry of specs and looks up the owners of paths in it. -/
def build (specs : List Text) (fallback : Option ProviderPlan) (isShared : Bool)
    (paths : List Text) : Call Session StepResult := do
  let fallback ← provideIf (← get).registry fallback
  let session ← get
  let makers := if isShared then session.sharedMakers else session.makers
  let registry ← inWorld (makers.build specs fallback)
  let registry ← inWorld (World.registry registry)
  let world := (← get).world
  pure (.built (world.displayRegistry registry) registry.members.length
    (paths.map fun path => world.display (registry.resolve path).id))

/-- Looks at the shared store. -/
def lookAtShared (change : SharedChange) : Call Session StepResult := do
  match change with
  | .none => pure ()
  | .take => Call.change fun session => { session with sharedNumber := some session.registry }
  | .forget => Call.change fun session => { session with sharedNumber := none }
  let first ← shared
  let second ← shared
  let registry ← inWorld (World.registry first)
  pure (.sharedStore (first = (← get).registry) (first = second) registry.schemes)

/-! ### The host behind the store -/

/-- Changes the file system directly. -/
def onHost (paths : List Text) (f : Disk.FileSystem → Except Disk.Fault Disk.FileSystem) :
    Call Session Unit :=
  if paths.any fun path => path.contains '\x00' then throw Disk.nulFault
  else inWorld (World.onDisk (Disk.plain (Disk.alter paths f)))

/-- Permission bits in octal digits. -/
def octal (mode : Nat) : Text :=
  let digits := Nat.toDigits 8 mode
  List.replicate (4 - digits.length) '0' ++ digits

/-- The permission bits of what a path leads to. -/
def mode (path : Text) : Call Session Text := do
  if path.contains '\x00' then throw Disk.nulFault
  octal <$> inWorld (World.onDisk (Disk.plain (Disk.ask [path] fun fs => fs.mode path)))

/-! ### Steps -/

/-- The store that a step goes to: the session's, or the one of a single provider. -/
def storeOf (on : Option Text) : Call Session (Store World Handle) := do
  match on with
  | none => pure (World.store (← get).registry)
  | some label => pure (World.storeAt (← labelled label))

/-- Makes a request to the session's store or to a single provider. -/
def request (on : Option Text) (given : Given) (request : Request) :
    Call Session (request.Reply Handle) := do
  match on with
  | none => inWorld (World.perform (← get).registry request)
  | some label =>
    let id ← labelled label
    inWorld (World.performAt given id request)

/-- Takes a step. -/
def take : Step → Call Session StepResult
  | .ask on given r => StepResult.ofReply r <$> request on given r
  | .openAs on given r name => do
    let reply ← request on given r
    match r.handle? reply with
    | none => pure .nothing
    | some handle =>
      Call.change fun session => { session with handles := (name, handle) :: session.handles }
      pure (.handle name)
  | .accepts on path => do
    let member ← inWorld (World.member (← labelled on))
    pure (.flag (member.accepts path))
  | .deleteRecursive path tryOnly => do
    inWorld (World.deleteRecursive (← get).registry path tryOnly)
    pure .nothing
  | .createDirectories path => do
    inWorld (World.createDirectories (← get).registry path)
    pure .nothing
  | .copy source target chunkSize => do
    let count ← inWorld (World.copy (← get).registry source target chunkSize)
    pure (.number count)
  | .tryDelete path => do
    pure (.flag (← inWorld ((World.store (← get).registry).tryDelete path)))
  | .attemptDelete path => do
    pure (.deletion (← inWorld ((World.store (← get).registry).attemptDelete path)))
  | .resolve path => do
    let session ← get
    pure (.text (session.world.called (session.world.owner session.registry path)))
  | .display none => do
    let session ← get
    let registry ← inWorld (World.registry session.registry)
    pure (.text (session.world.displayStore registry))
  | .display (some label) => do
    let id ← labelled label
    pure (.text ((← get).world.display id))
  | .writeAll on path data append => do
    let store ← storeOf on
    let count ← inWorld (store.writeAll path data append)
    pure (.number count)
  | .readAll on path => do
    let store ← storeOf on
    pure (.bytes (← inWorld (store.readAll path)))
  | .dump on path withTimes => do
    let store ← storeOf on
    let levels := (← get).world.levels
    pure (.glimpses (← inWorld (store.dump withTimes levels path)))
  | .register plan => do
    let id ← provide (← get).registry plan
    inWorld (World.register (← get).registry id)
    pure .nothing
  | .unregister scheme => do
    let id ← inWorld (World.unregister (← get).registry scheme)
    pure (.text ((← get).world.called id))
  | .get scheme => do
    let registry ← inWorld (World.registry (← get).registry)
    let member ← Call.ofExcept (registry.get scheme)
    pure (.text ((← get).world.called member.id))
  | .contains scheme => do
    let registry ← inWorld (World.registry (← get).registry)
    pure (.flag (scheme.any registry.contains))
  | .setFallback plan => do
    let id ← provide (← get).registry plan
    inWorld (World.setFallback (← get).registry id)
    pure .nothing
  | .summary => StepResult.summary <$> summary
  | .registerShared plan => do
    let registry ← shared
    let id ← provide registry plan
    inWorld (World.register registry id)
    pure .nothing
  | .resolveShared path => do
    let registry ← shared
    let world := (← get).world
    pure (.text (world.called (world.owner registry path)))
  | .sharedStore change => lookAtShared change
  | .registerMaker name maker isShared => do
    registerMaker name maker isShared
    pure .nothing
  | .makerNames => do pure (.texts (← get).makers.names)
  | .create spec => do
    let session ← get
    let id ← inWorld (session.makers.create session.registry spec)
    match (← get).world.provider? id with
    | none => throw World.missingProvider
    | some provider => pure (.made provider.backing.word provider.scheme provider.display)
  | .build specs fallback isShared paths => build specs fallback isShared paths
  | .setClock clock => do
    inWorld (Call.change fun world => { world with clock })
    pure .nothing
  | .removeLeftovers => do
    let count := (← get).world.disk.leftovers.length
    inWorld (Call.change fun world => { world with disk := world.disk.removeLeftovers })
    pure (.number count)
  | .link target path => do
    onHost [target, path] fun fs => fs.makeLink target path
    pure .nothing
  | .setModified path time => do
    onHost [path] fun fs => fs.setModified path time
    pure .nothing
  | .setMode path mode => do
    onHost [path] fun fs => fs.setMode path mode
    pure .nothing
  | .mode path => StepResult.text <$> mode path
  | .onHandle name r => do
    let handle ← handle name
    StepResult.ofStreamReply r <$> inWorld (World.onHandle handle r)

/-- Takes a step whose failures may be shown as those of the operating system. -/
def takeAs (asSystem : Bool) (step : Step) : Call Session StepResult :=
  if asSystem then (take step).mapFailure Failure.forSystem else take step

/-- The events since they were last collected, and the session without them. -/
def collect (session : Session) : List Event × Session :=
  (session.world.events, { session with world := { session.world with events := [] } })

/-- Takes steps one after the other; answers the outcome of each with the events that happened. -/
def run : List (Bool × Step) → Session → List (Except Failure StepResult × List Event)
  | [], _ => []
  | (asSystem, step) :: steps, session =>
    let (result, session) := (takeAs asSystem step).outcome session
    let (events, session) := collect session
    (result, events) :: run steps session

/-- Begins a session in a world and takes steps; the failure is that of beginning. -/
def play (world : World) (plan : RegistryPlan) (steps : List (Bool × Step)) :
    Except Failure (List (Except Failure StepResult × List Event)) :=
  match (begin plan).outcome (fresh world) with
  | (.error failure, _) => .error failure
  | (.ok (), session) => .ok (run steps session)

end Session

end FileRouter
