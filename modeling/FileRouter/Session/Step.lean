import FileRouter.Makers
import FileRouter.World.Stores
/-!
Steps of a session, and their results.

A step is one thing that a user of the library does: a request to the store or to one provider, an
operation that is built on requests, a change of the registry, or something done to the host behind the
store's back. Providers are named by labels, handles by names.
-/

namespace FileRouter

/-- The kinds of provider that a session can make. -/
inductive ProviderKind where
  | disk
  | memory
  | view
  | readOnlyView
  /-- A scripted provider, with what it claims, if that is not its scheme, and its rules. -/
  | scripted (leading : Option Text) (rules : List Rule)
  deriving Repr, DecidableEq

/-- Which provider is meant: one that has a label already, or a new one, with a scheme and a label. -/
inductive ProviderPlan where
  | known (label : Text)
  | fresh (kind : ProviderKind) (scheme : Option Text) (label : Option Text)
  deriving Repr, DecidableEq

/-- The registry that a session begins with. -/
inductive RegistryPlan where
  /-- Made from specs, with a fallback. -/
  | specs (specs : List Text) (fallback : Option ProviderPlan)
  /-- The registry that is shared by everyone who asks for none. -/
  | shared
  /-- Made of providers in order, with a fallback. -/
  | listed (members : List ProviderPlan) (fallback : Option ProviderPlan)
  deriving Repr, DecidableEq

/-- What happens to the shared store before it is looked at. -/
inductive SharedChange where
  | none
  /-- The session's store becomes the shared one. -/
  | take
  /-- The shared store is forgotten and made anew. -/
  | forget
  deriving Repr, DecidableEq

/-- A step of a session. -/
inductive Step where
  /-- A request to the store, or to the provider with a label. -/
  | ask (on : Option Text) (given : Given) (request : Request)
  /-- A request that opens a handle, which gets a name. -/
  | openAs (on : Option Text) (given : Given) (request : Request) (name : Text)
  | accepts (on path : Text)
  | deleteRecursive (path : Text) (tryOnly : Bool)
  | createDirectories (path : Option Text)
  | copy (source target : Text) (chunkSize : Int)
  | tryDelete (path : Text)
  | attemptDelete (path : Text)
  | resolve (path : Text)
  | display (on : Option Text)
  | writeAll (on : Option Text) (path : Text) (data : Bytes) (append : Bool)
  | readAll (on : Option Text) (path : Text)
  | dump (on : Option Text) (path : Text) (withTimes : Bool)
  | register (plan : ProviderPlan)
  | unregister (scheme : Text)
  | get (scheme : Text)
  /-- Whether something is a registered scheme; what is no text is none. -/
  | contains (scheme : Option Text)
  | setFallback (plan : ProviderPlan)
  | summary
  | registerShared (plan : ProviderPlan)
  | resolveShared (path : Text)
  | sharedStore (change : SharedChange)
  | registerMaker (name : Text) (maker : Option Maker) (shared : Bool)
  | makerNames
  | create (spec : Text)
  | build (specs : List Text) (fallback : Option ProviderPlan) (shared : Bool) (paths : List Text)
  | setClock (time : Int)
  | removeLeftovers
  | link (target path : Text)
  | setModified (path : Text) (time : Int)
  | setMode (path : Text) (mode : Nat)
  | mode (path : Text)
  | onHandle (name : Text) (request : StreamRequest)
  deriving Repr, DecidableEq

/-- A registry at a glance: its size, its schemes, how it is shown, and what its members and its
fallback are called. -/
structure RegistrySummary where
  size : Nat
  schemes : List Text
  display : Text
  members : List Text
  fallback : Text
  deriving Repr, DecidableEq

/-- What a step comes to. -/
inductive StepResult where
  | nothing
  | flag (value : Bool)
  | text (value : Text)
  | optionalText (value : Option Text)
  | texts (values : List Text)
  | number (value : Int)
  | bytes (value : Bytes)
  | lines (values : List Bytes)
  | handle (name : Text)
  | deletion (outcome : DeleteOutcome)
  | glimpses (values : List Glimpse)
  | summary (summary : RegistrySummary)
  /-- Whether the shared store is the session's, whether asking twice gives the same store, and its
  schemes. -/
  | sharedStore (same again : Bool) (schemes : List Text)
  /-- A provider that has been made: its kind, its scheme and how it is shown. -/
  | made (word scheme display : Text)
  /-- A registry that has been made: how it is shown, its size, and the owners of some paths. -/
  | built (display : Text) (size : Nat) (owners : List Text)

namespace StepResult

/-- The result that an answer to a request is. -/
def ofReply : (request : Request) → request.Reply Handle → StepResult
  | .exists _, answer | .createFile _, answer | .isAbsolute _, answer | .isDirectory _, answer
  | .canWrite _, answer | .isReadOnly _, answer | .setReadOnly _, answer
  | .startsWith _ _, answer => .flag answer
  | .createDirectory _, _ | .delete _, _ | .move _ _ _, _ => .nothing
  | .canonicalPath _, answer | .name _, answer | .unwrap _, answer
  | .createTemp _ _ _ _, answer => .text answer
  | .parent _, answer => .optionalText answer
  | .listFiles _, answer => .texts answer
  | .lastModified _, answer | .size _, answer => .number answer
  | .openHandle _ _, _ | .openInput _, _ | .openOutput _ _, _ => .nothing

/-- The result that an answer to a request to a handle is. -/
def ofStreamReply : (request : StreamRequest) → request.Reply → StepResult
  | .read _, answer | .readLine _, answer => .bytes answer
  | .readLines, answer => .lines answer
  | .write _, (answer : Nat) | .seek _ _, (answer : Nat) | .tell, (answer : Nat)
  | .truncate _, (answer : Nat) => .number answer
  | .flush, _ | .close, _ => .nothing
  | .readable, answer | .writable, answer | .seekable, answer | .closed, answer => .flag answer

end StepResult

end FileRouter
