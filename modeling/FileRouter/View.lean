import FileRouter.Request
import FileRouter.Scheme
/-!
Views: providers that serve the paths of others under a scheme of their own.

A view named `v` claims the paths `v:p` and serves them by the owner of `p`, which may be a view again.
Every path that goes in loses the scheme, every path that comes out gets it back; names, and paths
without any view, come out as they are. A read-only view refuses whatever could change something, and
says of everything that exists that it is read-only.

The owner of a path and the call to it are parameters, so views say nothing about what lies behind
them.
-/

namespace FileRouter.View

variable {σ η : Type}

/-- Hands a request on to the owner of its path without the view's scheme. -/
def forward (scheme : Text) (owner : Text → Nat)
    (next : Nat → (request : Request) → Call σ (request.Reply η)) (request : Request) :
    Call σ (request.Reply η) :=
  let inner := fun path => Scheme.strip path scheme
  let outer := fun path => Scheme.join scheme path
  let provider := owner (inner request.path)
  match request with
  | .exists path => next provider (.exists (inner path))
  | .createDirectory path => next provider (.createDirectory (inner path))
  | .createFile path => next provider (.createFile (inner path))
  | .delete path => next provider (.delete (inner path))
  | .canonicalPath path => do
    let (canonical : Text) ← next provider (.canonicalPath (inner path))
    pure (outer canonical)
  | .parent path => do
    let (parent : Option Text) ← next provider (.parent (inner path))
    pure (parent.map outer)
  | .isAbsolute path => next provider (.isAbsolute (inner path))
  | .move old new replace => do
    if owner (inner new) ≠ provider then throw (.atPath (.mismatch new) old)
    next provider (.move (inner old) (inner new) replace)
  | .name path => next provider (.name (inner path))
  | .listFiles path => do
    let (entries : List Text) ← next provider (.listFiles (inner path))
    pure (entries.map outer)
  | .lastModified path => next provider (.lastModified (inner path))
  | .size path => next provider (.size (inner path))
  | .isDirectory path => next provider (.isDirectory (inner path))
  | .openHandle path mode => next provider (.openHandle (inner path) mode)
  | .openInput path => next provider (.openInput (inner path))
  | .openOutput path append => next provider (.openOutput (inner path) append)
  | .canWrite path => next provider (.canWrite (inner path))
  | .isReadOnly path => next provider (.isReadOnly (inner path))
  | .setReadOnly path => next provider (.setReadOnly (inner path))
  | .unwrap path => next provider (.unwrap (inner path))
  | .startsWith path start => next provider (.startsWith (inner path) (inner start))
  | .createTemp start ending deleteOnExit inTempDir => do
    let (created : Text) ← next provider (.createTemp (inner start) ending deleteOnExit inTempDir)
    pure (outer created)

/-- The failure of every change through a read-only view. -/
def readOnlyFault (path : Text) : Failure :=
  .denied "Read-only provider".toList path

/-- Hands a request on if it changes nothing, and refuses it otherwise. -/
def guarded (scheme : Text) (owner : Text → Nat)
    (next : Nat → (request : Request) → Call σ (request.Reply η)) :
    (request : Request) → Call σ (request.Reply η)
  | .createDirectory path => throw (readOnlyFault path)
  | .createFile path => throw (readOnlyFault path)
  | .delete path => throw (readOnlyFault path)
  | .move old _ _ => throw (readOnlyFault old)
  | .openHandle path mode => do
    let parsed ← Call.ofExcept (HandleMode.parse mode path)
    if parsed.writes then throw (readOnlyFault path)
    forward scheme owner next (.openHandle path mode)
  | .openOutput path _ => throw (readOnlyFault path)
  | .canWrite _ => Call.look fun _ => false
  | .isReadOnly path => forward scheme owner next (.exists path)
  | .setReadOnly path => forward scheme owner next (.exists path)
  | .createTemp start _ _ _ => throw (readOnlyFault start)
  | request => forward scheme owner next request

end FileRouter.View
