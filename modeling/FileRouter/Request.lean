import FileRouter.Bytes.Cursor
import FileRouter.Call
/-!
Requests: what can be asked of a provider, and of an open handle.

`Request` lists the primitive operations on paths and `StreamRequest` those on a handle. The answer of
a request has a type of its own, `Request.Reply`, in which `η` stands for the handles that opening a
file gives; `StreamRequest.Reply` does the same for handles.
-/

namespace FileRouter

/-- The modes of a random access handle. The synchronous ones store every write at once. -/
inductive HandleMode where
  | read
  | readWrite
  /-- Content and metadata are stored with every write. -/
  | syncAll
  /-- Content is stored with every write. -/
  | syncContent
  deriving Repr, DecidableEq

namespace HandleMode

/-- How a mode is written. -/
def name : HandleMode → Text
  | read => ['r']
  | readWrite => ['r', 'w']
  | syncAll => ['r', 'w', 's']
  | syncContent => ['r', 'w', 'd']

/-- Every mode, in the order in which messages list them. -/
def all : List HandleMode := [read, readWrite, syncAll, syncContent]

/-- Reads a mode; a text that is none is refused at the given path. -/
def parse (text path : Text) : Except Failure HandleMode :=
  match all.find? fun mode => mode.name == text with
  | some mode => .ok mode
  | none => .error (.refused (.unsupportedMode text) path)

/-- Whether a handle in this mode can write. -/
def writes (mode : HandleMode) : Bool := mode != read

/-- Whether every write is stored at once. -/
def isSync (mode : HandleMode) : Bool := mode == syncAll || mode == syncContent

end HandleMode

/-- The primitive operations of a provider, each with its arguments. -/
inductive Request where
  | exists (path : Text)
  | createDirectory (path : Text)
  | createFile (path : Text)
  | delete (path : Text)
  | canonicalPath (path : Text)
  | parent (path : Text)
  | isAbsolute (path : Text)
  | move (old new : Text) (replace : Bool)
  | name (path : Text)
  | listFiles (path : Text)
  | lastModified (path : Text)
  | size (path : Text)
  | isDirectory (path : Text)
  | openHandle (path mode : Text)
  | openInput (path : Text)
  | openOutput (path : Text) (append : Bool)
  | canWrite (path : Text)
  | isReadOnly (path : Text)
  | setReadOnly (path : Text)
  | unwrap (path : Text)
  | startsWith (path start : Text)
  | createTemp (start ending : Text) (deleteOnExit inTempDir : Bool)
  deriving Repr, DecidableEq

namespace Request

/-- The path that chooses the provider of a request: its first argument. -/
def path : Request → Text
  | .exists path | createDirectory path | createFile path | delete path | canonicalPath path
  | parent path | isAbsolute path | move path _ _ | name path | listFiles path
  | lastModified path | size path | isDirectory path | openHandle path _ | openInput path
  | openOutput path _ | canWrite path | isReadOnly path | setReadOnly path | unwrap path
  | startsWith path _ | createTemp path _ _ _ => path

/-- The type of the answer to a request. -/
abbrev Reply (η : Type) : Request → Type
  | .exists _ | createFile _ | isAbsolute _ | isDirectory _ | canWrite _ | isReadOnly _
  | setReadOnly _ | startsWith _ _ => Bool
  | createDirectory _ | delete _ | move _ _ _ => Unit
  | canonicalPath _ | name _ | unwrap _ | createTemp _ _ _ _ => Text
  | parent _ => Option Text
  | listFiles _ => List Text
  | lastModified _ | size _ => Int
  | openHandle _ _ | openInput _ | openOutput _ _ => η

/-- An answer with the handle in it, if there is one, changed. -/
def mapHandle {η η' : Type} (f : η → η') : (request : Request) → request.Reply η → request.Reply η'
  | openHandle _ _, handle => f handle
  | openInput _, handle => f handle
  | openOutput _ _, handle => f handle
  | .exists _, answer | createFile _, answer | isAbsolute _, answer | isDirectory _, answer
  | canWrite _, answer | isReadOnly _, answer | setReadOnly _, answer | startsWith _ _, answer
  | createDirectory _, answer | delete _, answer | move _ _ _, answer | canonicalPath _, answer
  | name _, answer | unwrap _, answer | createTemp _ _ _ _, answer | parent _, answer
  | listFiles _, answer | lastModified _, answer | size _, answer => answer

/-- The handle in an answer, if there is one. -/
def handle? {η : Type} : (request : Request) → request.Reply η → Option η
  | openHandle _ _, handle => some handle
  | openInput _, handle => some handle
  | openOutput _ _, handle => some handle
  | _, _ => none

end Request

/-- The operations on an open handle, each with its arguments. -/
inductive StreamRequest where
  | read (count : Option Int)
  | readLine (limit : Option Int)
  | readLines
  | write (data : Bytes)
  | seek (offset whence : Int)
  | tell
  | truncate (size : Option Int)
  | flush
  | close
  | readable
  | writable
  | seekable
  | closed
  deriving Repr, DecidableEq

namespace StreamRequest

/-- The type of the answer to a request to a handle. -/
abbrev Reply : StreamRequest → Type
  | read _ | readLine _ => Bytes
  | readLines => List Bytes
  | write _ | seek _ _ | tell | truncate _ => Nat
  | flush | close => Unit
  | readable | writable | seekable | closed => Bool

end StreamRequest

end FileRouter
