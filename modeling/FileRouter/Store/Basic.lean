import FileRouter.Request
/-!
Stores: one surface over all providers.

A store knows the owner of every path, answers requests and serves the handles that it has given out.
What is built on a store uses nothing else, so it does the same for every provider.
-/

namespace FileRouter

/-- A surface over the providers in a state `σ`, with handles `η`: which provider owns a path, and what
requests to paths and to handles do. -/
structure Store (σ η : Type) where
  owner : σ → Text → Nat
  perform : (request : Request) → Call σ (request.Reply η)
  onHandle : η → (request : StreamRequest) → Call σ request.Reply

namespace Store

variable {σ η : Type} (store : Store σ η)

/-- Whether something is at a path. -/
def exists? (path : Text) : Call σ Bool := store.perform (.exists path)

/-- Whether a directory is at a path. -/
def isDirectory (path : Text) : Call σ Bool := store.perform (.isDirectory path)

/-- Whether what is at a path is protected against writing. -/
def isReadOnly (path : Text) : Call σ Bool := store.perform (.isReadOnly path)

/-- The paths of the entries of a directory. -/
def listFiles (path : Text) : Call σ (List Text) := store.perform (.listFiles path)

/-- The path of the directory that a path is in. -/
def parent? (path : Text) : Call σ (Option Text) := store.perform (.parent path)

/-- The one path that stands for all ways to write a path. -/
def canonicalPath (path : Text) : Call σ Text := store.perform (.canonicalPath path)

/-- Makes a directory. -/
def createDirectory (path : Text) : Call σ Unit := store.perform (.createDirectory path)

/-- Removes a file or an empty directory. -/
def delete (path : Text) : Call σ Unit := store.perform (.delete path)

/-- The time when a path was last written, in milliseconds. -/
def lastModified (path : Text) : Call σ Int := store.perform (.lastModified path)

/-- Opens a file for reading. -/
def openInput (path : Text) : Call σ η := store.perform (.openInput path)

/-- Opens a file for writing: at its end, or emptied. -/
def openOutput (path : Text) (append : Bool) : Call σ η := store.perform (.openOutput path append)

/-- Reads from a handle. -/
def read (handle : η) (count : Option Int) : Call σ Bytes := store.onHandle handle (.read count)

/-- Writes to a handle; answers the number of bytes. -/
def write (handle : η) (data : Bytes) : Call σ Nat := store.onHandle handle (.write data)

/-- Closes a handle. -/
def close (handle : η) : Call σ Unit := store.onHandle handle .close

end Store

end FileRouter
