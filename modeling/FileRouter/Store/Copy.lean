import FileRouter.Store.Basic
/-!
Copying the content of a file.

`copyStream` carries chunks from a source to a sink until a chunk is empty. `copy` opens both, the source
first, and closes whatever it has opened, the sink first, however the copying ends. It refuses two paths
that one provider takes for the same file.
-/

namespace FileRouter

/-- Carries chunks until one is empty; answers the number of bytes. It ends with the failure `endless`
after a given number of chunks. -/
def copyStream {σ : Type} (read : Call σ Bytes) (write : Bytes → Call σ Unit) :
    Nat → Call σ Nat
  | 0 => throw .endless
  | chunks + 1 => do
    let chunk ← read
    if chunk.isEmpty then pure 0
    else
      write chunk
      let rest ← copyStream read write chunks
      pure (chunk.length + rest)

namespace Store

variable {σ η : Type} (store : Store σ η)

/-- The number of bytes that are read at a time, if nothing else is said. -/
def defaultChunk : Int := 8192

/-- Uses a handle and closes it, however the use ends. -/
def closing {α : Type} (handle : η) (use : Call σ α) : Call σ α :=
  Call.ensuring use (store.close handle)

/-- Refuses two paths that one provider takes for the same file. -/
def checkDistinct (path target : Text) : Call σ Unit := do
  let s ← get
  if store.owner s target = store.owner s path then
    let canonical ← store.canonicalPath path
    if canonical = (← store.canonicalPath target) then
      throw (.refused .copyOntoItself target)

/-- Copies the content of a file into another, which is made or emptied; answers the number of bytes. -/
def copy (chunks : Nat) (path target : Text) (chunkSize : Int) : Call σ Nat := do
  store.checkDistinct path target
  let source ← store.openInput path
  store.closing source do
    let sink ← store.openOutput target false
    store.closing sink
      (copyStream (store.read source (some chunkSize)) (fun data => discard (store.write sink data))
        chunks)

end Store

end FileRouter
