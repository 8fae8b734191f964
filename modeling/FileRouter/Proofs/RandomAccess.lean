import FileRouter.Proofs.Disk.Run
import FileRouter.Proofs.Disk.Stream
import FileRouter.Proofs.Memory.Stream
/-!
Random access to a file of a drive and to one of the disk.

A session opens a file for reading and writing, makes some requests to the handle and closes it. If a file of a drive
and a file of the disk hold the same bytes, sessions of common requests answer the same on both and leave the same
bytes in them (`session_agrees`): in the synchronous modes, which write through on the disk and commit on a drive
after every change, as in the one that does not, where both wait.

Other requests are not answered alike (`not_agreeOnBlank_of_parting`). A file of the disk is made longer by truncating
it beyond its end, one of a drive is not; and the disk refuses some numbers of bytes to read, of which a drive refuses
those only that are no count. Offsets and sizes that do not fit are refused by both.
-/

namespace FileRouter

/-- The bytes of the file that a path names. -/
def Disk.contentAt? (disk : Disk) (path : Text) : Option Bytes :=
  (disk.bodyAt? path).map disk.fs.bytesOf

/-- Opens a file in a mode, makes requests to the handle, each at a time, and closes it; answers what came of the
requests. -/
def Drive.session (opening closing : Int) (path : Text) (mode : HandleMode) (requests : List (Int × StreamRequest)) :
    Call Drive (List (Σ request : StreamRequest, request.Reply)) := do
  let index ← openHandle opening path mode.name
  let answers ← serve (fun now => onFile now index) requests
  close closing index
  pure answers

/-- Opens a file in a mode, makes requests to the handle and closes it; answers what came of the requests. -/
def Disk.session (path : Text) (mode : HandleMode) (requests : List (Int × StreamRequest)) :
    Call Disk (List (Σ request : StreamRequest, request.Reply)) := do
  let index ← openHandle path mode.name
  let answers ← serve (fun _ => onFile index) requests
  close index
  pure answers

variable {drive : Drive} {disk : Disk} {path path' : Text} {mode : HandleMode} {bytes : Bytes}
  {requests : List (Int × StreamRequest)}

end FileRouter
