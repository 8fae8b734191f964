import FileRouter.Disk.Basic
import FileRouter.Disk.NativePath
import FileRouter.Failure.Conversion
import FileRouter.Request
import FileRouter.Scheme
import FileRouter.Tokens
/-!
The disk as a provider.

A path of the disk may carry the scheme `file` and may begin with `~`; without these it goes to the
operating system as it is. Symbolic links are leaves: a dangling link exists, a link to a directory is
no directory, and deleting a link removes the link itself. What the operating system refuses is
reported as a provider's failure at the path of the request.
-/

namespace FileRouter.Disk

/-- The scheme that a path of the disk may carry. -/
def scheme : Text := "file".toList

/-- The failure of the operating system's calls on a text that it cannot take as a path. -/
def nulFault : Failure := .badValue "embedded null byte".toList

/-- The path that the operating system gets. -/
def nativePath (fs : FileSystem) (path : Text) : Text :=
  NativePath.expanded fs (Scheme.strip path scheme)

/-- Whether a path names a user that nobody can be called. -/
def hasBadUser (path : Text) : Bool :=
  match Scheme.strip path scheme with
  | '~' :: rest => (Text.before '/' rest).contains '\x00'
  | _ => false

/-- The path that the operating system gets, for the tests that answer `false` to every path that it
does not take. -/
def tested (path : Text) : Call Disk Text := do
  if hasBadUser path then throw nulFault
  pure (nativePath (← get).fs path)

/-- The path that the operating system gets, which it has to take. -/
def native (path : Text) : Call Disk Text := do
  let native ← tested path
  if native.contains '\x00' then throw nulFault
  pure native

/-- Puts back the scheme that a path of the disk has carried. -/
def qualified (path native : Text) : Text :=
  if Scheme.has path scheme then Scheme.join scheme native else native

/-- The path for the operating system without trailing slashes; a path of slashes is kept. -/
def trimmedNative (fs : FileSystem) (path : Text) : Text :=
  NativePath.withoutSlashes (nativePath fs path)

/-- A call whose failures in the operating system are reported at a path. -/
def reported {α : Type} (path : Text) (call : Call Disk α) : Call Disk α :=
  call.mapFailure (Failure.reportedAt path)

/-! ### Tests -/

/-- Whether something is at a path, be it a link that leads nowhere. -/
def existsAt (fs : FileSystem) (native : Text) : Bool := (fs.findLink native).isOk

/-- Whether a path leads to a directory, through links too. -/
def leadsToDirectory (fs : FileSystem) (native : Text) : Bool :=
  match fs.find native with
  | .ok key => fs.isDirectory key
  | .error _ => false

/-- Whether a directory is at a path, and not a link to one. -/
def isDirectoryAt (fs : FileSystem) (native : Text) : Bool :=
  leadsToDirectory fs native && (fs.linkAt? native).isNone

/-- The bits that allow writing. -/
def writeBits : Nat := 0o222

/-- Whether what a path leads to may be written by its owner. -/
def isWritable (fs : FileSystem) (native : Text) : Bool :=
  match fs.mode native with
  | .ok mode => mode &&& 0o200 != 0
  | .error _ => false

/-! ### Operations on paths -/

/-- Whether something is at a path. -/
def exists? (path : Text) : Call Disk Bool := do
  let native ← tested path
  pure (existsAt (← get).fs native)

/-- Whether a directory is at a path. -/
def isDirectory (path : Text) : Call Disk Bool := do
  let native ← tested path
  pure (isDirectoryAt (← get).fs native)

/-- Makes a directory; a directory that is there already is left alone. -/
def createDirectory (path : Text) : Call Disk Unit := do
  let tested ← tested path
  if leadsToDirectory (← get).fs tested then pure ()
  else
    let native ← native path
    reported path (alter [native] fun fs => fs.makeDirectory native)

/-- Makes an empty file and tells whether it is new. -/
def createFile (path : Text) : Call Disk Bool := do
  let native ← native path
  match (← get).fs.makeFile native FileSystem.fileMode with
  | .ok (_, fs) =>
    Call.change fun disk => { disk with fs }
    pure true
  | .error .exists => pure false
  | .error fault => throw ((fault.failure [native]).reportedAt path)

/-- Removes a file, a link or an empty directory. -/
def delete (path : Text) : Call Disk Unit := do
  let native ← native path
  let isDirectory := isDirectoryAt (← get).fs native
  reported path (alter [native] fun fs =>
    if isDirectory then fs.removeDirectory native else fs.removeFile native)

/-- Whether a path is read from the working directory, and that is gone. -/
def isStranded (fs : FileSystem) (native : Text) : Bool :=
  native.head? != some '/' && !fs.isDirectory fs.work

/-- The absolute path with all links resolved. Only what is looked at on the way has to be taken by the
operating system; a relative path has none without a working directory. -/
def canonicalPath (path : Text) : Call Disk Text := do
  let native ← tested path
  let fs := (← get).fs
  if (fs.segmentsSeen native).any fun segment => segment.contains '\x00' then throw nulFault
  else if isStranded fs native then throw (Fault.noEntry.failure [])
  else pure (fs.canonical native)

/-- The path of the directory that a path is in; a root and a bare name have none. -/
def parent? (fs : FileSystem) (path : Text) : Option Text :=
  let trimmed := trimmedNative fs path
  let directory := NativePath.directoryPart trimmed
  if directory.isEmpty || directory == trimmed then none else some (qualified path directory)

/-- Gives an entry another name. -/
def move (old new : Text) (replace : Bool) : Call Disk Unit := do
  let source ← tested old
  let target ← tested new
  let fs := (← get).fs
  if !existsAt fs source then throw (.notFound old)
  else if source = target then pure ()
  else if existsAt fs target && !replace then throw (.atPath (.alreadyExists none) new)
  else
    if target.contains '\x00' then throw nulFault
    reported old (alter [source, target] fun fs => fs.rename source target)

/-- The paths of the entries of a directory, in the order of their names. -/
def listFiles (path : Text) : Call Disk (List Text) := do
  let native ← native path
  let names ← reported path (ask [native] fun fs => fs.list native)
  pure (names.map (NativePath.joined path))

/-- Takes away the permission to write; tells whether that was possible. -/
def setReadOnly (path : Text) : Call Disk Bool := do
  let native ← native path
  let fs := (← get).fs
  match fs.mode native with
  | .error _ => pure false
  | .ok mode =>
    match fs.setMode native (mode - (mode &&& writeBits)) with
    | .error _ => pure false
    | .ok fs =>
      Call.change fun disk => { disk with fs }
      pure true

/-! ### Opening files -/

/-- Opens a file for reading. -/
def openInput (path : Text) : Call Disk Nat := do
  let native ← native path
  let body ← reported path (ask [native] fun fs => fs.openBody native)
  addFile body .reader 0

/-- The body of a file that is to be written, which is made when it is missing. -/
def bodyForWriting (path : Text) : Call Disk Nat := do
  let native ← native path
  let (body, fs) ← reported path (ask [native] fun fs => fs.openOrMake native)
  Call.change fun disk => { disk with fs }
  pure body

/-- Opens a file for writing: at its end, or emptied. -/
def openOutput (path : Text) (append : Bool) : Call Disk Nat := do
  let body ← bodyForWriting path
  if append then addFile body (.writer true) ((← get).fs.bytesOf body).length
  else
    Call.change fun disk =>
      { disk with fs := disk.fs.changeBody body fun b => { b with bytes := [] } }
    addFile body (.writer false) 0

/-- Opens a file in a mode given by its name. The synchronous modes go without a buffer. -/
def openHandle (path mode : Text) : Call Disk Nat := do
  let mode ← Call.ofExcept (HandleMode.parse mode path)
  let tested ← tested path
  if leadsToDirectory (← get).fs tested then throw (.refused .cannotOpenDirectory path)
  else if mode.writes then
    let body ← bodyForWriting path
    addFile body (if mode.isSync then .direct else .update) 0
  else openInput path

/-! ### Fresh names -/

/-- How many names are tried at most. -/
def searchLimit : Nat := 10000

/-- What comes of making a file that only its owner may use. -/
def makePrivate (fs : FileSystem) (native : Text) : Except Failure FileSystem :=
  if native.contains '\x00' then .error nulFault
  else
    match fs.makeFile native FileSystem.privateMode with
    | .ok (_, fs) => .ok fs
    | .error fault => .error (fault.failure [native])

/-- Whether an outcome says that a name is taken. -/
def isTaken : Except Failure FileSystem → Bool
  | .error (.system error) => error.kind = .exists
  | _ => false

/-- Makes an empty file whose name begins and ends as given, with a token in between that makes it
new; beside the place that `start` names, or in the directory for temporary files. -/
def createTemp (start ending : Text) (deleteOnExit inTempDir : Bool) :
    Call (Disk × TokenSource) Text := do
  let native ← Call.within Prod.fst (fun disk s => (disk, s.2)) (tested start)
  let (disk, tokens) ← get
  let fs := disk.fs
  let beside := if inTempDir then fs.temp else NativePath.directoryPart native
  let directory := NativePath.absolute fs.work (if beside.isEmpty then Key.here else beside)
  let candidate := fun token =>
    NativePath.joined directory (NativePath.lastPart native ++ token ++ ending)
  let (token?, tokens) :=
    tokens.search (fun token => !isTaken (makePrivate fs (candidate token))) searchLimit
  set (disk, tokens)
  match token? with
  | none => throw (.atPath (.alreadyExists none) start)
  | some token =>
    match makePrivate fs (candidate token) with
    | .error failure => throw (failure.reportedAt start)
    | .ok fs =>
      let leftovers :=
        if deleteOnExit then disk.leftovers ++ [candidate token] else disk.leftovers
      set ({ disk with fs, leftovers }, tokens)
      pure (qualified start (candidate token))

/-! ### All requests -/

/-- A call that leaves the tokens alone. -/
def plain {α : Type} (call : Call Disk α) : Call (Disk × TokenSource) α :=
  Call.within Prod.fst (fun disk s => (disk, s.2)) call

/-- Looks at the file system with the path that the operating system gets. -/
def seen {α : Type} (path : Text) (f : FileSystem → Text → α) : Call (Disk × TokenSource) α :=
  plain do
    let native ← tested path
    pure (f (← get).fs native)

/-- Asks the file system about a path; a fault is reported at it. -/
def asked {α : Type} (path : Text) (f : FileSystem → Text → Except Fault α) :
    Call (Disk × TokenSource) α :=
  plain do
    let native ← native path
    reported path (ask [native] fun fs => f fs native)

/-- The number of nanoseconds in a millisecond. -/
def nanosPerMilli : Int := 1000000

/-- Answers a request; a handle is answered by its index. -/
def perform : (request : Request) → Call (Disk × TokenSource) (request.Reply Nat)
  | .exists path => plain (exists? path)
  | .createDirectory path => plain (createDirectory path)
  | .createFile path => plain (createFile path)
  | .delete path => plain (delete path)
  | .canonicalPath path => plain (canonicalPath path)
  | .parent path => seen path fun fs _ => parent? fs path
  | .isAbsolute path => seen path fun _ native => native.head? == some '/'
  | .move old new replace => plain (move old new replace)
  | .name path => seen path fun fs _ => NativePath.lastPart (trimmedNative fs path)
  | .listFiles path => plain (listFiles path)
  | .lastModified path => (fun time => time / nanosPerMilli) <$> asked path FileSystem.modified
  | .size path => (fun (size : Nat) => (size : Int)) <$> asked path FileSystem.size
  | .isDirectory path => plain (isDirectory path)
  | .openHandle path mode => plain (openHandle path mode)
  | .openInput path => plain (openInput path)
  | .openOutput path append => plain (openOutput path append)
  | .canWrite path => plain do
    let native ← native path
    pure (isWritable (← get).fs native)
  | .isReadOnly path => seen path fun fs native =>
    (fs.find native).isOk && !isWritable fs native
  | .setReadOnly path => plain (setReadOnly path)
  | .unwrap path => Call.look fun _ => Scheme.strip path scheme
  | .startsWith path start => plain do
    let native ← tested path
    let start ← tested start
    pure (start.isPrefixOf native)
  | .createTemp start ending deleteOnExit inTempDir =>
    createTemp start ending deleteOnExit inTempDir

end FileRouter.Disk
