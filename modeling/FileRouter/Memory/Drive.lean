import FileRouter.Memory.Tree
import FileRouter.Request
import FileRouter.Scheme
import FileRouter.Tokens
/-!
Drives: providers that keep their files in memory.

A drive is a tree together with the handles that have been opened on it. A handle works on a copy of
its file and stores that copy back when it is flushed or closed, and after every write in the
synchronous modes; `commit` is that storing, and it fails when the file is gone. Nothing but `commit`,
the creating operations, `delete`, `move` and `setReadOnly` changes the tree.

Operations that stamp an entry take the time of day in milliseconds. They are calls on the drive
alone, except that a search for a fresh name also uses up tokens.
-/

namespace FileRouter

/-- A handle on a file of a drive: where the file is, the copy it works on, what it may do, and
whether it holds changes that have not been stored. -/
structure DriveFile where
  key : Key
  cursor : Cursor
  canWrite : Bool
  appends : Bool
  isSync : Bool
  dirty : Bool
  closed : Bool
  deriving Repr, DecidableEq

/-- A tree, the scheme of its paths, and every handle opened on it so far. -/
structure Drive where
  scheme : Text
  tree : Tree
  files : List DriveFile
  deriving Repr, DecidableEq

namespace Drive

/-- A drive with an empty root. -/
def fresh (scheme : Text) (now : Int) : Drive := ⟨scheme, .fresh now, []⟩

/-- The key that a path of this drive names. -/
def keyOf (drive : Drive) (path : Text) : Key :=
  .ofText (Scheme.strip path drive.scheme)

/-- The path of a key on this drive. -/
def pathOf (drive : Drive) (key : Key) : Text :=
  Scheme.join drive.scheme key.toText

/-- The node that a path names. -/
def node? (drive : Drive) (path : Text) : Option Node :=
  drive.tree.get? (drive.keyOf path)

/-- Why nothing can be created at a key, if its parent is missing or a file. -/
def parentFault? (drive : Drive) (key : Key) (path : Text) : Option Failure :=
  match drive.tree.get? key.parent with
  | none => some (.notFound (drive.pathOf key.parent))
  | some node => if node.isDirectory then none else some (.refused .parentNotDirectory path)

/-- Puts a node at a key. -/
def store (key : Key) (node : Node) : Call Drive Unit :=
  Call.change fun drive => { drive with tree := drive.tree.put key node }

/-- Puts a node at a key where there is none, below a directory. -/
def create (key : Key) (node : Node) (path : Text) : Call Drive Unit := do
  match (← get).parentFault? key path with
  | some failure => throw failure
  | none => store key node

/-! ### Operations on paths -/

/-- Makes a directory; a directory that is there already is left alone. -/
def createDirectory (now : Int) (path : Text) : Call Drive Unit := do
  let drive ← get
  match drive.node? path with
  | none => create (drive.keyOf path) (.newDirectory now) path
  | some node => if node.isDirectory then pure () else throw (.refused .cannotReplaceFile path)

/-- Makes an empty file and tells whether it is new. -/
def createFile (now : Int) (path : Text) : Call Drive Bool := do
  let drive ← get
  match drive.node? path with
  | some _ => pure false
  | none =>
    create (drive.keyOf path) (.newFile now) path
    pure true

/-- Removes a file or an empty directory. -/
def delete (path : Text) : Call Drive Unit := do
  let drive ← get
  let key := drive.keyOf path
  match drive.tree.get? key with
  | none => throw (.notFound path)
  | some node =>
    if key = [] then throw (.denied "Cannot delete the root".toList path)
    else if node.readOnly then throw (.denied "File is read-only".toList path)
    else if node.isDirectory && !drive.tree.isEmptyAt key then
      throw (.atPath .directoryNotEmpty path)
    else Call.change fun drive => { drive with tree := drive.tree.erase key }

/-- Why an entry may not be moved, if it may not. -/
def moveFault? (drive : Drive) (old new : Text) (replace : Bool) : Option Failure :=
  let source := drive.keyOf old
  let target := drive.keyOf new
  if source = [] then some (.denied "Cannot move the root".toList old)
  else if target.isBelow source then some (.refused .moveIntoItself new)
  else
    match drive.tree.get? target with
    | none => drive.parentFault? target new
    | some node =>
      if !replace then some (.atPath (.alreadyExists none) new)
      else if node.isDirectory && !drive.tree.isEmptyAt target then
        some (.atPath .directoryNotEmpty new)
      else drive.parentFault? target new

/-- Gives an entry, with everything below it, another place. -/
def move (old new : Text) (replace : Bool) : Call Drive Unit := do
  let drive ← get
  let source := drive.keyOf old
  let target := drive.keyOf new
  if !drive.tree.has source then throw (.notFound old)
  else if source = target then pure ()
  else
    match drive.moveFault? old new replace with
    | some failure => throw failure
    | none => Call.change fun drive => { drive with tree := drive.tree.rename source target }

/-- The paths of the entries of a directory, in the order of their names. -/
def listFiles (path : Text) : Call Drive (List Text) := do
  let drive ← get
  let key := drive.keyOf path
  match drive.tree.get? key with
  | none => throw (.notFound path)
  | some node =>
    if node.isDirectory then
      pure ((drive.tree.childrenNames key).map fun name => drive.pathOf (key ++ [name]))
    else throw (.refused .notADirectory path)

/-- The node that a path names, which has to be there. -/
def node (path : Text) : Call Drive Node := do
  match (← get).node? path with
  | none => throw (.notFound path)
  | some node => pure node

/-- Protects an entry against writing and tells whether there is one. -/
def setReadOnly (path : Text) : Call Drive Bool := do
  let drive ← get
  match drive.node? path with
  | none => pure false
  | some node =>
    store (drive.keyOf path) { node with readOnly := true }
    pure true

/-! ### Opening files -/

/-- Adds a handle; answers its index. -/
def addFile (file : DriveFile) : Call Drive Nat :=
  Call.ofOutcome fun drive =>
    (.ok drive.files.length, { drive with files := drive.files ++ [file] })

/-- Opens a file for reading. -/
def openForReading (path : Text) : Call Drive Nat := do
  let drive ← get
  match drive.node? path with
  | none => throw (.notFound path)
  | some node =>
    if node.isDirectory then throw (.refused .cannotOpenDirectory path)
    else addFile ⟨drive.keyOf path, ⟨node.bytes, 0⟩, false, false, false, false, false⟩

/-- The bytes of a file that is to be written, which is created when it is missing. -/
def prepareForWriting (now : Int) (path : Text) : Call Drive Bytes := do
  let drive ← get
  match drive.node? path with
  | none =>
    create (drive.keyOf path) (.newFile now) path
    pure []
  | some node =>
    if node.isDirectory then throw (.refused .cannotOpenDirectory path)
    else if node.readOnly then throw (.denied "File is read-only".toList path)
    else pure node.bytes

/-- Empties the file at a key. -/
def clear (now : Int) (key : Key) : Call Drive Unit :=
  Call.change fun drive =>
    match drive.tree.get? key with
    | none => drive
    | some node => { drive with tree := drive.tree.put key (node.written [] now) }

/-- Opens a file for reading and writing, in a synchronous mode or not. -/
def openForUpdate (now : Int) (path : Text) (isSync : Bool) : Call Drive Nat := do
  let bytes ← prepareForWriting now path
  let key := (← get).keyOf path
  addFile ⟨key, ⟨bytes, 0⟩, true, false, isSync, false, false⟩

/-- Opens a file for writing: at its end, or emptied. -/
def openOutput (now : Int) (path : Text) (append : Bool) : Call Drive Nat := do
  let bytes ← prepareForWriting now path
  let key := (← get).keyOf path
  if append then addFile ⟨key, ⟨bytes, bytes.length⟩, true, true, false, false, false⟩
  else
    clear now key
    addFile ⟨key, ⟨[], 0⟩, true, false, false, false, false⟩

/-- Opens a file in a mode given by its name. -/
def openHandle (now : Int) (path mode : Text) : Call Drive Nat := do
  let mode ← Call.ofExcept (HandleMode.parse mode path)
  if mode.writes then openForUpdate now path mode.isSync else openForReading path

/-! ### Fresh names -/

/-- The text behind the leading slash of a candidate name. -/
def candidateText (drive : Drive) (start ending token : Text) : Text :=
  Text.dropLeading '/' (Scheme.strip start drive.scheme) ++ token ++ ending

/-- Whether a candidate begins with exactly two slashes. Such a name lies outside the tree, which
hangs on a single one. -/
def isOutside : Text → Bool
  | '/' :: rest => rest.head? != some '/'
  | _ => false

/-- Whether a candidate names no entry of the tree. -/
def isUnused (drive : Drive) (text : Text) : Bool :=
  isOutside text || !drive.tree.has (.ofText text)

/-- How many tokens are tried at most. When the tokens are distinct and each gives a name of its own,
one more than the tree has entries is enough. -/
def searchLimit (drive : Drive) (tokens : TokenSource) : Nat :=
  tokens.queued.length + drive.tree.length + 1

/-- Makes an empty file whose name begins and ends as given, with a token in between that makes it
new. At most the given number of tokens is tried. -/
def createTempWithin (limit : Nat) (now : Int) (start ending : Text) :
    Call (Drive × TokenSource) Text := do
  let (drive, tokens) ← get
  let (token?, tokens) :=
    tokens.search (fun token => drive.isUnused (drive.candidateText start ending token)) limit
  set (drive, tokens)
  match token? with
  | none => throw .endless
  | some token =>
    let text := drive.candidateText start ending token
    let key := Key.ofText text
    if isOutside text then
      throw (.notFound (Scheme.join drive.scheme ('/' :: key.parent.toText)))
    else
      Call.within Prod.fst (fun drive s => (drive, s.2)) (create key (.newFile now) start)
      pure (drive.pathOf key)

/-- Makes an empty file whose name begins and ends as given, with a token in between that makes it
new. -/
def createTemp (now : Int) (start ending : Text) : Call (Drive × TokenSource) Text := do
  let (drive, tokens) ← get
  createTempWithin (drive.searchLimit tokens) now start ending

/-! ### All requests -/

/-- A call that leaves the tokens alone. -/
def plain {α : Type} (call : Call Drive α) : Call (Drive × TokenSource) α :=
  Call.within Prod.fst (fun drive s => (drive, s.2)) call

/-- Answers a request; a handle is answered by its index. -/
def perform (now : Int) : (request : Request) → Call (Drive × TokenSource) (request.Reply Nat)
  | .exists path => Call.look fun s => (s.1.node? path).isSome
  | .createDirectory path => plain (createDirectory now path)
  | .createFile path => plain (createFile now path)
  | .delete path => plain (delete path)
  | .canonicalPath path => Call.look fun s => s.1.pathOf (s.1.keyOf path)
  | .parent path => Call.look fun s =>
    if s.1.keyOf path = [] then none else some (s.1.pathOf (s.1.keyOf path).parent)
  | .isAbsolute _ => Call.look fun _ => true
  | .move old new replace => plain (move old new replace)
  | .name path => Call.look fun s => (s.1.keyOf path).name
  | .listFiles path => plain (listFiles path)
  | .lastModified path => plain (Node.modified <$> node path)
  | .size path => plain ((fun node => (node.bytes.length : Int)) <$> node path)
  | .isDirectory path => Call.look fun s => (s.1.node? path).any Node.isDirectory
  | .openHandle path mode => plain (openHandle now path mode)
  | .openInput path => plain (openForReading path)
  | .openOutput path append => plain (openOutput now path append)
  | .canWrite path => Call.look fun s => (s.1.node? path).any fun node => !node.readOnly
  | .isReadOnly path => Call.look fun s => (s.1.node? path).any Node.readOnly
  | .setReadOnly path => plain (setReadOnly path)
  | .unwrap path => Call.look fun _ => path
  | .startsWith path start => Call.look fun _ => start.isPrefixOf path
  | .createTemp start ending _ _ => createTemp now start ending

end Drive

end FileRouter
