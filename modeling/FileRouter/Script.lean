import FileRouter.Request
/-!
Scripted providers: answers by rule, with a record of every request.

A script is a list of rules. The first rule that fits a request gives its answer; where none fits, a
request has a plain default answer. Opening a file of a scripted provider gives a scripted stream, which
may fail when it is read or written. Requests to the provider, and the reads, writes and closing of its
streams, are recorded as events in the order in which they happen, also those that fail.
-/

namespace FileRouter

/-- What kind of request a rule is for. -/
inductive Operation where
  | exists
  | createDirectory
  | createFile
  | delete
  | canonicalPath
  | parent
  | isAbsolute
  | move
  | name
  | listFiles
  | lastModified
  | size
  | isDirectory
  | openHandle
  | openInput
  | openOutput
  | canWrite
  | isReadOnly
  | setReadOnly
  | unwrap
  | startsWith
  | createTemp
  deriving Repr, DecidableEq

/-- The kind of a request. -/
def Request.operation : Request → Operation
  | .exists _ => .exists
  | createDirectory _ => .createDirectory
  | createFile _ => .createFile
  | delete _ => .delete
  | canonicalPath _ => .canonicalPath
  | parent _ => .parent
  | isAbsolute _ => .isAbsolute
  | move _ _ _ => .move
  | name _ => .name
  | listFiles _ => .listFiles
  | lastModified _ => .lastModified
  | size _ => .size
  | isDirectory _ => .isDirectory
  | openHandle _ _ => .openHandle
  | openInput _ => .openInput
  | openOutput _ _ => .openOutput
  | canWrite _ => .canWrite
  | isReadOnly _ => .isReadOnly
  | setReadOnly _ => .setReadOnly
  | unwrap _ => .unwrap
  | startsWith _ _ => .startsWith
  | createTemp _ _ _ _ => .createTemp

/-- Which of the optional arguments of a request the caller has stated. -/
structure Given where
  mode : Bool
  replace : Bool
  append : Bool
  deleteOnExit : Bool
  inTempDir : Bool
  deriving Repr, DecidableEq

/-- Every optional argument is stated. -/
def Given.all : Given := ⟨true, true, true, true, true⟩

/-- What is recorded. -/
inductive Event where
  /-- A request to the scripted provider with a label. -/
  | request (label : Text) (given : Given) (request : Request)
  /-- A read from a stream, with the number of bytes that was asked for. -/
  | read (stream : Text) (count : Int)
  /-- A write to a stream, with the number of bytes. -/
  | write (stream : Text) (count : Nat)
  /-- The closing of a stream. -/
  | close (stream : Text)
  /-- The making of a provider from a spec. -/
  | make (target : Text) (params : List (Text × Text))
  deriving Repr, DecidableEq

/-- A scripted stream before it is opened: its name, its bytes, and what it fails with. -/
structure StreamPlan where
  name : Text
  bytes : Bytes
  readFailure : Option Failure
  writeFailure : Option Failure
  deriving Repr, DecidableEq

/-- A stream without a name and without bytes. -/
def StreamPlan.empty : StreamPlan := ⟨[], [], none, none⟩

/-- What a rule answers. -/
inductive Answer where
  | failure (failure : Failure)
  | flag (value : Bool)
  | nothing
  | text (value : Text)
  /-- The path of the request. -/
  | ownPath
  | texts (values : List Text)
  | number (value : Int)
  | stream (plan : StreamPlan)
  deriving Repr, DecidableEq

/-- A rule: the requests it is for, how often it may still be used, and its answer. -/
structure Rule where
  operation : Operation
  path : Option Text
  uses : Option Nat
  answer : Answer
  deriving Repr, DecidableEq

namespace Rule

/-- Whether a rule is for a request and not used up. -/
def fits (rule : Rule) (request : Request) : Bool :=
  rule.operation = request.operation && rule.path.all (fun path => path = request.path) &&
    rule.uses ≠ some 0

/-- The rule after one more use. -/
def used (rule : Rule) : Rule :=
  { rule with uses := rule.uses.map fun uses => uses - 1 }

/-- The first rule that fits a request, and the rules after its use. -/
def take (request : Request) : List Rule → Option Answer × List Rule
  | [] => (none, [])
  | rule :: rules =>
    if rule.fits request then (some rule.answer, rule.used :: rules)
    else
      let (answer, rules) := take request rules
      (answer, rule :: rules)

end Rule

namespace Answer

/-- An answer as a flag, a text, a list of texts, a number or a stream. -/
def flag? : Answer → Option Bool
  | flag value => some value
  | _ => none

/-- An answer as a text. -/
def text? (path : Text) : Answer → Option Text
  | text value => some value
  | ownPath => some path
  | _ => none

/-- An answer as a text that may be missing. -/
def optionalText? (path : Text) : Answer → Option (Option Text)
  | text value => some (some value)
  | ownPath => some (some path)
  | nothing => some none
  | _ => none

/-- An answer as a list of texts. -/
def texts? : Answer → Option (List Text)
  | texts values => some values
  | _ => none

/-- An answer as a number. -/
def number? : Answer → Option Int
  | number value => some value
  | _ => none

/-- An answer as a stream. -/
def stream? : Answer → Option StreamPlan
  | stream plan => some plan
  | _ => none

/-- The answer to a request, where the default stands in for one that does not suit it. -/
def reply (answer : Answer) : (request : Request) → request.Reply StreamPlan
  | .exists _ => answer.flag?.getD true
  | .createDirectory _ => ()
  | .createFile _ => answer.flag?.getD true
  | .delete _ => ()
  | .canonicalPath path => (answer.text? path).getD path
  | .parent path => (answer.optionalText? path).getD none
  | .isAbsolute _ => answer.flag?.getD true
  | .move _ _ _ => ()
  | .name path => (answer.text? path).getD path
  | .listFiles _ => answer.texts?.getD []
  | .lastModified _ => answer.number?.getD 0
  | .size _ => answer.number?.getD 0
  | .isDirectory _ => answer.flag?.getD false
  | .openHandle _ _ => answer.stream?.getD .empty
  | .openInput _ => answer.stream?.getD .empty
  | .openOutput _ _ => answer.stream?.getD .empty
  | .canWrite _ => answer.flag?.getD true
  | .isReadOnly _ => answer.flag?.getD false
  | .setReadOnly _ => answer.flag?.getD true
  | .unwrap path => path
  | .startsWith path start => start.isPrefixOf path
  | .createTemp start _ _ _ => (answer.text? start).getD start

end Answer

/-- A scripted provider: the label in its events, and its rules. -/
structure Script where
  label : Text
  rules : List Rule
  deriving Repr, DecidableEq

namespace Script

/-- Whether a request is answered without the rules and without a record. -/
def isSilent : Request → Bool
  | .unwrap _ | .startsWith _ _ => true
  | _ => false

/-- Answers a request by the rules. -/
def respond (script : Script) (request : Request) :
    Except Failure (request.Reply StreamPlan) × Script :=
  if isSilent request then (.ok (Answer.nothing.reply request), script)
  else
    let (answer, rules) := Rule.take request script.rules
    let result :=
      match answer with
      | some (.failure failure) => .error failure
      | some answer => .ok (answer.reply request)
      | none => .ok (Answer.nothing.reply request)
    (result, { script with rules })

end Script

/-- An open scripted stream. -/
structure ScriptedStream where
  plan : StreamPlan
  cursor : Cursor
  closed : Bool
  deriving Repr, DecidableEq

namespace ScriptedStream

/-- A stream at its beginning. -/
def start (plan : StreamPlan) : ScriptedStream := ⟨plan, ⟨plan.bytes, 0⟩, false⟩

/-- A stream, with the events so far. -/
abbrev Recorded := ScriptedStream × List Event

/-- Records an event. -/
def record (event : Event) : Call Recorded Unit :=
  Call.change fun s => (s.1, s.2 ++ [event])

/-- Refuses a closed stream. -/
def checkOpen : Call Recorded Unit := do
  if (← get).1.closed then throw (.badValue "I/O operation on closed file.".toList)

/-- Works on the buffer of an open stream. -/
def onCursor {α : Type} (f : Cursor → Except Failure (α × Cursor)) : Call Recorded α := do
  checkOpen
  let (answer, cursor) ← Call.ofExcept (f (← get).1.cursor)
  Call.change fun s => ({ s.1 with cursor }, s.2)
  pure answer

/-- Fails if there is a failure to fail with. -/
def failIf : Option Failure → Call Recorded Unit
  | none => pure ()
  | some failure => throw failure

/-- Answers a request to the stream. -/
def perform : (request : StreamRequest) → Call Recorded request.Reply
  | .read count => do
    let plan := (← get).1.plan
    record (.read plan.name (count.getD (-1)))
    failIf plan.readFailure
    let count ← Call.ofExcept (Count.ofOption count)
    onCursor fun c => .ok (c.read count)
  | .readLine limit => do
    let limit ← Call.ofExcept (Count.ofOption limit)
    onCursor fun c => .ok (c.readLine limit)
  | .readLines => onCursor fun c => .ok c.readLines
  | .write data => do
    let plan := (← get).1.plan
    record (.write plan.name data.length)
    failIf plan.writeFailure
    onCursor fun c => .ok (data.length, c.write data)
  | .seek offset whence => onCursor fun c =>
    (c.seek offset whence).map fun c => (c.position, c)
  | .tell => onCursor fun c => .ok (c.position, c)
  | .truncate size => onCursor fun c => c.truncate size
  | .flush => checkOpen
  | .close => do
    let stream := (← get).1
    if stream.closed then pure ()
    else
      record (.close stream.plan.name)
      Call.change fun s => ({ s.1 with closed := true }, s.2)
  | .readable => onCursor fun c => .ok (true, c)
  | .writable => onCursor fun c => .ok (true, c)
  | .seekable => onCursor fun c => .ok (true, c)
  | .closed => Call.look fun s => s.1.closed

end ScriptedStream

end FileRouter
