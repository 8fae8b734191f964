import FileRouter.Text.Basic
/-!
Failures, by cause.

Every provider reports what went wrong in one vocabulary, `ProviderError`: a cause and the path it was
met at. The operating system has a vocabulary of its own, `SystemError`: a kind, and usually a number
with a text. `Failure` is either of them, or one of the few faults that lie with the caller. The
wording of a failure is in `FileRouter.Failure.Message`, the way from one vocabulary to the other in
`FileRouter.Failure.Conversion`.
-/

namespace FileRouter

/-- Why an operation is not allowed for a path. -/
inductive Refusal where
  /-- A handle was asked for in a mode that does not exist. -/
  | unsupportedMode (mode : Text)
  /-- A directory was to be opened as a file. -/
  | cannotOpenDirectory
  /-- A directory was to be created where a file is. -/
  | cannotReplaceFile
  /-- The parent of the path is a file. -/
  | parentNotDirectory
  /-- A file was to be listed. -/
  | notADirectory
  /-- The source and the target of a copy are one file. -/
  | copyOntoItself
  /-- A provider named a path among its own ancestors. -/
  | parentLoop
  /-- A directory was to be moved below itself. -/
  | moveIntoItself
  /-- Any other reason, in words. -/
  | other (message : Text)
  deriving Repr, DecidableEq

/-- What a provider reports. -/
inductive Cause where
  | notFound
  | alreadyExists (reason : Option Text)
  | permissionDenied (reason : Option Text)
  /-- The paths of a move belong to different providers. -/
  | mismatch (target : Text)
  | directoryNotEmpty
  | refused (refusal : Refusal)
  /-- The storage itself failed. -/
  | storage (message : Text)
  /-- A failure of no particular kind. -/
  | general (message : Text)
  deriving Repr, DecidableEq

/-- A failure that a provider reports, with the path it was met at. -/
structure ProviderError where
  cause : Cause
  path : Option Text
  deriving Repr, DecidableEq

/-- The kinds of failure that the operating system tells apart. -/
inductive SystemKind where
  | plain
  | notFound
  | exists
  | permission
  | notADirectory
  | isADirectory
  | timeout
  | blocking
  | brokenPipe
  | childProcess
  | connectionAborted
  | connectionRefused
  | connectionReset
  | interrupted
  | noProcess
  deriving Repr, DecidableEq

/-- What a failure of the operating system says about itself. -/
inductive SystemDetail where
  | silent
  | words (message : Text)
  /-- A number, the system's text for it, and the paths it is about. -/
  | coded (number : Int) (text : Option Text) (paths : List Text)
  deriving Repr, DecidableEq

/-- A failure of the operating system. -/
structure SystemError where
  kind : SystemKind
  detail : SystemDetail
  deriving Repr, DecidableEq

/-- Everything that can end a call without a value. -/
inductive Failure where
  | provider (error : ProviderError)
  | system (error : SystemError)
  /-- An argument has a value that is not allowed. -/
  | badValue (message : Text)
  /-- An argument is of the wrong sort. -/
  | badType (message : Text)
  /-- An argument is a number that is too large, or too small. -/
  | outOfRange (message : Text)
  /-- A name is looked up that is not there. -/
  | missingKey (message : Text)
  /-- A handle does not support an operation. -/
  | unsupported (operation : Text)
  /-- The call would go on for ever. -/
  | endless
  deriving Repr, DecidableEq

namespace Failure

/-- A provider's failure at a path. -/
def atPath (cause : Cause) (path : Text) : Failure :=
  .provider ⟨cause, some path⟩

/-- Nothing is at a path. -/
def notFound (path : Text) : Failure := atPath .notFound path

/-- An operation is not allowed at a path. -/
def refused (refusal : Refusal) (path : Text) : Failure := atPath (.refused refusal) path

/-- Access to a path is denied for a stated reason. -/
def denied (reason : Text) (path : Text) : Failure := atPath (.permissionDenied (some reason)) path

end Failure

namespace SystemKind

/-- The kind that a number of the operating system stands for. -/
def ofNumber : Int → SystemKind
  | 1 | 13 => .permission
  | 2 => .notFound
  | 3 => .noProcess
  | 4 => .interrupted
  | 10 => .childProcess
  | 11 | 114 | 115 => .blocking
  | 17 => .exists
  | 20 => .notADirectory
  | 21 => .isADirectory
  | 32 | 108 => .brokenPipe
  | 103 => .connectionAborted
  | 104 => .connectionReset
  | 110 => .timeout
  | 111 => .connectionRefused
  | _ => .plain

end SystemKind

namespace SystemError

/-- A failure with a number takes its kind from the number. -/
def coded (number : Int) (text : Option Text) (paths : List Text) : SystemError :=
  ⟨.ofNumber number, .coded number text paths⟩

/-- The number of a failure, if it has one. -/
def number? (error : SystemError) : Option Int :=
  match error.detail with
  | .coded number _ _ => some number
  | _ => none

end SystemError

end FileRouter
