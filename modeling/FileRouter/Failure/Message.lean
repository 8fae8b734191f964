import FileRouter.Failure.Basic
import FileRouter.Text.Quoted
/-!
The wording of failures.

A provider's failure is its cause in words and, behind a colon, its path. A failure of the operating
system shows its number in brackets, the system's text and the quoted paths.
-/

namespace FileRouter

namespace Refusal

/-- A refusal in words. -/
def message : Refusal → Text
  | unsupportedMode mode =>
    "Unsupported mode ".toList ++ Text.quoted mode ++ " (expected one of r, rw, rws, rwd)".toList
  | cannotOpenDirectory => "Cannot open directory".toList
  | cannotReplaceFile => "Cannot overwrite file with directory".toList
  | parentNotDirectory => "Parent path is not a directory".toList
  | notADirectory => "Path is not a directory".toList
  | copyOntoItself => "Cannot copy a file onto itself".toList
  | parentLoop => "Provider returned a parent equal to the path itself".toList
  | moveIntoItself => "Cannot move a directory into itself".toList
  | other message => message

end Refusal

namespace Cause

/-- A stated reason, unless it is missing or empty. -/
def reasonOr (default : Text) : Option Text → Text
  | none | some [] => default
  | some reason => reason

/-- A cause in words. -/
def message : Cause → Text
  | notFound => "Path not found".toList
  | alreadyExists reason => reasonOr "Path already exists".toList reason
  | permissionDenied reason => reasonOr "Permission denied".toList reason
  | mismatch target =>
    "Cannot move across providers (target ".toList ++ Text.quoted target ++ [')']
  | directoryNotEmpty => "Directory not empty".toList
  | refused refusal => refusal.message
  | storage message => message
  | general message => message

end Cause

namespace ProviderError

/-- The cause, and the path behind a colon. -/
def message (error : ProviderError) : Text :=
  match error.path with
  | none => error.cause.message
  | some path => error.cause.message ++ ": ".toList ++ path

end ProviderError

namespace SystemError

/-- What the operating system says about a failure. -/
def message (error : SystemError) : Text :=
  match error.detail with
  | .silent => []
  | .words message => message
  | .coded number text paths =>
    let numbered :=
      "[Errno ".toList ++ Text.decimalInt number ++ "] ".toList ++ text.getD "None".toList
    if paths.isEmpty then numbered
    else numbered ++ ": ".toList ++ Text.joined " -> ".toList (paths.map Text.quoted)

end SystemError

namespace Failure

/-- A failure in words. -/
def message : Failure → Text
  | provider error => error.message
  | system error => error.message
  | badValue message | badType message | outOfRange message | missingKey message => message
  | unsupported operation => operation
  | endless => "maximum recursion depth exceeded".toList

end Failure

end FileRouter
