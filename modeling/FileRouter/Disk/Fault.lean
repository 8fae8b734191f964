import FileRouter.Failure.Basic
/-!
Faults: what the operating system answers when it refuses a path.

Each fault has the system's number for it and the system's text; `Fault.failure` is the failure that a
caller of the system sees.
-/

namespace FileRouter.Disk

/-- The refusals of the operating system that concern paths. -/
inductive Fault where
  | noEntry
  | noDevice
  | busy
  | exists
  | notDirectory
  | isDirectory
  | invalid
  | nameTooLong
  | notEmpty
  | tooManyLinks
  deriving Repr, DecidableEq

namespace Fault

/-- The number of a fault. -/
def number : Fault → Int
  | noEntry => 2
  | noDevice => 6
  | busy => 16
  | .exists => 17
  | notDirectory => 20
  | isDirectory => 21
  | invalid => 22
  | nameTooLong => 36
  | notEmpty => 39
  | tooManyLinks => 40

/-- The system's text for a fault. -/
def text : Fault → Text
  | noEntry => "No such file or directory".toList
  | noDevice => "No such device or address".toList
  | busy => "Device or resource busy".toList
  | .exists => "File exists".toList
  | notDirectory => "Not a directory".toList
  | isDirectory => "Is a directory".toList
  | invalid => "Invalid argument".toList
  | nameTooLong => "File name too long".toList
  | notEmpty => "Directory not empty".toList
  | tooManyLinks => "Too many levels of symbolic links".toList

/-- The failure that shows a fault, with the paths it is about. -/
def failure (fault : Fault) (paths : List Text) : Failure :=
  .system (.coded fault.number (some fault.text) paths)

end Fault

end FileRouter.Disk
