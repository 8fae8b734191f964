import FileRouter.Failure.Message
/-!
Conversion between the two vocabularies of failure.

`SystemError.toProvider` says what a provider reports when the operating system fails at a path.
`ProviderError.toSystem` is the way back, for callers who expect the system's own kinds. Neither is
the inverse of the other: many system failures have one cause, and a refusal is told apart by its
wording alone.
-/

namespace FileRouter

namespace SystemError

/-- The number of a directory that is not empty. -/
def notEmptyNumber : Int := 39

/-- What a provider reports for a failure of the operating system at a path. -/
def toProvider (error : SystemError) (path : Text) : ProviderError :=
  let cause : Cause :=
    match error.kind with
    | .notFound => .notFound
    | .exists => .alreadyExists none
    | .permission => .permissionDenied none
    | kind =>
      if error.number? = some notEmptyNumber then .directoryNotEmpty
      else
        match kind with
        | .notADirectory => .refused .notADirectory
        | .isADirectory => .refused .cannotOpenDirectory
        | _ =>
          match error.detail with
          | .coded _ (some (c :: text)) _ => .storage (c :: text)
          | _ => .storage error.message
  ⟨cause, some path⟩

end SystemError

namespace ProviderError

/-- The system failure with a given number that carries a provider's message. -/
def withNumber (error : ProviderError) (kind : SystemKind) (number : Int) : SystemError :=
  ⟨kind, .coded number (some error.message) []⟩

/-- The system failure that stands for a provider's. A refusal becomes one about directories when its
wording speaks of them. -/
def toSystem (error : ProviderError) : SystemError :=
  match error.cause with
  | .notFound => error.withNumber .notFound 2
  | .alreadyExists _ => error.withNumber .exists 17
  | .permissionDenied _ => error.withNumber .permission 13
  | .directoryNotEmpty => error.withNumber .plain SystemError.notEmptyNumber
  | .mismatch _ => error.withNumber .plain 18
  | .refused refusal =>
    if Text.occursIn "Cannot open directory".toList refusal.message then
      error.withNumber .isADirectory 21
    else if Text.occursIn "not a directory".toList (Text.asciiLower refusal.message) then
      error.withNumber .notADirectory 20
    else ⟨.plain, .words error.message⟩
  | .storage _ | .general _ => ⟨.plain, .words error.message⟩

end ProviderError

namespace Failure

/-- A failure as a provider reports it at a path: system failures are converted. -/
def reportedAt (path : Text) : Failure → Failure
  | system error => provider (error.toProvider path)
  | failure => failure

/-- A failure as a caller of the operating system expects it: provider failures are converted. -/
def forSystem : Failure → Failure
  | provider error => system error.toSystem
  | failure => failure

end Failure

end FileRouter
