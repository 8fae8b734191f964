import FileRouter.Disk.Lookup
/-!
Paths as texts, the way the operating system writes them.

`directoryPart` and `lastPart` cut a path at its last slash, `joined` puts two paths together,
`absolute` removes `.`, `..` and empty segments from a path without looking at the disk, and
`canonical` does so with the links resolved. A canonical path exists for every path: missing parts
are kept as they are.
-/

namespace FileRouter.Disk

namespace NativePath

/-- The text without its trailing slashes, unless it consists of slashes. -/
def withoutSlashes (path : Text) : Text :=
  if (Text.dropTrailing '/' path).isEmpty then path else Text.dropTrailing '/' path

/-- The part of a path in front of its last slash. -/
def directoryPart (path : Text) : Text :=
  withoutSlashes (Text.beforeLast '/' path)

/-- The part of a path behind its last slash. -/
def lastPart (path : Text) : Text :=
  Text.afterLast '/' path

/-- Two paths put together; an absolute second path stands alone. -/
def joined (path other : Text) : Text :=
  if other.head? = some '/' then other
  else if path.isEmpty || path.getLast? = some '/' then path ++ other
  else path ++ '/' :: other

/-- A path read from the root or from a directory, without empty segments, `.` and `..`. -/
def absolute (work : Key) (path : Text) : Text :=
  let full := joined work.toText path
  let key := Key.ofText full
  if full.take 2 = ['/', '/'] ∧ full.take 3 ≠ ['/', '/', '/'] then '/' :: key.toText else key.toText

/-- A path with a leading `~` or `~user` replaced by the home of that user; an unknown user's is left
as it is. -/
def expanded (fs : FileSystem) (path : Text) : Text :=
  match path with
  | '~' :: rest =>
    let user := Text.before '/' rest
    let tail := rest.drop user.length
    let home? :=
      if user.isEmpty then some fs.home
      else (fs.users.find? fun entry => entry.1 = user).map Prod.snd
    match home? with
    | none => path
    | some home =>
      let full := Text.dropTrailing '/' home ++ tail
      if full.isEmpty then ['/'] else full
  | _ => path

end NativePath

namespace FileSystem

open NativePath

/-- The links met while a path is resolved: each with the path it leads to, or with nothing while that
is still being found out. -/
abbrev Links := List (Text × Option Text)

/-- One link that has just been met, and where it leads if that is known. -/
def Links.get? (links : Links) (path : Text) : Option (Option Text) :=
  (links.find? fun link => link.1 = path).map Prod.snd

/-- The path that a symbolic link at a path leads to; `none` when there is no link. -/
def linkAt? (fs : FileSystem) (path : Text) : Option Text :=
  match fs.findLink path with
  | .error _ => none
  | .ok key =>
    match fs.entry? key with
    | some (.link target) => some target
    | _ => none

/-- The path above a resolved path, which may be empty or lead upwards itself. -/
def pathAbove (path : Text) : Text :=
  if path.isEmpty then Key.above
  else if lastPart path = Key.above then joined (joined (directoryPart path) Key.above) Key.above
  else directoryPart path

/-- What resolving comes to: how far it has led, whether to the end, the segments that are left when it
stops before, and the links met. -/
structure Resolution where
  path : Text
  complete : Bool
  left : List Text
  links : Links
  deriving Repr

/-- The path that a resolution has led to, with the segments that are left. -/
def Resolution.text (r : Resolution) : Text :=
  if r.complete then r.path else joined r.path (Text.joined ['/'] r.left)

/-- Resolves the segments of `rest` behind a resolved path, link by link. A link that leads back to
itself is kept, with all that follows it. -/
def resolve (fs : FileSystem) : Nat → Text → List Text → Links → Resolution
  | 0, path, rest, links => ⟨path, false, rest, links⟩
  | _ + 1, path, [], links => ⟨path, true, [], links⟩
  | n + 1, path, segment :: rest, links =>
    if segment.isEmpty || segment = Key.here then resolve fs n path rest links
    else if segment = Key.above then resolve fs n (pathAbove path) rest links
    else
      let place := joined path segment
      match fs.linkAt? place with
      | none => resolve fs n place rest links
      | some target =>
        match links.get? place with
        | some (some known) => resolve fs n known rest links
        | some none => ⟨place, false, rest, links⟩
        | none =>
          let start := if target.head? = some '/' then ['/'] else path
          let inner := resolve fs n start (Text.parts '/' target) ((place, none) :: links)
          if inner.complete then
            resolve fs n inner.path rest ((place, some inner.path) :: inner.links)
          else ⟨inner.text, false, rest, inner.links⟩

/-- A number of steps that is enough to resolve any path on this disk: each link is entered at most
once under each of its spellings, and a spelling is at most as long as everything there is to read. -/
def resolveLimit (fs : FileSystem) (path : Text) : Nat :=
  let size : Entry → Nat
    | .link target => target.length + 1
    | _ => 0
  (path.length + total (fun entry => size entry.2) fs.entries + 2) * (fs.entries.length + 2) * 2

/-- The resolution of a path. -/
def resolution (fs : FileSystem) (path : Text) : Resolution :=
  let start := if path.head? = some '/' then ['/'] else []
  fs.resolve (fs.resolveLimit path) start (Text.parts '/' path) []

/-- The absolute path with all links resolved. -/
def canonical (fs : FileSystem) (path : Text) : Text :=
  absolute fs.work (fs.resolution path).text

/-- The segments of a path that are looked at while it is resolved. -/
def segmentsSeen (fs : FileSystem) (path : Text) : List Text :=
  let segments := Text.parts '/' path
  segments.take (segments.length - (fs.resolution path).left.length)

end FileSystem

end FileRouter.Disk
