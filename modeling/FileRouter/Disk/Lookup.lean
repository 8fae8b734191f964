import FileRouter.Disk.FileSystem
import FileRouter.Text.Utf8
/-!
Looking up paths on the disk.

A path is read from the root if it begins with a slash and from the working directory otherwise. Each
of its segments but the last has to lead to a directory; links on the way are followed, forty of them
at most. A trailing slash means what `/.` would mean there. `find` gives the key of an existing entry,
following a link at the end or not; `parentOf` finds the directory in which something is to be made or
removed, and the name it is to have there.
-/

namespace FileRouter.Disk

/-- What the last segment of a path is. -/
inductive LastSegment where
  /-- There is none: the path is the root. -/
  | root
  | here
  | above
  /-- A name, and whether a slash follows it. -/
  | name (name : Text) (slash : Bool)
  deriving Repr, DecidableEq

namespace FileSystem

/-- The number of links that may be followed for one path. -/
def linkLimit : Nat := 40

/-- The number of bytes that a name may have. -/
def nameLimit : Nat := 255

/-- The number of bytes that a path may not reach. -/
def pathLimit : Nat := 4096

/-- The segments of a path without the empty ones. -/
def segments (path : Text) : List Text :=
  (Text.parts '/' path).filter fun segment => !segment.isEmpty

/-- Whether a path ends in a slash behind a segment. -/
def endsInSlash (path : Text) : Bool :=
  path.getLast? == some '/' && !(segments path).isEmpty

/-- The segments of a path, where a trailing slash counts as `.`. -/
def steps (path : Text) : List Text :=
  if endsInSlash path then segments path ++ [Key.here] else segments path

/-- Where the reading of a path begins. -/
def origin (directory : Key) (path : Text) : Key :=
  if path.head? = some '/' then [] else directory

/-- The entry under a name in a directory, if there is one. -/
def child (fs : FileSystem) (directory : Key) (name : Text) : Except Fault (Option Entry) :=
  if !fs.isDirectory directory then
    .error (if (fs.entry? directory).isSome then .notDirectory else .noEntry)
  else if nameLimit < Text.utf8Size name then .error .nameTooLong
  else .ok (fs.entry? (directory ++ [name]))

/-- How far segments lead without following a link. -/
inductive Stretch where
  /-- To an entry that is no link. -/
  | done (key : Key)
  /-- To a link in a directory, with segments left behind it. -/
  | link (directory : Key) (target : Text) (rest : List Text)
  deriving Repr, DecidableEq

/-- Follows segments from a directory up to the first link. -/
def stretch (fs : FileSystem) : Key → List Text → Except Fault Stretch
  | key, [] => .ok (.done key)
  | key, segment :: rest =>
    if segment = Key.here || segment = Key.above then
      if !fs.isDirectory key then
        .error (if (fs.entry? key).isSome then .notDirectory else .noEntry)
      else stretch fs (if segment = Key.here then key else key.parent) rest
    else
      match fs.child key segment with
      | .error fault => .error fault
      | .ok none => .error .noEntry
      | .ok (some (.link target)) => .ok (.link key target rest)
      | .ok (some _) => stretch fs (key ++ [segment]) rest

/-- Follows segments from a directory through all links, at most as many as given; answers the key of
the entry and the number of links that may still be followed. -/
def follow (fs : FileSystem) : Nat → Key → List Text → Except Fault (Key × Nat)
  | links, key, segments =>
    match fs.stretch key segments with
    | .error fault => .error fault
    | .ok (.done key) => .ok (key, links)
    | .ok (.link directory target rest) =>
      match links with
      | 0 => .error .tooManyLinks
      | links + 1 => follow fs links (origin directory target) (steps target ++ rest)

/-- Refuses the empty path and one that is too long. -/
def checkPath (path : Text) : Except Fault Unit :=
  if path.isEmpty then .error .noEntry
  else if pathLimit ≤ Text.utf8Size path then .error .nameTooLong
  else .ok ()

/-- The key of the entry that a path leads to, through all links. -/
def find (fs : FileSystem) (path : Text) : Except Fault Key := do
  checkPath path
  let (key, _) ← fs.follow linkLimit (origin fs.work path) (steps path)
  if (fs.entry? key).isSome then .ok key else .error .noEntry

/-- The key of the entry that a path leads to, where a link at the very end is not followed. -/
def findLink (fs : FileSystem) (path : Text) : Except Fault Key := do
  checkPath path
  match (steps path).getLast? with
  | none => fs.find path
  | some last =>
    if last = Key.here || last = Key.above then fs.find path
    else
      let (directory, _) ← fs.follow linkLimit (origin fs.work path) (steps path).dropLast
      match ← fs.child directory last with
      | none => .error .noEntry
      | some _ => .ok (directory ++ [last])

/-- The directory that the last segment of a path is in, that segment, and how many links may still be
followed. -/
def lastIn (fs : FileSystem) (links : Nat) (directory : Key) (path : Text) :
    Except Fault (Key × LastSegment × Nat) :=
  match (segments path).getLast? with
  | none => .ok ([], .root, links)
  | some last => do
    let (key, links) ← fs.follow links (origin directory path) (segments path).dropLast
    if !fs.isDirectory key then
      .error (if (fs.entry? key).isSome then .notDirectory else .noEntry)
    else if last = Key.here then .ok (key, .here, links)
    else if last = Key.above then .ok (key, .above, links)
    else .ok (key, .name last (endsInSlash path), links)

/-- No link is given back. -/
theorem follow_links_le {fs : FileSystem} {links : Nat} {start : Key} {segments : List Text}
    {key : Key} {left : Nat} (h : fs.follow links start segments = .ok (key, left)) : left ≤ links := by
  induction links generalizing start segments with
  | zero =>
    unfold follow at h
    split at h <;> simp_all
  | succ links ih =>
    unfold follow at h
    split at h
    · simp at h
    · simp only [Except.ok.injEq, Prod.mk.injEq] at h
      omega
    · exact Nat.le_succ_of_le (ih h)

theorem lastIn_links_le {fs : FileSystem} {links : Nat} {directory : Key} {path : Text}
    {parent : Key} {last : LastSegment} {left : Nat}
    (h : fs.lastIn links directory path = .ok (parent, last, left)) : left ≤ links := by
  unfold lastIn at h
  split at h
  · simp only [Except.ok.injEq, Prod.mk.injEq] at h
    omega
  · cases hf : fs.follow links (origin directory path) (segments path).dropLast with
    | error fault => simp [hf, bind, Except.bind] at h
    | ok found =>
      obtain ⟨key, rest⟩ := found
      have hle := follow_links_le hf
      simp only [hf, bind, Except.bind] at h
      split at h
      · simp at h
      · split at h
        · simp_all
        · split at h <;> simp_all

/-- The directory that the last segment of a path is in, and that segment. -/
def parentOf (fs : FileSystem) (path : Text) : Except Fault (Key × LastSegment) := do
  checkPath path
  let (key, last, _) ← fs.lastIn linkLimit fs.work path
  .ok (key, last)

end FileSystem

end FileRouter.Disk
