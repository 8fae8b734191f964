import FileRouter.Request
import Mathlib.Logic.Function.Basic
/-!
The paths of requests, and the requests that only read.
-/

namespace FileRouter

namespace Request

/-- A request with its paths changed. -/
def mapPaths (f : Text → Text) : Request → Request
  | .exists path => .exists (f path)
  | createDirectory path => .createDirectory (f path)
  | createFile path => .createFile (f path)
  | delete path => .delete (f path)
  | canonicalPath path => .canonicalPath (f path)
  | parent path => .parent (f path)
  | isAbsolute path => .isAbsolute (f path)
  | move old new replace => .move (f old) (f new) replace
  | name path => .name (f path)
  | listFiles path => .listFiles (f path)
  | lastModified path => .lastModified (f path)
  | size path => .size (f path)
  | isDirectory path => .isDirectory (f path)
  | openHandle path mode => .openHandle (f path) mode
  | openInput path => .openInput (f path)
  | openOutput path append => .openOutput (f path) append
  | canWrite path => .canWrite (f path)
  | isReadOnly path => .isReadOnly (f path)
  | setReadOnly path => .setReadOnly (f path)
  | unwrap path => .unwrap (f path)
  | startsWith path start => .startsWith (f path) (f start)
  | createTemp start ending deleteOnExit inTempDir => .createTemp (f start) ending deleteOnExit inTempDir

/-- The paths of a request; those that a move or a comparison has beside the first one come second. -/
def paths : Request → List Text
  | move old new _ => [old, new]
  | startsWith path start => [path, start]
  | request => [request.path]

variable {request : Request} {f g : Text → Text}

@[simp] theorem path_mapPaths (f : Text → Text) (request : Request) :
    (request.mapPaths f).path = f request.path := by
  cases request <;> rfl

theorem path_mem_paths (request : Request) : request.path ∈ request.paths := by
  cases request <;> simp [paths, path]

theorem mapPaths_mapPaths (f g : Text → Text) (request : Request) :
    (request.mapPaths f).mapPaths g = request.mapPaths (g ∘ f) := by
  cases request <;> rfl

/-- A change that does nothing to the paths of a request does nothing to the request. -/
theorem mapPaths_eq_self (h : ∀ path, f path = path) : request.mapPaths f = request := by
  obtain rfl : f = id := funext h
  cases request <;> rfl

/-- Whether a request changes nothing: it only looks, or opens a file for reading. -/
def Reads : Request → Prop
  | createDirectory _ | createFile _ | delete _ | move _ _ _ | openOutput _ _ | setReadOnly _
  | createTemp _ _ _ _ => False
  | openHandle path mode =>
    ∀ {parsed : HandleMode}, HandleMode.parse mode path = .ok parsed → parsed.writes = false
  | _ => True

theorem parse_ok_iff {mode path : Text} {parsed : HandleMode} :
    HandleMode.parse mode path = .ok parsed ↔
      (HandleMode.all.find? fun mode' => mode'.name == mode) = some parsed := by
  rw [HandleMode.parse]
  cases HandleMode.all.find? fun mode' => mode'.name == mode <;> simp

/-- Whether a request reads does not depend on its paths. -/
theorem Reads.mapPaths {request : Request} (h : request.Reads) (f : Text → Text) :
    (request.mapPaths f).Reads := by
  cases request with
  | openHandle path mode => exact fun hp => h (parse_ok_iff.mpr (parse_ok_iff.mp hp))
  | _ => exact h

end Request

end FileRouter
