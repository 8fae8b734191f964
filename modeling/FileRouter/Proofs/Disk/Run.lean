import FileRouter.Disk.Handle
import FileRouter.Disk.Provider
import FileRouter.Proofs.Disk.Change
import FileRouter.Proofs.Disk.Opening
/-!
Runs of a disk.

An `Action` is anything that can be done to the disk: a request to it, a request to one of its open handles,
something done behind its back, or the end of the program. Whatever is done, the file system comes from the one
before by steps (`comesFrom_run`). A disk that a run of actions has led to from a fresh host is `Reached`: its
entries form a tree (`Reached.sound`), and they have names if the working directory has (`proper_run`). So whatever
is proved of such a file system holds on every host that began fresh.
-/

namespace FileRouter.Disk

open Call FileSystem

variable {α : Type} {index : Nat} {fs : FileSystem}

/-- The file system of a disk has come from another one by steps. -/
def ComesFrom (fs : FileSystem) (disk : Disk) : Prop := Relation.ReflTransGen FileSystem.Step fs disk.fs

theorem keptByWork_comesFrom (index : Nat) : KeptByWork index (ComesFrom fs) where
  note _ _ h := h
  reading _ := keeps_withFile fun h _ => h.tail (.written _ _)
  work _ _ _ h := keeps_withFile (fun h _ => h.tail (.written _ _)) _ h

/-! ### Requests -/

theorem comesFrom_tested (path : Text) : Keeps (ComesFrom fs) (tested path) :=
  keeps_of_unchanged fun disk => by
    rw [outcome_tested]
    split_ifs <;> rfl

theorem comesFrom_native (path : Text) : Keeps (ComesFrom fs) (native path) :=
  keeps_of_unchanged fun disk => by
    rw [outcome_native]
    split_ifs <;> rfl

theorem comesFrom_ask (path : Text) (paths : List Text) (f : FileSystem → Except Fault α) :
    Keeps (ComesFrom fs) (reported path (ask paths f)) :=
  keeps_of_unchanged fun disk => by rw [outcome_reported_ask]

theorem comesFrom_alter (paths : List Text) {f : FileSystem → Except Fault FileSystem}
    (hf : ∀ {fs fs' : FileSystem}, f fs = .ok fs' → fs.Step fs') :
    Keeps (ComesFrom fs) (alter paths f) := by
  intro disk h
  rw [alter, outcome_ofOutcome]
  cases hr : f disk.fs with
  | error fault => exact h
  | ok fs => exact h.tail (hf hr)

theorem comesFrom_addFile (body : Nat) (access : Access) (position : Nat) :
    Keeps (ComesFrom fs) (addFile body access position) :=
  fun _ h => h

theorem comesFrom_createDirectory (path : Text) : Keeps (ComesFrom fs) (createDirectory path) := by
  rw [createDirectory]
  refine keeps_bind (comesFrom_tested path) fun tested => keeps_get fun disk h => ?_
  split
  · exact h
  · refine keeps_bind (comesFrom_native path) (fun native => ?_) disk h
    exact keeps_mapFailure _ (comesFrom_alter _ step_makeDirectory)

theorem comesFrom_createFile (path : Text) : Keeps (ComesFrom fs) (createFile path) := by
  rw [createFile]
  refine keeps_bind (comesFrom_native path) fun native => keeps_get fun disk h => ?_
  cases hmade : disk.fs.makeFile native FileSystem.fileMode with
  | error fault => cases fault <;> exact h
  | ok made => exact h.tail (step_makeFile hmade)

theorem comesFrom_delete (path : Text) : Keeps (ComesFrom fs) (delete path) := by
  rw [delete]
  refine keeps_bind (comesFrom_native path) fun native => keeps_get fun disk h => ?_
  refine keeps_mapFailure _ (comesFrom_alter _ fun {fs fs'} hgone => ?_) disk h
  split at hgone
  · exact step_removeDirectory hgone
  · exact step_removeFile hgone

theorem comesFrom_move (old new : Text) (replace : Bool) : Keeps (ComesFrom fs) (move old new replace) := by
  rw [move]
  refine keeps_bind (comesFrom_tested old) fun source => ?_
  refine keeps_bind (comesFrom_tested new) fun target => keeps_get fun disk h => ?_
  simp only
  split_ifs
  · exact h
  · exact h
  · exact h
  · exact h
  · exact keeps_mapFailure _ (comesFrom_alter _ step_rename) disk h

theorem comesFrom_listFiles (path : Text) : Keeps (ComesFrom fs) (listFiles path) := by
  rw [listFiles]
  refine keeps_bind (comesFrom_native path) fun native => ?_
  exact keeps_bind (comesFrom_ask path _ _) fun names => keeps_pure _

theorem comesFrom_setReadOnly (path : Text) : Keeps (ComesFrom fs) (setReadOnly path) := by
  rw [setReadOnly]
  refine keeps_bind (comesFrom_native path) fun native => keeps_get fun disk h => ?_
  simp only
  cases disk.fs.mode native with
  | error fault => exact h
  | ok mode =>
    simp only
    cases hset : disk.fs.setMode native (mode - (mode &&& writeBits)) with
    | error fault => exact h
    | ok fs => exact h.tail (step_setMode hset)

theorem comesFrom_openInput (path : Text) : Keeps (ComesFrom fs) (openInput path) := by
  rw [openInput]
  refine keeps_bind (comesFrom_native path) fun native => ?_
  exact keeps_bind (comesFrom_ask path _ _) fun body => comesFrom_addFile body _ _

theorem comesFrom_bodyForWriting (path : Text) : Keeps (ComesFrom fs) (bodyForWriting path) := by
  intro disk h
  rw [outcome_bodyForWriting]
  split_ifs
  · exact h
  · cases hmade : disk.fs.openOrMake (nativePath disk.fs path) with
    | error fault => exact h
    | ok made => exact h.tail (step_openOrMake hmade)

theorem comesFrom_openOutput (path : Text) (append : Bool) : Keeps (ComesFrom fs) (openOutput path append) := by
  rw [openOutput]
  refine keeps_bind (comesFrom_bodyForWriting path) fun body => ?_
  cases append with
  | true => exact keeps_get fun disk h => h
  | false => exact keeps_bind (fun disk h => h.tail (.written body _)) fun _ => comesFrom_addFile body _ _

theorem comesFrom_openHandle (path mode : Text) : Keeps (ComesFrom fs) (openHandle path mode) := by
  rw [openHandle]
  refine keeps_bind (keeps_of_unchanged fun _ => rfl) fun mode => ?_
  refine keeps_bind (comesFrom_tested path) fun tested => keeps_get fun disk h => ?_
  split_ifs
  · exact h
  · exact keeps_bind (comesFrom_bodyForWriting path) (fun body => comesFrom_addFile body _ _) disk h
  · exact keeps_bind (comesFrom_bodyForWriting path) (fun body => comesFrom_addFile body _ _) disk h
  · exact comesFrom_openInput path disk h

/-! ### Requests with tokens -/

theorem step_makePrivate {fs fs' : FileSystem} {native : Text} (hmade : makePrivate fs native = .ok fs') :
    fs.Step fs' := by
  rw [makePrivate] at hmade
  split_ifs at hmade
  cases hfile : fs.makeFile native FileSystem.privateMode with
  | error fault => simp [hfile] at hmade
  | ok made =>
    rw [hfile] at hmade
    exact Except.ok.inj hmade ▸ step_makeFile hfile

/-- The same of the disk of a disk with tokens. -/
def PartComesFrom (fs : FileSystem) (s : Disk × TokenSource) : Prop := ComesFrom fs s.1

theorem comesFrom_plain {call : Call Disk α} (h : Keeps (ComesFrom fs) call) : Keeps (PartComesFrom fs) (plain call) :=
  fun s hs => h s.1 hs

theorem comesFrom_seen (path : Text) (f : FileSystem → Text → α) : Keeps (PartComesFrom fs) (seen path f) :=
  comesFrom_plain (keeps_bind (comesFrom_tested path) fun _ => keeps_get fun _ h => h)

theorem comesFrom_asked (path : Text) (f : FileSystem → Text → Except Fault α) :
    Keeps (PartComesFrom fs) (asked path f) :=
  comesFrom_plain (keeps_bind (comesFrom_native path) fun _ => comesFrom_ask path _ _)

theorem comesFrom_createTemp (start ending : Text) (deleteOnExit inTempDir : Bool) :
    Keeps (PartComesFrom fs) (createTemp start ending deleteOnExit inTempDir) := by
  rw [createTemp]
  refine keeps_bind (comesFrom_plain (comesFrom_tested start)) fun native => keeps_get fun s h => ?_
  obtain ⟨disk, tokens⟩ := s
  simp only
  -- which token is chosen does not matter
  generalize TokenSource.search _ searchLimit tokens = found
  obtain ⟨token?, tokens'⟩ := found
  rw [outcome_bind, outcome_set]
  cases token? with
  | none => exact h
  | some token =>
    simp only
    split
    next failure _ => exact h
    next fs' hmade => exact h.tail (step_makePrivate hmade)

theorem comesFrom_perform (request : Request) : Keeps (PartComesFrom fs) (perform request) := by
  -- what only looks stays where it is; the others come from the file system by their own steps
  cases request with
  | «exists» path => exact comesFrom_plain (keeps_bind (comesFrom_tested path) fun _ => keeps_get fun _ h => h)
  | createDirectory path => exact comesFrom_plain (comesFrom_createDirectory path)
  | createFile path => exact comesFrom_plain (comesFrom_createFile path)
  | delete path => exact comesFrom_plain (comesFrom_delete path)
  | canonicalPath path => exact comesFrom_plain (keeps_of_unchanged (canonicalPath_unchanged path))
  | parent path => exact comesFrom_seen path fun fs _ => parent? fs path
  | isAbsolute path => exact comesFrom_seen path fun _ native => native.head? == some '/'
  | move old new replace => exact comesFrom_plain (comesFrom_move old new replace)
  | name path => exact comesFrom_seen path fun fs _ => NativePath.lastPart (trimmedNative fs path)
  | listFiles path => exact comesFrom_plain (comesFrom_listFiles path)
  | lastModified path => exact keeps_map _ (comesFrom_asked path _)
  | size path => exact keeps_map _ (comesFrom_asked path _)
  | isDirectory path =>
    exact comesFrom_plain (keeps_bind (comesFrom_tested path) fun _ => keeps_get fun _ h => h)
  | openHandle path mode => exact comesFrom_plain (comesFrom_openHandle path mode)
  | openInput path => exact comesFrom_plain (comesFrom_openInput path)
  | openOutput path append => exact comesFrom_plain (comesFrom_openOutput path append)
  | canWrite path => exact comesFrom_plain (keeps_bind (comesFrom_native path) fun _ => keeps_get fun _ h => h)
  | isReadOnly path =>
    exact comesFrom_seen path fun fs native => (fs.find native).isOk && !isWritable fs native
  | setReadOnly path => exact comesFrom_plain (comesFrom_setReadOnly path)
  | unwrap path => exact keeps_of_unchanged fun _ => rfl
  | startsWith path start =>
    exact comesFrom_plain (keeps_bind (comesFrom_tested path) fun _ =>
      keeps_bind (comesFrom_tested start) fun _ => keeps_pure _)
  | createTemp start ending deleteOnExit inTempDir =>
    exact comesFrom_createTemp start ending deleteOnExit inTempDir

theorem comesFrom_removeLeftovers {disk : Disk} (h : ComesFrom fs disk) :
    ComesFrom fs disk.removeLeftovers := by
  rw [removeLeftovers]
  generalize disk.leftovers = paths
  induction paths generalizing disk with
  | nil => exact h
  | cons path paths ih =>
    rw [List.foldl_cons]
    refine ih ?_
    split
    next fs' hgone => exact h.tail (step_removeFile hgone)
    next => exact h

/-! ### Runs -/

/-- Something that is done to the disk: a request to it or to one of its handles, a change behind its back, or
the end of the program. -/
inductive Action where
  | ask (request : Request)
  | use (index : Nat) (request : StreamRequest)
  | link (target path : Text)
  | setMode (path : Text) (mode : Nat)
  | setModified (path : Text) (modified : Int)
  | finish

/-- The disk and the tokens that an action leaves, however it ends. -/
def act (s : Disk × TokenSource) : Action → Disk × TokenSource
  | .ask request => ((perform request).outcome s).2
  | .use index request => ((plain (onFile index request)).outcome s).2
  | .link target path => ((plain (alter [target, path] fun fs => fs.makeLink target path)).outcome s).2
  | .setMode path mode => ((plain (alter [path] fun fs => fs.setMode path mode)).outcome s).2
  | .setModified path modified => ((plain (alter [path] fun fs => fs.setModified path modified)).outcome s).2
  | .finish => (removeLeftovers s.1, s.2)

/-- What a run leaves. -/
def run (s : Disk × TokenSource) (actions : List Action) : Disk × TokenSource :=
  actions.foldl act s

/-- A disk that some run leads to from a fresh host. -/
def Reached (disk : Disk) : Prop :=
  ∃ work tokens actions, (run (.fresh work, tokens) actions).1 = disk

theorem comesFrom_act {s : Disk × TokenSource} (h : PartComesFrom fs s) (action : Action) :
    PartComesFrom fs (act s action) := by
  cases action with
  | ask request => exact comesFrom_perform request s h
  | use index request => exact comesFrom_plain ((keptByWork_comesFrom index).onFile request) s h
  | link target path => exact comesFrom_plain (comesFrom_alter _ step_makeLink) s h
  | setMode path mode => exact comesFrom_plain (comesFrom_alter _ step_setMode) s h
  | setModified path modified => exact comesFrom_plain (comesFrom_alter _ step_setModified) s h
  | finish => exact comesFrom_removeLeftovers h

/-- **A run is made of steps**, whatever is done in it and however it ends. -/
theorem comesFrom_run (s : Disk × TokenSource) (actions : List Action) :
    ComesFrom s.1.fs (run s actions).1 := by
  suffices h : ∀ t : Disk × TokenSource, PartComesFrom s.1.fs t → PartComesFrom s.1.fs (run t actions) from
    h s .refl
  induction actions with
  | nil => exact fun t h => h
  | cons action actions ih => exact fun t h => ih (act t action) (comesFrom_act h action)

/-! ### What every run keeps -/

/-- The entries of a disk form a tree, and every file has a body. -/
def Sound (disk : Disk) : Prop := disk.fs.WellFormed

/-- **A host stays a tree** through every run from a fresh one: no key occurs twice, the root is a directory,
every other entry hangs in one, and every file has a body. -/
theorem Reached.sound {disk : Disk} (h : Reached disk) : disk.Sound := by
  obtain ⟨work, tokens, actions, rfl⟩ := h
  exact wellFormed_of_steps (comesFrom_run (.fresh work, tokens) actions) (.fresh work)

/-- **Entries have names** through every run from a host that works in a directory with one. -/
theorem proper_run {work : Key} (hwork : work.Proper) (tokens : TokenSource) (actions : List Action) :
    (run (.fresh work, tokens) actions).1.fs.Proper :=
  proper_of_steps (comesFrom_run (.fresh work, tokens) actions) (.fresh work) (Proper.fresh hwork)

end FileRouter.Disk
