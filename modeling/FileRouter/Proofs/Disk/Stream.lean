import FileRouter.Proofs.Disk.Reading
import FileRouter.Proofs.Disk.Window
import FileRouter.Proofs.Stream
/-!
Handles of the disk as cursors.

A handle `Shows` a cursor when that is what its user sees of the file, whatever is in its window. Each request
answers what the cursor answers, and leaves the handle showing the cursor that is left; nothing else on the disk
changes but the bytes of the file (`Through`).
-/

namespace FileRouter.Disk

open Buffered (fits_idle view_idle)

/-! ### What a handle leaves alone -/

namespace FileSystem

theorem changeBody_changeBody (fs : FileSystem) (index : Nat) (f g : Body → Body) :
    (fs.changeBody index f).changeBody index g = fs.changeBody index (g ∘ f) := by
  rw [changeBody, changeBody, changeBody, List.modify_modify_eq]

theorem length_changeBody (fs : FileSystem) (index : Nat) (f : Body → Body) :
    (fs.changeBody index f).bodies.length = fs.bodies.length :=
  List.length_modify _ _ _

theorem bytesOf_changeBody_self {fs : FileSystem} {index : Nat} (h : index < fs.bodies.length) (bytes : Bytes) :
    (fs.changeBody index fun body => { body with bytes }).bytesOf index = bytes := by
  rw [bytesOf_changeBody, if_pos rfl, body?, List.getElem?_eq_getElem h]
  rfl

theorem stretch_changeBody (fs : FileSystem) (index : Nat) (f : Body → Body) (key : Key) (segments : List Text) :
    (fs.changeBody index f).stretch key segments = fs.stretch key segments := by
  induction segments generalizing key with
  | nil => rfl
  | cons segment rest ih =>
    simp only [stretch, ih]
    rfl

theorem follow_changeBody (fs : FileSystem) (index : Nat) (f : Body → Body) (links : Nat) (key : Key)
    (segments : List Text) : (fs.changeBody index f).follow links key segments = fs.follow links key segments := by
  induction links generalizing key segments with
  | zero =>
    rw [follow_eq, follow_eq, stretch_changeBody]
  | succ links ih =>
    rw [follow_eq, follow_eq, stretch_changeBody]
    simp only [ih]

/-- What a file contains does not matter to where it is. -/
theorem openBody_changeBody (fs : FileSystem) (index : Nat) (f : Body → Body) (path : Text) :
    (fs.changeBody index f).openBody path = fs.openBody path := by
  rw [openBody, openBody, find, find, follow_changeBody]
  rfl

end FileSystem

/-- What work through a handle leaves: the disk as it is, but for the bytes of one file and for the handle. -/
structure Through (index body : Nat) (disk disk' : Disk) : Prop where
  fs : ∃ bytes, disk'.fs = disk.fs.changeBody body fun b => { b with bytes }
  files : ∀ {other : Nat}, other ≠ index → disk'.files[other]? = disk.files[other]?
  leftovers : disk'.leftovers = disk.leftovers

variable {index body : Nat} {start disk disk' : Disk} {file : OpenFile} {access : Access} {c c' : Cursor}

theorem Through.refl (index body : Nat) (disk : Disk) : Through index body disk disk :=
  ⟨⟨disk.fs.bytesOf body, (changeBody_bytesOf disk.fs body).symm⟩, fun _ => rfl, rfl⟩

theorem Through.trans {a b c : Disk} (hab : Through index body a b) (hbc : Through index body b c) :
    Through index body a c := by
  obtain ⟨first, hfirst⟩ := hab.fs
  obtain ⟨second, hsecond⟩ := hbc.fs
  refine ⟨⟨second, ?_⟩, fun hne => (hbc.files hne).trans (hab.files hne), hbc.leftovers.trans hab.leftovers⟩
  rw [hsecond, hfirst, FileSystem.changeBody_changeBody]
  rfl

/-- A path names the file that it named before. -/
theorem Through.bodyAt? {path : Text} (h : Through index body disk disk') :
    disk'.bodyAt? path = disk.bodyAt? path := by
  obtain ⟨bytes, hfs⟩ := h.fs
  rw [Disk.bodyAt?, Disk.bodyAt?, hfs, FileSystem.openBody_changeBody]
  rfl

theorem through_changeFile (f : OpenFile → OpenFile) (disk : Disk) :
    Through index body disk { disk with files := disk.files.modify index f } := by
  refine ⟨(Through.refl index body disk).fs, fun hne => ?_, rfl⟩
  simp only
  rw [List.getElem?_modify]
  simp [Ne.symm hne]

/-! ### What a handle shows -/

/-- A handle that is open on a file in some way and shows its user a cursor, on a disk on which only that file and
that handle may have changed since some start. A direct handle has no window. -/
structure Showing (index body : Nat) (access : Access) (start : Disk) (c : Cursor) (disk : Disk) (file : OpenFile) :
    Prop where
  found : disk.files[index]? = some file
  sameBody : file.body = body
  sameAccess : file.access = access
  opened : file.closed = false
  there : body < disk.fs.bodies.length
  fits : (disk.buffered file).Fits
  view : (disk.buffered file).view = c
  direct : access = .direct → file.window = .idle
  through : Through index body start disk

/-- The handle with an index shows a cursor. -/
def Shows (index body : Nat) (access : Access) (start : Disk) (c : Cursor) (disk : Disk) : Prop :=
  ∃ file, Showing index body access start c disk file

variable {α : Type} {answer : α}

/-- What a request finds out about its handle when it looks it up. -/
structure Looked (access : Access) (c : Cursor) (file : OpenFile) : Prop where
  sameAccess : file.access = access
  opened : file.closed = false
  position : ∀ disk : Disk, (disk.buffered file).position = c.position
  direct : access = .direct → file.position = c.position

/-- A request begins with looking up its handle. -/
theorem does_file {next : OpenFile → Call Disk α}
    (h : ∀ {file : OpenFile}, Looked access c file → Does (Shows index body access start) c (next file) answer c') :
    Does (Shows index body access start) c (Disk.file index >>= next) answer c' := by
  intro disk hshows
  obtain ⟨file, hs⟩ := hshows
  have hposition : (disk.buffered file).position = c.position := by
    rw [Buffered.position_eq hs.fits, hs.view]
  rw [Call.outcome_bind, outcome_file hs.found]
  refine h ⟨hs.sameAccess, hs.opened, fun _ => hposition, fun hdirect => ?_⟩ disk ⟨file, hs⟩
  rw [← hposition, Buffered.position, buffered, hs.direct hdirect]
  rfl

theorem does_checkOpen (hopen : file.closed = false) (words : String) :
    Does (Shows index body access start) c (checkOpen file words) () c := by
  rw [checkOpen, if_neg (by simp [hopen])]
  exact does_pure ()

theorem does_require {condition : Prop} [Decidable condition] (h : condition) (failure : Failure) :
    Does (Shows index body access start) c (require condition failure) () c := by
  rw [require, if_pos h]
  exact does_pure ()

/-- Work on the file of a handle does to the cursor what it does to the view. -/
theorem does_onBuffered {f : Buffered → α × Buffered}
    (h : ∀ {b : Buffered}, b.Fits → b.view = c → (access = .direct → b.window = .idle) →
      (f b).1 = answer ∧ (f b).2.Fits ∧ (f b).2.view = c' ∧ (access = .direct → (f b).2.window = .idle)) :
    Does (Shows index body access start) c (onBuffered index f) answer c' := by
  intro disk hshows
  obtain ⟨file, hs⟩ := hshows
  obtain ⟨hanswer, hfits, hview, hdirect⟩ := h hs.fits hs.view hs.direct
  have hbody := hs.sameBody
  subst hbody
  rw [outcome_onBuffered hs.found, hanswer]
  generalize hafter : (f (disk.buffered file)).2 = after at hfits hview hdirect
  -- the handle is written back beside the bytes, so it sees what the buffered file has become
  have hsame : ∀ disk' : Disk, disk'.fs = (disk.fs.changeBody file.body fun body => { body with bytes := after.file.bytes }) →
      disk'.buffered { file with position := after.file.position, window := after.window } = after := by
    intro disk' hfs
    have happends := hs.fits.appends
    rw [buffered] at happends
    obtain ⟨⟨bytes, position⟩, appends, window⟩ := after
    rw [buffered, hfs]
    simp only [Buffered.mk.injEq, Cursor.mk.injEq, and_true]
    exact ⟨FileSystem.bytesOf_changeBody_self hs.there _, happends.trans hfits.appends.symm⟩
  -- the same handle with the new window: found again, opened, within its file, and showing the new cursor
  refine ⟨_, rfl, ⟨{ file with position := after.file.position, window := after.window }, ?_, rfl, hs.sameAccess,
    hs.opened, ?_, ?_, ?_, hdirect, hs.through.trans ⟨⟨after.file.bytes, rfl⟩, fun hne => ?_, rfl⟩⟩⟩
  · simp only
    rw [List.getElem?_modify, hs.found]
    simp
  · rw [FileSystem.length_changeBody]
    exact hs.there
  · rw [hsame _ rfl]
    exact hfits
  · rw [hsame _ rfl]
    exact hview
  · simp only
    rw [List.getElem?_modify]
    simp [Ne.symm hne]

/-- Work on the file where the system finds no fault. -/
theorem does_onFallible {f : Buffered → Except Fault α × Buffered}
    (h : ∀ {b : Buffered}, b.Fits → b.view = c → (access = .direct → b.window = .idle) →
      (f b).1 = .ok answer ∧ (f b).2.Fits ∧ (f b).2.view = c' ∧ (access = .direct → (f b).2.window = .idle)) :
    Does (Shows index body access start) c (onFallible index f) answer c' :=
  (does_onBuffered h).bind (does_pure answer)

/-- Work of a direct handle, which sees the file itself. -/
theorem does_onDirect {f : Cursor → Except Fault (α × Cursor)} (h : f c = .ok (answer, c')) :
    Does (Shows index body .direct start) c (onDirect index f) answer c' := by
  refine does_onFallible fun {b} hfits hview hdirect => ?_
  have hfile : b.file = c := by rw [← hview, view_idle (hdirect rfl)]
  simp only [hfile, h]
  exact ⟨trivial, fits_idle (hdirect rfl) hfits.appends, view_idle (hdirect rfl), fun _ => hdirect rfl⟩

/-! ### Requests -/

/-- A handle that can read takes bytes from its cursor. -/
theorem does_read (hreads : access.reads = true) {count : Option Int} {n : Option Count}
    (hcount : Count.ofOption count = .ok n) (hroom : Count.asked n ≤ Count.room)
    (hleast : access = .direct ∨ -1 ≤ Count.asked n) :
    Does (Shows index body access start) c (read index count) (c.read n).1 (c.read n).2 := by
  rw [read, hcount]
  refine does_file fun {file} hfile => ?_
  cases access with
  | writer appends => simp [Access.reads] at hreads
  | direct =>
    rw [hfile.sameAccess]
    exact (does_ofExcept n).bind
      ((does_checkOpen hfile.opened _).bind ((does_require hroom _).bind (does_onDirect rfl)))
  | reader | update =>
    -- with a window the number has been checked to be at least -1
    have hmin : ¬ Count.asked n < -1 := Int.not_lt.mpr (hleast.resolve_left (by simp))
    rw [hfile.sameAccess]
    refine (does_ofExcept n).bind ?_
    simp only [if_neg hmin]
    refine (does_checkOpen hfile.opened _).bind ((does_require hroom _).bind ?_)
    refine does_onBuffered fun {b} hfits hview _ => ?_
    subst hview
    -- a number below zero asks for all the rest
    split_ifs with hneg
    · obtain ⟨hanswer, hadvanced⟩ := Buffered.readAll_spec hfits
      rw [Cursor.read_of_neg hneg, Cursor.take_eq, List.take_length]
      exact ⟨hanswer, hadvanced.fits, by rw [hadvanced.view, hanswer], by simp⟩
    · obtain ⟨hanswer, hadvanced⟩ := Buffered.read_spec hfits (Count.asked n).toNat
      rw [Cursor.read_of_nonneg (Int.not_lt.mp hneg), Cursor.take_eq]
      exact ⟨hanswer, hadvanced.fits, by rw [← hanswer]; exact hadvanced.view, by simp⟩

/-- A handle that can read takes no number that is no count, also when it is closed. -/
theorem outcome_read_of_misfit (h : disk.files[index]? = some file) (hreads : file.access.reads = true)
    {count : Option Int} (hmisfit : ¬ Fits (count.getD (-1))) :
    (read index count).outcome disk = (.error Count.misfit, disk) := by
  rw [read, Call.outcome_bind, outcome_file h, Count.ofOption_of_not_fits hmisfit]
  cases haccess : file.access with
  | writer appends => simp [haccess, Access.reads] at hreads
  | reader | update | direct =>
    simp only [haccess]
    rfl

/-- A handle that can write, and not only at the end of the file, writes at its cursor. -/
theorem does_write (hwrites : access.writes = true) (data : Bytes) :
    Does (Shows index body access start) c (write index data) data.length (c.write data) := by
  -- only unbuffered access reaches the body at once; otherwise the data may stay in the buffer
  have hwork : access ≠ .direct →
      Does (Shows index body access start) c (onBuffered index fun b => ((), b.write data)) () (c.write data) := by
    refine fun hbuffered => does_onBuffered fun {b} hfits hview _ => ?_
    obtain ⟨hafter, hwritten⟩ := Buffered.write_spec hfits data
    exact ⟨rfl, hafter, by rw [hwritten, hview], fun hdirect => absurd hdirect hbuffered⟩
  rw [write]
  refine does_file fun {file} hfile => ?_
  rw [hfile.sameAccess]
  cases access with
  | reader => simp [Access.writes] at hwrites
  | direct => exact (does_checkOpen hfile.opened _).bind ((does_onDirect rfl).bind (does_pure _))
  | writer appends | update =>
    exact (does_checkOpen hfile.opened _).bind ((hwork (by simp)).bind (does_pure _))

/-- Flushing changes nothing about what a handle shows. -/
theorem does_flush : Does (Shows index body access start) c (flush index) () c := by
  rw [flush]
  refine does_file fun {file} hfile => ?_
  refine (does_checkOpen hfile.opened _).bind ?_
  split_ifs
  · refine does_onBuffered fun {b} hfits hview _ => ?_
    obtain ⟨hafter, hsame⟩ := Buffered.settle_spec hfits
    exact ⟨rfl, hafter, hsame.trans hview, fun _ => rfl⟩
  · exact does_pure ()

/-- Flushing a handle that can write stores its cursor's bytes in the file. -/
theorem bytesOf_flush (hwrites : access.writes = true) (h : Shows index body access start c disk) :
    ((flush index).outcome disk).2.fs.bytesOf body = c.bytes := by
  obtain ⟨file, hs⟩ := h
  have hview := hs.view
  have hbody := hs.sameBody
  subst hbody
  rw [flush, Call.outcome_bind, outcome_file hs.found]
  simp only [checkOpen, hs.opened, hs.sameAccess, hwrites, Bool.false_eq_true, if_false, if_true]
  rw [Call.outcome_bind, Call.outcome_pure]
  simp only
  rw [outcome_onBuffered hs.found, Buffered.settle_eq hs.fits, hview]
  exact FileSystem.bytesOf_changeBody_self hs.there _

/-- A handle that is open is flushed and closed. -/
theorem outcome_close (h : Shows index body access start c disk) :
    ∃ flushed, (flush index).outcome disk = (.ok (), flushed) ∧ Through index body start flushed ∧
      (close index).outcome disk =
        (.ok (), { flushed with files := flushed.files.modify index fun file => { file with closed := true } }) := by
  obtain ⟨flushed, hflush, _, hflushed⟩ := does_flush disk h
  obtain ⟨file, hs⟩ := h
  refine ⟨flushed, hflush, hflushed.through, ?_⟩
  rw [close, Call.outcome_bind, outcome_file hs.found]
  simp only [hs.opened, Bool.false_eq_true, if_false]
  rw [Call.outcome_bind, hflush]
  rfl

/-- Closing a handle that can write leaves its cursor's bytes in the file. -/
theorem outcome_close_of_shows (hwrites : access.writes = true) (h : Shows index body access start c disk) :
    ∃ disk', (close index).outcome disk = (.ok (), disk') ∧ disk'.fs.bytesOf body = c.bytes ∧
      Through index body start disk' := by
  obtain ⟨flushed, hflush, hthrough, hclose⟩ := outcome_close h
  have hbytes := bytesOf_flush hwrites h
  rw [hflush] at hbytes
  exact ⟨_, hclose, hbytes, hthrough.trans (through_changeFile _ flushed)⟩

/-- A path that leads to a file leads to no directory. -/
theorem leadsToDirectory_of_openBody {fs : FileSystem} {native : Text} (h : fs.openBody native = .ok body) :
    leadsToDirectory fs native = false := by
  obtain ⟨hcheck, key, left, hfollow, hentry⟩ := FileSystem.openBody_eq_ok_iff.mp h
  rw [leadsToDirectory, FileSystem.find_eq_ok_iff.mpr ⟨hcheck, left, hfollow, by rw [hentry]; rfl⟩]
  simp [FileSystem.isDirectory, hentry]

/-- A new handle at the start of its file shows the file. -/
theorem shows_new (hthere : body < disk.fs.bodies.length) (hplain : access.appends = false) :
    Shows disk.files.length body access disk ⟨disk.fs.bytesOf body, 0⟩
      { disk with files := disk.files ++ [⟨body, access, 0, .idle, none, false⟩] } := by
  refine ⟨⟨body, access, 0, .idle, none, false⟩, List.getElem?_concat_length, rfl, rfl, rfl, hthere,
    fits_idle rfl hplain, view_idle rfl, fun _ => rfl, ⟨(Through.refl 0 body disk).fs, fun hne => ?_, rfl⟩⟩
  simp only
  rw [List.getElem?_append]
  split_ifs with hlt
  · rfl
  · rw [List.getElem?_eq_none (Nat.le_of_not_lt hlt), List.getElem?_eq_none]
    simp only [List.length_singleton]
    omega

/-- Opening a file in a mode that writes shows the file from its start. -/
theorem outcome_openHandle {mode : HandleMode} {path : Text} (hmode : mode.writes = true) (hw : disk.fs.WellFormed)
    (h : disk.bodyAt? path = some body) :
    ∃ disk', (openHandle path mode.name).outcome disk = (.ok disk.files.length, disk') ∧
      Shows disk.files.length body (if mode.isSync then .direct else .update) disk ⟨disk.fs.bytesOf body, 0⟩
        disk' := by
  obtain ⟨huser, hnul, hopen⟩ := bodyAt?_eq_some_iff.mp h
  obtain ⟨-, key, -, -, hentry⟩ := FileSystem.openBody_eq_ok_iff.mp hopen
  -- the file is there, so opening for writing makes none
  have hbody : (bodyForWriting path).outcome disk = (.ok body, disk) := by
    rw [outcome_bodyForWriting, if_neg (by simp [huser, hnul]), FileSystem.openOrMake_of_openBody hw hopen]
  have hplain : Access.appends (if mode.isSync then .direct else .update) = false := by split <;> rfl
  refine ⟨_, ?_, shows_new (hw.bodies hentry) hplain⟩
  rw [openHandle, HandleMode.parse_name, Call.outcome_bind, Call.outcome_ofExcept]
  simp only
  rw [Call.outcome_bind, outcome_tested, if_neg (by simp [huser])]
  simp only
  rw [Call.outcome_bind, Call.outcome_get]
  simp only [leadsToDirectory_of_openBody hopen, hmode, Bool.false_eq_true, if_false, if_true]
  rw [Call.outcome_bind, hbody]
  rfl

end FileRouter.Disk
