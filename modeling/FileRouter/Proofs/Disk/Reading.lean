import FileRouter.Proofs.Disk.Opening
import FileRouter.Proofs.Request
/-!
Reading from the disk.

A request that reads leaves the file system as it is, and so does everything that is asked of a handle that was
opened for reading. Reading through a window puts back the bytes it has found, so the file system that is left
is the one that was there (`undisturbed_onFile`).
-/

namespace FileRouter.Disk

open Call
open Buffered (Unwritten)

variable {disk disk' disk'' : Disk} {index : Nat}

/-- The handle with an index was opened for reading and has nothing to store. -/
def OnlyReads (disk : Disk) (index : Nat) : Prop :=
  ∃ file, disk.files[index]? = some file ∧ file.access = .reader ∧ file.window.pending = none

/-- What reading leaves of a disk: its file system, what is to be removed at the end, and handles that can only
read. -/
structure Undisturbed (disk disk' : Disk) : Prop where
  fs : disk'.fs = disk.fs
  leftovers : disk'.leftovers = disk.leftovers
  files : ∀ {index : Nat}, OnlyReads disk index → OnlyReads disk' index

theorem Undisturbed.refl (disk : Disk) : Undisturbed disk disk := ⟨rfl, rfl, fun h => h⟩

theorem Undisturbed.trans (h : Undisturbed disk disk') (h' : Undisturbed disk' disk'') :
    Undisturbed disk disk'' :=
  ⟨h'.fs.trans h.fs, h'.leftovers.trans h.leftovers, fun hf => h'.files (h.files hf)⟩

/-! ### Requests -/

theorem undisturbed_addFile (file : OpenFile) (disk : Disk) :
    Undisturbed disk { disk with files := disk.files ++ [file] } := by
  refine ⟨rfl, rfl, fun {index} h => ?_⟩
  obtain ⟨old, hold, haccess, hidle⟩ := h
  refine ⟨old, ?_, haccess, hidle⟩
  rw [List.getElem?_append_left (List.getElem?_eq_some_iff.mp hold).1, hold]

/-- What opening a file for reading does to a disk and answers: the disk is undisturbed, and the handle can only
read. -/
def Quiet (disk : Disk) (out : Except Failure Nat × Disk) : Prop :=
  Undisturbed disk out.2 ∧ ∀ {index : Nat}, out.1 = .ok index → OnlyReads out.2 index

theorem quiet_openInput (path : Text) (disk : Disk) : Quiet disk ((openInput path).outcome disk) := by
  rw [openInput, outcome_bind, outcome_native]
  split_ifs
  · exact ⟨.refl disk, fun h => by simp at h⟩
  · simp only
    rw [outcome_bind, outcome_reported_ask]
    cases disk.fs.openBody (nativePath disk.fs path) with
    | error fault => exact ⟨.refl disk, fun h => by simp [Except.mapError] at h⟩
    | ok body =>
      refine ⟨undisturbed_addFile _ disk, fun {index} h => ?_⟩
      obtain rfl := Except.ok.inj h
      exact ⟨_, List.getElem?_concat_length, rfl, rfl⟩

theorem quiet_openHandle {path mode : Text} (h : (Request.openHandle path mode).Reads) (disk : Disk) :
    Quiet disk ((openHandle path mode).outcome disk) := by
  rw [openHandle, outcome_bind, outcome_ofExcept]
  cases hp : HandleMode.parse mode path with
  | error failure => exact ⟨.refl disk, fun h => by simp at h⟩
  | ok parsed =>
    -- a mode that reads is the one that opens as an input does
    have hreads : parsed.writes = false := h hp
    simp only [hreads, Bool.false_eq_true, if_false]
    rw [outcome_bind, outcome_tested]
    by_cases huser : hasBadUser path = true
    · rw [if_pos huser]
      exact ⟨.refl disk, fun h => by simp at h⟩
    · rw [if_neg huser]
      simp only
      rw [outcome_bind, outcome_get]
      simp only
      by_cases hdir : leadsToDirectory disk.fs (nativePath disk.fs path) = true
      · rw [if_pos hdir]
        exact ⟨.refl disk, fun h => by simp at h⟩
      · rw [if_neg hdir]
        exact quiet_openInput path disk

/-- A call that leaves every disk as it is. -/
def Looks {α : Type} (call : Call Disk α) : Prop := ∀ disk, (call.outcome disk).2 = disk

theorem looks_tested (path : Text) : Looks (tested path) := by
  intro disk
  rw [outcome_tested]
  split_ifs <;> rfl

theorem looks_native (path : Text) : Looks (native path) := by
  intro disk
  rw [outcome_native]
  split_ifs <;> rfl

theorem looks_bind {α β : Type} {call : Call Disk α} {next : α → Call Disk β} (h : Looks call)
    (hnext : ∀ value, Looks (next value)) : Looks (call >>= next) := by
  intro disk
  have hcall := h disk
  rw [outcome_bind]
  cases hc : call.outcome disk with
  | mk result disk' =>
    rw [hc] at hcall
    obtain rfl : disk' = disk := hcall
    cases result with
    | error failure => rfl
    | ok value => exact hnext value disk'

theorem looks_asked {α : Type} (path native : Text) (f : FileSystem → Except Fault α) :
    Looks (reported path (ask [native] f)) := by
  intro disk
  rw [outcome_reported_ask]

/-- Every request but those that open a file answers without a trace, if it reads. -/
theorem looks_perform {request : Request} (h : request.Reads) (hopens : ∀ reply : request.Reply Nat,
    request.handle? reply = none) (s : Disk × TokenSource) : ((perform request).outcome s).2 = s := by
  obtain ⟨disk, tokens⟩ := s
  have hplain : ∀ {α : Type} {call : Call Disk α}, Looks call →
      ((plain call).outcome (disk, tokens)).2 = (disk, tokens) :=
    fun {_ call} hc => Prod.ext (hc disk) rfl
  have hseen : ∀ {α : Type} (path : Text) (f : FileSystem → Text → α),
      ((seen path f).outcome (disk, tokens)).2 = (disk, tokens) :=
    fun path f => hplain (looks_bind (looks_tested path) fun _ => looks_bind (fun _ => rfl) fun _ _ => rfl)
  have hasked : ∀ {α : Type} (path : Text) (f : FileSystem → Text → Except Fault α),
      ((asked path f).outcome (disk, tokens)).2 = (disk, tokens) :=
    fun path f => hplain (looks_bind (looks_native path) fun native => looks_asked path native _)
  -- every request that reads looks at paths and then at the file system, which changes neither
  cases request with
  | createDirectory | createFile | delete | move | openOutput | setReadOnly | createTemp =>
    exact h.elim
  | openHandle path mode => simp [Request.handle?] at hopens
  | openInput path => simp [Request.handle?] at hopens
  | «exists» path | isDirectory path =>
    exact hplain (looks_bind (looks_tested path) fun _ => looks_bind (fun _ => rfl) fun _ _ => rfl)
  | canonicalPath path => exact hplain (canonicalPath_unchanged path)
  | parent path => exact hseen path fun fs _ => parent? fs path
  | isAbsolute path => exact hseen path fun _ native => native.head? == some '/'
  | name path => exact hseen path fun fs _ => NativePath.lastPart (trimmedNative fs path)
  | isReadOnly path => exact hseen path fun fs native => (fs.find native).isOk && !isWritable fs native
  | listFiles path =>
    exact hplain (looks_bind (looks_native path) fun native =>
      looks_bind (looks_asked path native _) fun _ _ => rfl)
  | lastModified path =>
    rw [perform, outcome_map]
    exact hasked path _
  | size path =>
    rw [perform, outcome_map]
    exact hasked path _
  | canWrite path =>
    exact hplain (looks_bind (looks_native path) fun _ => looks_bind (fun _ => rfl) fun _ _ => rfl)
  | unwrap path => rfl
  | startsWith path start =>
    exact hplain (looks_bind (looks_tested path) fun _ => looks_bind (looks_tested start) fun _ _ => rfl)

/-- **A request that reads** leaves the file system and the tokens as they are, and opens a handle that can only
read, if it opens any. -/
theorem undisturbed_perform {request : Request} (h : request.Reads) (s : Disk × TokenSource) :
    Undisturbed s.1 ((perform request).outcome s).2.1 ∧ ((perform request).outcome s).2.2 = s.2 ∧
      ∀ {reply : request.Reply Nat} {index : Nat}, ((perform request).outcome s).1 = .ok reply →
        request.handle? reply = some index → OnlyReads ((perform request).outcome s).2.1 index := by
  cases request with
  | openHandle path mode =>
    obtain ⟨hsame, hhandle⟩ := quiet_openHandle h s.1
    exact ⟨hsame, rfl, fun hr hi => hhandle (hr.trans (congrArg Except.ok (Option.some.inj hi)))⟩
  | openInput path =>
    obtain ⟨hsame, hhandle⟩ := quiet_openInput path s.1
    exact ⟨hsame, rfl, fun hr hi => hhandle (hr.trans (congrArg Except.ok (Option.some.inj hi)))⟩
  | openOutput path append => exact h.elim
  | _ =>
    have hsame := looks_perform h (fun _ => rfl) s
    rw [hsame]
    exact ⟨.refl s.1, rfl, fun _ hi => by simp [Request.handle?] at hi⟩

/-! ### Handles -/

/-- Bytes that are put back where they were leave the file system as it was. -/
theorem changeBody_bytesOf (fs : FileSystem) (index : Nat) :
    (fs.changeBody index fun body => { body with bytes := fs.bytesOf index }) = fs := by
  have hbodies : (fs.bodies.modify index fun body => { body with bytes := fs.bytesOf index }) = fs.bodies := by
    refine List.ext_getElem? fun other => ?_
    rw [List.getElem?_modify]
    by_cases he : index = other
    · subst he
      rw [FileSystem.bytesOf, FileSystem.body?]
      cases fs.bodies[index]? <;> simp
    · simp [he]
  rw [FileSystem.changeBody, hbodies]

/-- A handle that can only read leaves a disk undisturbed and itself as it is, when it notes something and when
it reads. -/
theorem keptByWork_undisturbed (disk : Disk) (index : Nat) :
    KeptByWork index fun disk' => Undisturbed disk disk' ∧ OnlyReads disk' index where
  note {f} hf disk' h := by
    obtain ⟨hsame, hreads⟩ := h
    -- what is noted concerns neither what a handle may do nor what it has to store
    have hchange : Undisturbed disk' ((changeFile index f).outcome disk').2 := by
      refine ⟨rfl, rfl, fun {other} ho => ?_⟩
      obtain ⟨old, hold, haccess, hidle⟩ := ho
      change ∃ file, (disk'.files.modify index f)[other]? = some file ∧ _
      rw [List.getElem?_modify, hold]
      by_cases he : index = other
      · exact ⟨f old, by simp [he], (hf old).2.1.trans haccess, (hf old).2.2.symm ▸ hidle⟩
      · exact ⟨old, by simp [he], haccess, hidle⟩
    exact ⟨hsame.trans hchange, hchange.files hreads⟩
  reading {_ f} hf disk' h := by
    obtain ⟨hsame, file, hfile, haccess, hidle⟩ := h
    have hreads : OnlyReads disk' index := ⟨file, hfile, haccess, hidle⟩
    have hunwritten := hf (disk'.buffered file) hidle
    have hchange : Undisturbed disk' ((onBuffered index f).outcome disk').2 := by
      rw [outcome_onBuffered hfile]
      refine ⟨?_, rfl, fun {other} ho => ?_⟩
      · rw [hunwritten.bytes]
        exact changeBody_bytesOf disk'.fs file.body
      · obtain ⟨old, hold, hreader, hidle'⟩ := ho
        change ∃ file, (disk'.files.modify index _)[other]? = some file ∧ _
        rw [List.getElem?_modify, hold]
        by_cases he : index = other
        · let read : OpenFile :=
            { old with
              position := (f (disk'.buffered file)).2.file.position
              window := (f (disk'.buffered file)).2.window }
          exact ⟨read, by simp [he, read], hreader, hunwritten.pending⟩
        · exact ⟨old, by simp [he], hreader, hidle'⟩
    exact ⟨hsame.trans hchange, hchange.files hreads⟩
  work f hfile haccess h := by
    obtain ⟨-, file', hfile', haccess', -⟩ := h
    rw [hfile] at hfile'
    obtain rfl := Option.some.inj hfile'
    exact absurd haccess' haccess

/-- **Whatever is asked** of a handle that can only read, the file system stays as it is. -/
theorem undisturbed_onFile (h : OnlyReads disk index) (request : StreamRequest) :
    Undisturbed disk ((onFile index request).outcome disk).2 :=
  ((keptByWork_undisturbed disk index).onFile request disk ⟨.refl disk, h⟩).1

end FileRouter.Disk
