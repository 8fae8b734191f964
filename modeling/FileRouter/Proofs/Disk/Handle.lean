import FileRouter.Proofs.Disk.Request
import FileRouter.Proofs.Disk.Tree
/-!
Handles and the files that they leave alone.

A handle is harmless to a file when it is on another file, or is a reader that has nothing to store. Whatever
is asked of a harmless handle, the file keeps its bytes, and every handle that is harmless or has nothing to
store stays so (`kept_onFile`).
-/

namespace FileRouter.Disk

open Buffered (Unwritten)

variable {α : Type} {index body : Nat} {disk : Disk} {file : OpenFile}

/-! ### Harmless handles -/

/-- A handle that has nothing to store in the file with a body. -/
def Idle (body : Nat) (file : OpenFile) : Prop :=
  file.body ≠ body ∨ file.window.pending = none

/-- A handle that cannot change the file with a body: it is on another file, or it only reads and has nothing
to store. -/
def Harmless (body : Nat) (file : OpenFile) : Prop :=
  file.body ≠ body ∨ (file.access = .reader ∧ file.window.pending = none)

theorem Harmless.idle (h : Harmless body file) : Idle body file := h.imp_right And.right

/-- A handle before and after something that does no harm to a file: it has nothing more to store there. -/
structure Calm (body : Nat) (file file' : OpenFile) : Prop where
  same : file'.body = file.body
  access : file'.access = file.access
  pending : file.body = body → file.window.pending = none → file'.window.pending = none

theorem Calm.refl (file : OpenFile) : Calm body file file := ⟨rfl, rfl, fun _ h => h⟩

theorem Calm.trans {a b c : OpenFile} (hab : Calm body a b) (hbc : Calm body b c) : Calm body a c :=
  ⟨hbc.same.trans hab.same, hbc.access.trans hab.access,
    fun hb hp => hbc.pending (hab.same.trans hb) (hab.pending hb hp)⟩

theorem Idle.of_calm {file' : OpenFile} (h : Idle body file) (hc : Calm body file file') :
    Idle body file' := by
  by_cases hb : file.body = body
  · exact Or.inr (hc.pending hb (h.resolve_left (not_not_intro hb)))
  · exact Or.inl (hc.same.trans_ne hb)

theorem Harmless.of_calm {file' : OpenFile} (h : Harmless body file) (hc : Calm body file file') :
    Harmless body file' := by
  by_cases hb : file.body = body
  · obtain ⟨haccess, hp⟩ := h.resolve_left (not_not_intro hb)
    exact Or.inr ⟨hc.access.trans haccess, hc.pending hb hp⟩
  · exact Or.inl (hc.same.trans_ne hb)

/-- What calls that do no harm to a file leave: its bytes, and every handle calm. -/
structure Kept (body : Nat) (disk disk' : Disk) : Prop where
  bytes : disk'.fs.bytesOf body = disk.fs.bytesOf body
  files : ∀ {index : Nat} {file : OpenFile}, disk.files[index]? = some file →
    ∃ file', disk'.files[index]? = some file' ∧ Calm body file file'

theorem Kept.refl (disk : Disk) : Kept body disk disk :=
  ⟨rfl, fun {_ file} h => ⟨file, h, .refl file⟩⟩

theorem Kept.trans {a b c : Disk} (hab : Kept body a b) (hbc : Kept body b c) : Kept body a c := by
  refine ⟨hbc.bytes.trans hab.bytes, fun h => ?_⟩
  obtain ⟨file', h', hcalm⟩ := hab.files h
  obtain ⟨file'', h'', hcalm'⟩ := hbc.files h'
  exact ⟨file'', h'', hcalm.trans hcalm'⟩

theorem kept_changeFile (index : Nat) {f : OpenFile → OpenFile}
    (hf : ∀ file, Calm body file (f file)) (disk : Disk) :
    Kept body disk ((changeFile index f).outcome disk).2 := by
  refine ⟨rfl, fun {other file} h => ?_⟩
  change ∃ file', (disk.files.modify index f)[other]? = some file' ∧ _
  rw [List.getElem?_modify, h]
  by_cases he : index = other
  · exact ⟨f file, by simp [he], hf file⟩
  · exact ⟨file, by simp [he], .refl file⟩

/-- Work on another file, or work that writes nothing, does no harm. -/
theorem kept_onBuffered (h : disk.files[index]? = some file) (f : Buffered → α × Buffered)
    (hf : file.body ≠ body ∨ Unwritten (disk.buffered file) (f (disk.buffered file)).2) :
    Kept body disk ((onBuffered index f).outcome disk).2 := by
  rw [outcome_onBuffered h]
  constructor
  -- what is put back as the file's bytes are the bytes that were read
  · rw [FileSystem.bytesOf_changeBody]
    split_ifs with hb
    · rcases hf with hne | hu
      · exact absurd hb hne
      · rw [hu.bytes, buffered, ← hb]
        simp only [FileSystem.bytesOf]
        cases disk.fs.body? file.body <;> rfl
    · rfl
  · intro other old ho
    change ∃ file', (disk.files.modify index _)[other]? = some file' ∧ _
    rw [List.getElem?_modify, ho]
    by_cases he : index = other
    · subst he
      obtain rfl := Option.some.inj (h.symm.trans ho)
      refine ⟨_, by simp only [if_true]; rfl, ?_⟩
      exact ⟨rfl, rfl, fun hb _ => (hf.resolve_left (not_not_intro hb)).pending⟩
    · exact ⟨old, by simp [he], .refl old⟩

/-- A handle that has nothing to store in a file may note things and read, and the file is kept. -/
theorem keptByReading (h : disk.files[index]? = some file) (hi : Idle body file) :
    KeptByReading index (Kept body disk) := by
  constructor
  · intro f hf disk' hk
    refine hk.trans (kept_changeFile index (fun file => ?_) disk')
    obtain ⟨hbody, haccess, hwindow⟩ := hf file
    exact ⟨hbody, haccess, fun _ hp => hwindow ▸ hp⟩
  · intro α f hf disk' hk
    obtain ⟨file', hfile, hcalm⟩ := hk.files h
    exact hk.trans (kept_onBuffered hfile f ((hi.of_calm hcalm).imp_right (hf _)))

theorem keptByWork (h : disk.files[index]? = some file) (hh : Harmless body file) :
    KeptByWork index (Kept body disk) := by
  refine ⟨keptByReading h hh.idle, fun {α disk' file'} f hfile haccess hk => ?_⟩
  obtain ⟨file'', hfile'', hcalm⟩ := hk.files h
  obtain rfl := Option.some.inj (hfile.symm.trans hfile'')
  -- the handle is not for reading, so it can only be on another file
  have hother : file'.body ≠ body := (hh.of_calm hcalm).resolve_right fun hr => haccess hr.1
  exact hk.trans (kept_onBuffered hfile f (Or.inl hother))

/-- **No harm.** Whatever is asked of a handle that is harmless to a file, the file keeps its bytes and every
handle stays calm. -/
theorem kept_onFile (h : disk.files[index]? = some file) (hh : Harmless body file)
    (request : StreamRequest) : Kept body disk ((onFile index request).outcome disk).2 :=
  (keptByWork h hh).onFile request disk (.refl disk)

/-- Closing a handle that has nothing to store in a file does no harm to it. -/
theorem kept_close (h : disk.files[index]? = some file) (hi : Idle body file) :
    Kept body disk ((close index).outcome disk).2 :=
  (keptByReading h hi).close disk (.refl disk)

/-! ### An empty file -/

theorem Buffered.readFile_of_empty {b : Buffered} (hb : b.file.bytes = []) (count : Nat) :
    (b.readFile count).1 = [] := by
  simp [readFile, Cursor.take, Cursor.rest, hb]

theorem Buffered.readBlock_of_empty {b : Buffered} (hb : b.file.bytes = []) (count : Nat) :
    (b.readBlock count).1 = [] := by
  rw [readBlock]
  simp only [readFile_of_empty hb, List.take_nil]

section Empty

variable {b : Buffered} (hidle : b.window = .idle) (hb : b.file.bytes = [])

include hidle

theorem Buffered.ahead_of_idle : b.window.ahead = [] := by
  rw [hidle]
  rfl

theorem Buffered.pending_of_idle : b.window.pending = none := by
  rw [hidle]
  rfl

include hb

theorem Buffered.read_of_empty (count : Nat) : (b.read count).1 = [] := by
  have hsettled := unwritten_settle_advance (pending_of_idle hidle) 0
  have hread := fun n => readFile_of_empty (hsettled.bytes.trans hb) n
  rw [read, ahead_of_idle hidle]
  simp only [List.length_nil, List.nil_append, List.take_nil, hread]
  split_ifs
  · rfl
  · rfl
  · have hempty := hsettled.bytes.trans hb
    exact readBlock_of_empty ((unwritten_readFile hsettled.pending _).bytes.trans hempty) _
  · rfl

theorem Buffered.readAll_of_empty : b.readAll.1 = [] := by
  have hsettled := unwritten_settle_advance (pending_of_idle hidle) 0
  rw [readAll, ahead_of_idle hidle]
  exact readFile_of_empty (hsettled.bytes.trans hb) _

end Empty

/-- From an empty file nothing is read, whatever number of bytes is asked for. -/
theorem eq_nil_of_read (h : disk.files[index]? = some file) (haccess : file.access = .reader)
    (hidle : file.window = .idle) (hbytes : disk.fs.bytesOf file.body = []) {count : Option Int} {bytes : Bytes}
    (hread : ((read index count).outcome disk).1 = .ok bytes) : bytes = [] := by
  rw [read, Call.outcome_bind, outcome_file h] at hread
  simp only [haccess] at hread
  rw [Call.outcome_bind, Call.outcome_ofExcept] at hread
  cases hcount : Count.ofOption count with
  | error failure => simp [hcount] at hread
  | ok n =>
    rw [hcount] at hread
    -- what does not pass the checks does not get to the file
    by_cases hleast : Count.asked n < -1
    · simp [hleast] at hread
    by_cases hclosed : file.closed = true
    · simp [hleast, checkOpen, hclosed] at hread
    by_cases hroom : Count.asked n ≤ Count.room
    case neg => simp [hleast, checkOpen, hclosed, checkRoom, require, hroom] at hread
    simp only [if_neg hleast, checkOpen, if_neg hclosed, checkRoom, require, if_pos hroom, Call.outcome_bind,
      Call.outcome_pure, outcome_onBuffered h, Except.ok.injEq] at hread
    rw [← hread]
    split_ifs
    · exact Buffered.readAll_of_empty hidle hbytes
    · exact Buffered.read_of_empty hidle hbytes _

end FileRouter.Disk
