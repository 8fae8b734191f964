import FileRouter.Disk.Handle
import Mathlib.Tactic.SplitIfs
/-!
What requests to a handle of the disk come down to.

Whatever a handle is asked, it looks itself up, notes something on itself, reads through its window, or works on
its file, which a handle for reading does not do. So a property of the disk that these leave as it holds, every
request leaves as it holds (`KeptByWork.onFile`); flushing and closing need less (`KeptByReading.close`).
-/

namespace FileRouter.Disk

namespace Buffered

variable {b c d : Buffered}

/-- What reading leaves of a buffered file: its bytes, and nothing to store. -/
structure Unwritten (b c : Buffered) : Prop where
  bytes : c.file.bytes = b.file.bytes
  pending : c.window.pending = none

theorem Unwritten.trans (h : Unwritten b c) (h' : Unwritten c d) : Unwritten b d :=
  ⟨h'.bytes.trans h.bytes, h'.pending⟩

theorem unwritten_advance (h : b.window.pending = none) (n : Nat) :
    Unwritten b { b with window := b.window.advance n } :=
  ⟨rfl, h⟩

theorem store_of_pending (h : b.window.pending = none) : b.store = b := by
  rw [store, h]

theorem unwritten_settle (h : b.window.pending = none) : Unwritten b b.settle := by
  rw [settle, store_of_pending h]
  exact ⟨rfl, rfl⟩

/-- Everything in the window has been taken, and it is given up. -/
theorem unwritten_settle_advance (h : b.window.pending = none) (n : Nat) :
    Unwritten b (settle { b with window := b.window.advance n }) :=
  (unwritten_advance h n).trans (unwritten_settle (unwritten_advance h n).pending)

theorem unwritten_readFile (h : b.window.pending = none) (count : Nat) :
    Unwritten b (b.readFile count).2 :=
  ⟨rfl, h⟩

theorem unwritten_readBlock (b : Buffered) (count : Nat) : Unwritten b (b.readBlock count).2 :=
  ⟨rfl, rfl⟩

theorem unwritten_read (h : b.window.pending = none) (count : Nat) :
    Unwritten b (b.read count).2 := by
  rw [read]
  split_ifs with hahead
  · exact unwritten_advance h count
  · have hsettled := unwritten_settle_advance h b.window.ahead.length
    have hread := fun n => hsettled.trans (unwritten_readFile hsettled.pending n)
    simp only
    split_ifs
    · exact ⟨(hread _).bytes, rfl⟩
    · exact (hread _).trans (unwritten_readBlock _ _)
    · exact hread _

theorem unwritten_readAll (h : b.window.pending = none) : Unwritten b b.readAll.2 := by
  have hsettled := unwritten_settle_advance h b.window.ahead.length
  exact hsettled.trans (unwritten_readFile hsettled.pending _)

theorem unwritten_readLine (h : b.window.pending = none) (limit : Option Count) :
    Unwritten b (b.readLine limit).2 := by
  rw [readLine]
  split_ifs with hahead
  · exact unwritten_advance h _
  · have hsettled := unwritten_settle_advance h b.window.ahead.length
    have hread := fun n => hsettled.trans (unwritten_readFile hsettled.pending n)
    simp only
    split_ifs
    · exact (hread _).trans (unwritten_readBlock _ _)
    · exact hread _

theorem unwritten_seek (h : b.window.pending = none) (offset whence : Int) :
    Unwritten b (b.seek offset whence).2 := by
  rw [seek]
  simp only
  split
  · exact ⟨rfl, h⟩
  · rw [store_of_pending h]
    split
    · exact ⟨rfl, h⟩
    · exact ⟨rfl, rfl⟩

end Buffered

open Buffered (Unwritten)

variable {α : Type} {index : Nat} {disk : Disk} {file : OpenFile}

theorem outcome_file (h : disk.files[index]? = some file) :
    (Disk.file index).outcome disk = (.ok file, disk) := by
  rw [Disk.file, Call.outcome_bind, Call.outcome_get]
  simp only [h]
  rfl

theorem outcome_onBuffered (h : disk.files[index]? = some file) (f : Buffered → α × Buffered) :
    (onBuffered index f).outcome disk =
      (.ok (f (disk.buffered file)).1,
        { disk with
          fs := disk.fs.changeBody file.body
            fun body => { body with bytes := (f (disk.buffered file)).2.file.bytes }
          files := disk.files.modify index fun old =>
            { old with
              position := (f (disk.buffered file)).2.file.position
              window := (f (disk.buffered file)).2.window } }) := by
  rw [onBuffered, Call.outcome_bind, outcome_file h]
  simp only
  rfl

/-! ### Properties of a disk -/

/-- A property of the disk that a handle leaves as it holds, when it notes something on itself and when it reads
through its window. -/
structure KeptByReading (index : Nat) (Inv : Disk → Prop) : Prop where
  note : ∀ {f : OpenFile → OpenFile},
    (∀ file, (f file).body = file.body ∧ (f file).access = file.access ∧ (f file).window = file.window) →
    Call.Keeps Inv (changeFile index f)
  reading : ∀ {α : Type} {f : Buffered → α × Buffered},
    (∀ b : Buffered, b.window.pending = none → Unwritten b (f b).2) → Call.Keeps Inv (onBuffered index f)

/-- A property that the handle also leaves as it holds when it works on its file, unless it is for reading. -/
structure KeptByWork (index : Nat) (Inv : Disk → Prop) : Prop extends KeptByReading index Inv where
  work : ∀ {α : Type} {disk : Disk} {file : OpenFile} (f : Buffered → α × Buffered),
    disk.files[index]? = some file → file.access ≠ .reader → Inv disk →
    Inv ((onBuffered index f).outcome disk).2

variable {Inv : Disk → Prop}

/-- A request begins with looking up its handle. -/
theorem keeps_withFile {next : OpenFile → Call Disk α}
    (h : ∀ {disk : Disk} {file : OpenFile}, Inv disk → disk.files[index]? = some file →
      Inv ((next file).outcome disk).2) :
    Call.Keeps Inv (Disk.file index >>= next) := by
  intro disk hd
  rw [Call.outcome_bind]
  cases hf : disk.files[index]? with
  | some file =>
    rw [outcome_file hf]
    exact h hd hf
  | none =>
    rw [Disk.file, Call.outcome_bind, Call.outcome_get]
    simp only [hf]
    exact hd

theorem inv_withOpen {next : Call Disk α} (file : OpenFile) (words : String) (hd : Inv disk)
    (h : Inv (next.outcome disk).2) : Inv ((checkOpen file words >>= fun _ => next).outcome disk).2 := by
  rw [checkOpen]
  split_ifs
  · exact hd
  · exact h

theorem inv_withRequired {next : Call Disk α} (condition : Prop) [Decidable condition] (failure : Failure) (hd : Inv disk)
    (h : Inv (next.outcome disk).2) : Inv ((require condition failure >>= fun _ => next).outcome disk).2 := by
  rw [require]
  split_ifs
  · exact h
  · exact hd

theorem inv_onFallible {f : Buffered → Except Fault α × Buffered}
    (h : Inv ((onBuffered index f).outcome disk).2) : Inv ((onFallible index f).outcome disk).2 := by
  rw [onFallible]
  refine Call.inv_bind h fun {answer _} _ ht => ?_
  cases answer <;> exact ht

theorem keeps_ability (can : Access → Bool) : Call.Keeps Inv (ability index can) := by
  rw [Disk.ability]
  refine keeps_withFile fun {disk file} hd hf => ?_
  split_ifs
  · exact inv_withOpen file closedWords hd hd
  · exact hd

namespace KeptByReading

theorem flush (h : KeptByReading index Inv) : Call.Keeps Inv (flush index) := by
  rw [Disk.flush]
  refine keeps_withFile fun {disk file} hd hf => inv_withOpen file _ hd ?_
  split_ifs
  · exact h.reading (fun _ => Buffered.unwritten_settle) disk hd
  · exact hd

theorem close (h : KeptByReading index Inv) : Call.Keeps Inv (close index) := by
  rw [Disk.close]
  refine keeps_withFile fun {disk file} hd hf => ?_
  split_ifs
  · exact hd
  · refine Call.keeps_bind h.flush (fun _ => ?_) disk hd
    exact h.note fun _ => ⟨rfl, rfl, rfl⟩

theorem noteMovable (h : KeptByReading index Inv) (succeeded : Bool) :
    Call.Keeps Inv (noteMovable index succeeded) := by
  rw [Disk.noteMovable]
  exact h.note fun _ => ⟨rfl, rfl, rfl⟩

theorem tell (h : KeptByReading index Inv) : Call.Keeps Inv (tell index) := by
  rw [Disk.tell]
  refine keeps_withFile fun {disk file} hd hf => inv_withOpen file closedWords hd ?_
  exact Call.inv_bind (h.noteMovable true disk hd) fun _ ht => ht

theorem seekable (h : KeptByReading index Inv) : Call.Keeps Inv (seekable index) := by
  rw [Disk.seekable]
  refine keeps_withFile fun {disk file} hd hf => inv_withOpen file closedWords hd ?_
  split_ifs
  · exact Call.keeps_bind (h.noteMovable true) (fun _ => Call.keeps_pure _) disk hd
  · exact hd

end KeptByReading

namespace KeptByWork

theorem onDirect (h : KeptByWork index Inv) (hf : disk.files[index]? = some file)
    (haccess : file.access = .direct) (hd : Inv disk) (f : Cursor → Except Fault (α × Cursor)) :
    Inv ((onDirect index f).outcome disk).2 :=
  inv_onFallible (h.work _ hf (by simp [haccess]) hd)

/-- The note on a direct handle leaves it direct. -/
theorem noted_onDirect (h : KeptByWork index Inv) (hf : disk.files[index]? = some file)
    (haccess : file.access = .direct) (hd : Inv disk) (succeeded : Bool)
    (f : Cursor → Except Fault (α × Cursor)) :
    Inv ((Disk.noteMovable index succeeded >>= fun _ => Disk.onDirect index f).outcome disk).2 := by
  refine Call.inv_bind (h.noteMovable succeeded disk hd) fun {_ _} hn hd' => ?_
  rw [Disk.noteMovable, changeFile, Call.outcome_change, Prod.mk.injEq] at hn
  obtain ⟨-, rfl⟩ := hn
  let noted : OpenFile := { file with movable := file.movable <|> some succeeded }
  have hnoted : (disk.files.modify index fun file =>
      { file with movable := file.movable <|> some succeeded })[index]? = some noted := by
    simp [noted, hf]
  have hdirect : noted.access = .direct := haccess
  exact h.onDirect hnoted hdirect hd' f

theorem read (h : KeptByWork index Inv) (count : Option Int) : Call.Keeps Inv (read index count) := by
  have hreads : ∀ (number : Int) (b : Buffered), b.window.pending = none →
      Unwritten b (if number < 0 then b.readAll else b.read number.toNat).2 := by
    intro number b hb
    split_ifs
    · exact Buffered.unwritten_readAll hb
    · exact Buffered.unwritten_read hb _
  rw [Disk.read]
  refine keeps_withFile fun {disk file} hd hf => ?_
  -- past the window it reads straight from the file; with a window, filling it leaves nothing to be written
  cases haccess : file.access with
  | writer appends => exact hd
  | direct =>
    exact Call.inv_ofExcept hd fun {n} _ =>
      inv_withOpen file closedWords hd (inv_withRequired _ _ hd (h.onDirect hf haccess hd _))
  | reader | update =>
    refine Call.inv_ofExcept hd fun {n} _ => ?_
    by_cases hcount : Count.asked n < -1
    · simp only [if_pos hcount]
      exact hd
    · simp only [if_neg hcount]
      exact inv_withOpen file _ hd (inv_withRequired _ _ hd (h.reading (hreads _) disk hd))

theorem readLine (h : KeptByWork index Inv) (limit : Option Int) :
    Call.Keeps Inv (readLine index limit) := by
  rw [Disk.readLine]
  refine keeps_withFile fun {disk file} hd hf => Call.inv_ofExcept hd fun {n} _ => ?_
  cases haccess : file.access with
  | writer appends =>
    simp only
    split_ifs <;> exact hd
  | direct =>
    simp only
    split_ifs
    · exact hd
    · exact inv_withOpen file closedWords hd (h.onDirect hf haccess hd _)
  | reader | update =>
    exact inv_withOpen file _ hd (h.reading (fun _ hb => Buffered.unwritten_readLine hb n) disk hd)

theorem readLines (h : KeptByWork index Inv) : Call.Keeps Inv (readLines index) := by
  have hreads : ∀ b : Buffered, b.window.pending = none → Unwritten b b.readLines.2 := by
    intro b hb
    exact ⟨(Buffered.unwritten_readAll hb).bytes, (Buffered.unwritten_readAll hb).pending⟩
  rw [Disk.readLines]
  refine keeps_withFile fun {disk file} hd hf => inv_withOpen file closedSentence hd ?_
  cases file.access with
  | writer appends => exact hd
  | reader | update | direct => exact h.reading hreads disk hd

theorem write (h : KeptByWork index Inv) (data : Bytes) : Call.Keeps Inv (write index data) := by
  rw [Disk.write]
  refine keeps_withFile fun {disk file} hd hf => ?_
  cases haccess : file.access with
  | reader => exact hd
  | direct =>
    refine inv_withOpen file closedWords hd ?_
    exact Call.inv_bind (h.onDirect hf haccess hd _) fun _ ht => ht
  | writer appends | update =>
    refine inv_withOpen file _ hd ?_
    exact Call.inv_bind (h.work _ hf (by simp [haccess]) hd) fun _ ht => ht

theorem truncate (h : KeptByWork index Inv) (size : Option Int) :
    Call.Keeps Inv (truncate index size) := by
  rw [Disk.truncate]
  refine keeps_withFile fun {disk file} hd hf => ?_
  cases haccess : file.access with
  | direct =>
    refine inv_withOpen file closedWords hd (inv_withRequired _ _ hd ?_)
    split_ifs
    · exact h.noted_onDirect hf haccess hd true _
    · exact h.onDirect hf haccess hd _
  | reader => exact inv_withOpen file _ hd hd
  | writer appends | update =>
    refine inv_withOpen file _ hd ?_
    simp only [Access.writes, Bool.not_true, Bool.false_eq_true, if_false]
    split_ifs
    · exact inv_onFallible (h.work _ hf (by simp [haccess]) hd)
    · exact Call.inv_bind (h.work _ hf (by simp [haccess]) hd) fun _ ht => ht

theorem seek (h : KeptByWork index Inv) (offset whence : Int) :
    Call.Keeps Inv (seek index offset whence) := by
  rw [Disk.seek]
  refine keeps_withFile fun {disk file} hd hf => ?_
  cases haccess : file.access with
  | direct =>
    refine inv_withOpen file closedWords hd (inv_withRequired _ _ hd ?_)
    rw [Call.outcome_bind, Call.outcome_get]
    exact h.noted_onDirect hf haccess hd _ _
  | reader | writer appends | update =>
    by_cases hwhence : (whence < 0 || 4 < whence) = true
    · simp only [if_pos hwhence]
      exact hd
    · simp only [if_neg hwhence]
      refine inv_withOpen file _ hd (inv_withRequired _ _ hd (inv_onFallible ?_))
      exact h.reading (fun _ hb => Buffered.unwritten_seek hb offset whence) disk hd

/-- **Every request** to a handle leaves such a property as it holds. -/
theorem onFile (h : KeptByWork index Inv) (request : StreamRequest) :
    Call.Keeps Inv (onFile index request) := by
  cases request with
  | read count => exact h.read count
  | readLine limit => exact h.readLine limit
  | readLines => exact h.readLines
  | write data => exact h.write data
  | seek offset whence => exact h.seek offset whence
  | tell => exact h.tell
  | truncate size => exact h.truncate size
  | flush => exact h.flush
  | close => exact h.close
  | readable => exact keeps_ability Access.reads
  | writable => exact keeps_ability Access.writes
  | seekable => exact h.seekable
  -- `closed` never looks at the work behind the file
  | closed =>
    refine Call.keeps_map _ (Call.keeps_get fun disk hd => ?_)
    cases disk.files[index]? <;> exact hd

end KeptByWork

end FileRouter.Disk
