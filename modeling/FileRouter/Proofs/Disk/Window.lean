import FileRouter.Disk.Window
import FileRouter.Proofs.Cursor
/-!
What the user of a buffered file sees.

`Buffered.view` is the file with the window put over it, at the user's position. While a window `Fits` its file,
reading, writing, moving and cutting do to the view what they do to a cursor, whatever is in the window, and the
window fits afterwards; settling stores exactly the view (`settle_eq`).
-/

namespace FileRouter.Disk

open Cursor (splice splice_nil splice_eq_self splice_splice getElem?_splice length_splice_of_le)

namespace Buffered

/-- A place in the window waits to be stored. -/
def Waits (b : Buffered) (i : Nat) : Prop :=
  ∃ first last, b.window.pending = some (first, last) ∧ first ≤ i ∧ i < last

/-- Where in the file the window begins. -/
def base (b : Buffered) : Nat := b.file.position - b.window.mark

/-- The file as the user sees it: with the window put over it, at the user's position. -/
def view (b : Buffered) : Cursor := ⟨splice b.file.bytes b.base b.window.bytes, b.base + b.window.offset⟩

/-- The window fits the file, which is not written at its end only. What does not wait to be stored is what the
file has there. Where something can be read ahead, the system's position is at the end of the window; a window
without anything read ahead waits to be stored as a whole, and is at its end. -/
structure Fits (b : Buffered) : Prop where
  appends : b.appends = false
  mark : b.window.mark ≤ b.file.position
  offset : b.window.offset ≤ b.window.bytes.length
  pending : ∀ {first last : Nat}, b.window.pending = some (first, last) →
    first ≤ last ∧ last ≤ b.window.bytes.length
  same : ∀ i < b.window.bytes.length, ¬ b.Waits i → b.window.bytes[i]? = b.file.bytes[b.base + i]?
  ahead : b.window.isAhead = true → b.window.offset < b.window.bytes.length →
    b.window.mark = b.window.bytes.length
  written : b.window.isAhead = false → b.window.mark = 0 ∧ b.window.offset = b.window.bytes.length ∧
    b.window.pending.getD (0, 0) = (0, b.window.bytes.length)

variable {b : Buffered}

theorem waits_iff {first last i : Nat} (hp : b.window.pending = some (first, last)) :
    b.Waits i ↔ first ≤ i ∧ i < last := by
  refine ⟨?_, fun h => ⟨first, last, hp, h⟩⟩
  rintro ⟨start, stop, hrange, h⟩
  obtain ⟨rfl, rfl⟩ := Prod.mk.inj (Option.some.inj (hp.symm.trans hrange))
  exact h

/-! ### No window -/

theorem fits_idle (hidle : b.window = .idle) (happends : b.appends = false) : b.Fits := by
  refine ⟨happends, ?_, ?_, fun h => ?_, fun i hi => ?_, fun h => ?_, fun _ => ?_⟩
  all_goals simp_all [Window.idle]

theorem view_idle (hidle : b.window = .idle) : b.view = b.file := by
  rw [view, base, hidle]
  rfl

theorem position_eq (h : b.Fits) : b.position = b.view.position := by
  have hmark := h.mark
  rw [position, view, base]
  simp only
  omega

/-! ### Storing -/

theorem view_of_clean (h : b.Fits) (hclean : ∀ i, ¬ b.Waits i) : b.view.bytes = b.file.bytes :=
  splice_eq_self fun i hi => h.same i hi (hclean i)

/-- Putting the whole window over the file does no more than storing the part that waits. -/
theorem splice_pending (h : b.Fits) {first last : Nat} (hp : b.window.pending = some (first, last))
    (hlt : first < last) :
    splice b.file.bytes (b.base + first) ((b.window.bytes.take last).drop first) = b.view.bytes := by
  have hlast := (h.pending hp).2
  have hlen : ((b.window.bytes.take last).drop first).length = last - first := by
    rw [List.length_drop, List.length_take]
    omega
  have hdata : (b.window.bytes.take last).drop first ≠ [] := List.ne_nil_of_length_pos (by omega)
  have hwindow : b.window.bytes ≠ [] := List.ne_nil_of_length_pos (by omega)
  refine List.ext_getElem? fun i => ?_
  rw [view]
  simp only [getElem?_splice, hlen, hdata, hwindow, ne_eq, not_false_eq_true, true_and]
  by_cases hwait : b.base + first ≤ i ∧ i < b.base + first + (last - first)
  · rw [if_pos hwait, if_pos (by omega), List.getElem?_drop, List.getElem?_take_of_lt (by omega)]
    congr 1
    omega
  · rw [if_neg hwait]
    by_cases hin : b.base ≤ i ∧ i < b.base + b.window.bytes.length
    -- what does not wait is in the file already, so the file reaches that far
    · have hclean : ¬ b.Waits (i - b.base) := by
        rw [waits_iff hp]
        omega
      have hsame := h.same (i - b.base) (by omega) hclean
      rw [Nat.add_sub_cancel' hin.1] at hsame
      have hreach : i < b.file.bytes.length := by
        rw [List.getElem?_eq_getElem (by omega)] at hsame
        exact (List.getElem?_eq_some_iff.mp hsame.symm).1
      rw [if_pos hin, if_neg (by omega), hsame]
    · rw [if_neg hin]
      congr 1
      simp only [eq_iff_iff]
      omega

/-- What storing leaves: the view in the file, and the user where they are. -/
theorem store_spec (h : b.Fits) :
    b.store.file.bytes = b.view.bytes ∧ b.store.position = b.view.position ∧ b.store.appends = false := by
  cases hp : b.window.pending with
  | none =>
    have hclean : ∀ i, ¬ b.Waits i := by
      rintro i ⟨first, last, hp', -⟩
      simp [hp] at hp'
    rw [store, hp]
    exact ⟨(view_of_clean h hclean).symm, position_eq h, h.appends⟩
  | some range =>
    obtain ⟨first, last⟩ := range
    obtain ⟨hle, hlast⟩ := h.pending hp
    have hmark := h.mark
    -- a window without anything read ahead is given up, and its user is where it ends
    have hwritten : b.window.isAhead = false → b.window.mark = 0 ∧ b.window.offset = last ∧ first = 0 := by
      intro hahead
      obtain ⟨hzero, hend, hall⟩ := h.written hahead
      rw [hp, Option.getD_some, Prod.mk.injEq] at hall
      exact ⟨hzero, hend.trans hall.2.symm, hall.1⟩
    rw [store, hp]
    by_cases he : first = last
    · have hclean : ∀ i, ¬ b.Waits i := fun i => by
        rw [waits_iff hp]
        omega
      refine ⟨by simp only [if_pos he, view_of_clean h hclean], ?_, h.appends⟩
      cases hahead : b.window.isAhead with
      | true =>
        simp only [if_pos he, if_true, position, view, base]
        omega
      | false =>
        obtain ⟨hzero, hend, hfirst⟩ := hwritten hahead
        simp only [if_pos he, Bool.false_eq_true, if_false, position, view, base, Window.idle]
        omega
    · have hbegin : b.file.position + first - b.window.mark = b.base + first := by
        rw [base]
        omega
      have hdata : ((b.window.bytes.take last).drop first).length = last - first := by
        rw [List.length_drop, List.length_take]
        omega
      have hfile : systemWrite b.appends { b.file with position := b.file.position + first - b.window.mark }
          ((b.window.bytes.take last).drop first) = ⟨b.view.bytes, b.base + last⟩ := by
        rw [systemWrite, h.appends, hbegin, ← splice_pending h hp (by omega)]
        simp only [Bool.false_eq_true, if_false, Cursor.write_eq, hdata, Cursor.mk.injEq, true_and]
        omega
      refine ⟨by simp only [if_neg he, hfile], ?_, h.appends⟩
      cases hahead : b.window.isAhead with
      | true =>
        simp only [if_neg he, hfile, if_true, position, view]
        omega
      | false =>
        obtain ⟨hzero, hend, hfirst⟩ := hwritten hahead
        simp only [if_neg he, hfile, Bool.false_eq_true, if_false, position, view, Window.idle]
        omega

/-- Settling stores the view. -/
theorem settle_eq (h : b.Fits) : b.settle = ⟨b.view, false, .idle⟩ := by
  obtain ⟨hbytes, hposition, happends⟩ := store_spec h
  rw [settle, unwound, hposition, happends]
  simp only [hbytes]

/-! ### Writing -/

/-- Bytes put at the offset of a window are put over it. -/
theorem put_bytes {window : Window} (h : window.offset ≤ window.bytes.length) (data : Bytes) :
    (window.put data).bytes = splice window.bytes window.offset data := by
  cases data with
  | nil => simp [Window.put, splice_nil]
  | cons byte data =>
    have hgap : window.offset - window.bytes.length = 0 := by omega
    simp [Window.put, splice, Cursor.write, hgap]

/-- What has just been written waits. -/
theorem waits_put (data : Bytes) {i : Nat} (h : b.window.offset ≤ i ∧ i < b.window.offset + data.length) :
    Waits { b with window := b.window.put data } i := by
  cases hold : b.window.pending with
  | none => exact ⟨b.window.offset, b.window.offset + data.length, by simp [Window.put, hold], h⟩
  | some range =>
    refine ⟨min range.1 b.window.offset, max range.2 (b.window.offset + data.length), ?_, ?_, ?_⟩
    · simp [Window.put, hold]
    · exact Nat.le_trans (Nat.min_le_right _ _) h.1
    · exact Nat.lt_of_lt_of_le h.2 (Nat.le_max_right _ _)

/-- What has waited waits still. -/
theorem Waits.put (data : Bytes) {i : Nat} (h : b.Waits i) : Waits { b with window := b.window.put data } i := by
  obtain ⟨first, last, hold, hfirst, hlast⟩ := h
  refine ⟨min first b.window.offset, max last (b.window.offset + data.length), ?_, ?_, ?_⟩
  · simp [Window.put, hold]
  · exact Nat.le_trans (Nat.min_le_left _ _) hfirst
  · exact Nat.lt_of_lt_of_le hlast (Nat.le_max_left _ _)

/-- The window after a write that it has room for. -/
theorem fits_put (h : b.Fits) (data : Bytes) : Fits { b with window := b.window.put data } := by
  have hoffset := h.offset
  have hlen : (b.window.put data).bytes.length =
      max b.window.bytes.length (b.window.offset + data.length) := by
    rw [put_bytes hoffset, length_splice_of_le hoffset]
  refine ⟨h.appends, h.mark, ?_, fun {first last} hp => ?_, fun i hi hclean => ?_, fun hahead hlt => ?_,
    fun hahead => ?_⟩
  · rw [hlen]
    exact Nat.le_max_right _ _
  · simp only [hlen]
    cases hold : b.window.pending with
    | none =>
      simp only [Window.put, hold, Option.some.injEq, Prod.mk.injEq] at hp
      omega
    | some range =>
      have hrange := h.pending hold
      simp only [Window.put, hold, Option.some.injEq, Prod.mk.injEq] at hp
      omega
  -- what did not wait and has not been written is as it was
  · have hout : ¬ (b.window.offset ≤ i ∧ i < b.window.offset + data.length) := fun hin => hclean (waits_put data hin)
    have hstill : ¬ b.Waits i := fun hw => hclean (hw.put data)
    simp only at hi ⊢
    rw [hlen] at hi
    rw [put_bytes hoffset, getElem?_splice, if_neg hout, if_neg (by omega)]
    exact h.same i (by omega) hstill
  · simp only [hlen] at hlt ⊢
    have hstop : (b.window.put data).offset = b.window.offset + data.length := rfl
    have hmark := h.ahead hahead (by omega)
    have hsame : (b.window.put data).mark = b.window.mark := rfl
    omega
  · obtain ⟨hzero, hend, hall⟩ := h.written hahead
    have hstop : (b.window.put data).offset = b.window.offset + data.length := rfl
    have hrange : (b.window.put data).pending.getD (0, 0) = (0, b.window.offset + data.length) := by
      cases hold : b.window.pending with
      | none =>
        simp only [hold, Option.getD_none, Prod.mk.injEq, true_and] at hall
        simp only [Window.put, hold, Option.getD_some, Prod.mk.injEq, and_true]
        omega
      | some range =>
        simp only [hold, Option.getD_some] at hall
        simp only [Window.put, hold, Option.getD_some, hall, Prod.mk.injEq]
        omega
    refine ⟨hzero, by simp only [hlen]; omega, hrange.trans ?_⟩
    simp only [hlen, Prod.mk.injEq, true_and]
    omega

theorem view_put (h : b.Fits) (data : Bytes) :
    view { b with window := b.window.put data } = b.view.write data := by
  rw [Cursor.write_eq, view, view, put_bytes h.offset]
  simp only [splice_splice _ _ h.offset, Cursor.mk.injEq]
  exact ⟨rfl, (Nat.add_assoc _ _ _).symm⟩

/-- Writing does to the view what it does to a cursor, whether there is room in the window or not. -/
theorem write_spec (h : b.Fits) (data : Bytes) : (b.write data).Fits ∧ (b.write data).view = b.view.write data := by
  have hempty : Fits ⟨b.view, false, .idle⟩ := fits_idle rfl rfl
  rw [write]
  by_cases hroom : data.length + b.window.offset ≤ capacity
  · rw [if_pos hroom]
    exact ⟨fits_put h data, view_put h data⟩
  · simp only [if_neg hroom, settle_eq h]
    split_ifs
    · exact ⟨fits_idle rfl rfl, view_idle rfl⟩
    · exact ⟨fits_put hempty data, (view_put hempty data).trans (congrArg _ (view_idle rfl))⟩

/-! ### Reading -/

/-- A buffer after some bytes have been taken, whose user sees a cursor moved forward over them. -/
structure Advanced (c : Cursor) (taken : Bytes) (b : Buffered) : Prop where
  fits : b.Fits
  view : b.view = c.skip taken.length

theorem Advanced.append {c : Cursor} {first second : Bytes} (h : Advanced (c.skip first.length) second b) :
    Advanced c (first ++ second) b :=
  ⟨h.fits, by rw [h.view, Cursor.skip_skip, List.length_append]⟩

/-- What can be read without looking at the file comes next in the view. -/
theorem view_rest (b : Buffered) :
    b.view.rest = b.window.ahead ++ (b.view.skip b.window.ahead.length).rest := by
  rw [Cursor.rest, Cursor.rest, Cursor.skip]
  cases hahead : b.window.isAhead with
  | false => simp [Window.ahead, hahead]
  | true =>
    have hlen : b.window.ahead = b.window.bytes.drop b.window.offset := by simp [Window.ahead, hahead]
    -- what is ahead in the window are the bytes of the view at the same places
    refine List.ext_getElem? fun i => ?_
    rw [hlen, List.getElem?_drop]
    by_cases hi : i < (b.window.bytes.drop b.window.offset).length
    · rw [List.getElem?_append_left hi, List.getElem?_drop, view]
      simp only
      rw [List.length_drop] at hi
      rw [getElem?_splice, if_pos (by omega)]
      congr 1
      omega
    · rw [List.getElem?_append_right (by omega), List.getElem?_drop]
      simp only
      congr 1
      omega

/-- The user may go forward over what can be read without looking at the file. -/
theorem advanced_window (h : b.Fits) {n : Nat} (hn : n ≤ b.window.ahead.length) :
    Advanced b.view (b.window.ahead.take n) { b with window := b.window.advance n } := by
  have hoffset := h.offset
  have hroom : b.window.offset + n ≤ b.window.bytes.length := by
    rw [Window.ahead] at hn
    split at hn
    · rw [List.length_drop] at hn
      omega
    · rw [List.length_nil] at hn
      omega
  -- only the offset moves, and within what the window has
  refine ⟨⟨h.appends, h.mark, hroom, h.pending, h.same, fun hahead hlt => ?_, fun hahead => ?_⟩, ?_⟩
  · refine h.ahead hahead ?_
    simp only [Window.advance] at hlt
    omega
  · obtain ⟨hzero, hend, hall⟩ := h.written hahead
    refine ⟨hzero, ?_, hall⟩
    simp only [Window.advance]
    omega
  · rw [List.length_take, Nat.min_eq_left hn]
    simp only [view, Window.advance, Cursor.skip, Cursor.mk.injEq]
    exact ⟨rfl, (Nat.add_assoc _ _ _).symm⟩

/-- What is left of the buffer when all that can be read without looking at the file has been read. -/
theorem settle_advance (h : b.Fits) :
    settle { b with window := b.window.advance b.window.ahead.length } =
      ⟨b.view.skip b.window.ahead.length, false, .idle⟩ := by
  have hadvance := advanced_window h (Nat.le_refl _)
  rw [settle_eq hadvance.fits, hadvance.view, List.take_length]

/-- A file without a window. -/
theorem advanced_idle (c : Cursor) (taken : Bytes) : Advanced c taken ⟨c.skip taken.length, false, .idle⟩ :=
  ⟨fits_idle rfl rfl, view_idle rfl⟩

/-- A block of the file as the window, with the first of it taken. -/
theorem advanced_block {c : Cursor} {size taken : Nat} {block : Bytes} (hblock : block = c.rest.take size)
    (h : taken ≤ block.length) :
    Advanced c (block.take taken) ⟨c.skip block.length, false, .reading block taken⟩ := by
  have hbase : c.position + block.length - block.length = c.position := Nat.add_sub_cancel _ _
  -- the block repeats what the bytes hold there, so splicing it in changes nothing
  have hsame : ∀ i < block.length, block[i]? = c.bytes[c.position + i]? := by
    intro i hi
    rw [hblock, List.length_take] at hi
    rw [hblock, List.getElem?_take_of_lt (by omega), Cursor.rest, List.getElem?_drop]
  refine ⟨⟨rfl, Nat.le_add_left _ _, h, fun hp => by simp [Window.reading] at hp, fun i hi _ => ?_, fun _ _ => rfl,
    fun hahead => by simp [Window.reading] at hahead⟩, ?_⟩
  · simp only [base, Window.reading, Cursor.skip, hbase]
    exact hsame i hi
  · rw [view, base]
    simp only [Window.reading, Cursor.skip, hbase]
    rw [splice_eq_self hsame, List.length_take, Nat.min_eq_left h]

theorem readFile_eq (c : Cursor) (window : Window) (count : Nat) :
    readFile ⟨c, false, window⟩ count =
      (c.rest.take count, ⟨c.skip (c.rest.take count).length, false, window⟩) :=
  rfl

/-- Taking everything takes all that is left of the view. -/
theorem readAll_spec (h : b.Fits) :
    b.readAll.1 = b.view.rest ∧ Advanced b.view b.readAll.1 b.readAll.2 := by
  rw [readAll]
  simp only [settle_advance h, readFile_eq, List.take_length]
  exact ⟨(view_rest b).symm, (advanced_idle _ _).append⟩

/-- Whole blocks and then a part of one more are what is wanted, also where the file ends before. -/
theorem take_blocks (rest : Bytes) {blocks wanted : Nat} (hle : blocks ≤ wanted) (hlt : wanted < blocks + capacity) :
    rest.take blocks ++ ((rest.drop blocks).take capacity).take (wanted - (rest.take blocks).length) =
      rest.take wanted := by
  by_cases hlong : blocks ≤ rest.length
  · rw [List.length_take, Nat.min_eq_left hlong, List.take_take, Nat.min_eq_left (by omega), ← List.take_add,
      Nat.add_sub_cancel' hle]
  · rw [List.drop_eq_nil_of_le (by omega), List.take_nil, List.take_nil, List.append_nil,
      List.take_of_length_le (by omega), List.take_of_length_le (by omega)]

/-- Taking some bytes takes them from the view. -/
theorem read_spec (h : b.Fits) (count : Nat) :
    (b.read count).1 = b.view.rest.take count ∧ Advanced b.view (b.read count).1 (b.read count).2 := by
  have hrest := view_rest b
  rw [read]
  by_cases hahead : count ≤ b.window.ahead.length
  · rw [if_pos hahead]
    exact ⟨by rw [hrest, List.take_append_of_le_length hahead], advanced_window h hahead⟩
  · simp only [if_neg hahead, settle_advance h, readFile_eq]
    generalize hc : b.view.skip b.window.ahead.length = c at hrest ⊢
    have hwanted : b.view.rest.take count = b.window.ahead ++ c.rest.take (count - b.window.ahead.length) := by
      rw [hrest, List.take_append, List.take_of_length_le (by omega)]
    generalize count - b.window.ahead.length = wanted at hwanted ⊢
    have hblocks : wanted / capacity * capacity ≤ wanted := Nat.div_mul_le_self _ _
    have hpart : wanted < wanted / capacity * capacity + capacity := Nat.lt_div_mul_add (by decide)
    generalize wanted / capacity * capacity = blocks at hblocks hpart ⊢
    have htaken := List.length_take (i := blocks) (l := c.rest)
    have hrest' : (c.skip (c.rest.take blocks).length).rest = c.rest.drop blocks := by
      rw [Cursor.rest_skip, htaken, ← List.drop_eq_drop_min]
    rw [hwanted]
    split_ifs with hmissing hnone
    -- the blocks are all that is wanted
    · have hall : c.rest.take blocks = c.rest.take wanted := by
        rw [show blocks = wanted by omega]
      rw [List.append_nil]
      have hlast : Advanced (c.skip (c.rest.take blocks).length) []
          ⟨(c.skip (c.rest.take blocks).length).skip 0, false, .reading [] 0⟩ :=
        advanced_block List.take_zero.symm (Nat.zero_le _)
      have hreads := hlast.append
      rw [List.append_nil, Cursor.skip_skip, Nat.add_zero] at hreads
      refine ⟨by rw [hall], Advanced.append ?_⟩
      rwa [hc]
    -- the last part comes out of one more block
    · have hall := take_blocks c.rest hblocks hpart
      simp only [readBlock, readFile_eq, hrest']
      generalize wanted - (c.rest.take blocks).length = missing at hall ⊢
      have hblock : (c.rest.drop blocks).take capacity =
          (c.skip (c.rest.take blocks).length).rest.take capacity := by rw [hrest']
      have hlast := advanced_block hblock (Nat.min_le_right missing _)
      rw [← List.take_eq_take_min, ← List.length_take] at hlast
      rw [← hall, ← List.append_assoc]
      refine ⟨rfl, ?_⟩
      rw [List.append_assoc]
      refine Advanced.append ?_
      rw [hc]
      exact hlast.append
    -- the file has ended within the blocks
    · have hall : c.rest.take blocks = c.rest.take wanted := by
        rw [List.take_of_length_le (by omega), List.take_of_length_le (by omega)]
      refine ⟨by rw [hall], Advanced.append ?_⟩
      rw [hc]
      exact advanced_idle _ _

/-! ### Moving and cutting -/

theorem settle_spec (h : b.Fits) : b.settle.Fits ∧ b.settle.view = b.view := by
  rw [settle_eq h]
  exact ⟨fits_idle rfl rfl, view_idle rfl⟩

end Buffered

end FileRouter.Disk
