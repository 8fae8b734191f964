import FileRouter.Bytes.Cursor
import Mathlib.Tactic.SplitIfs
/-!
Counts, and bytes put over other bytes.

A number that fits is asked for as it is, and one that does not is refused (`Count.ofOption_of_fits`,
`Count.ofOption_of_not_fits`).

`splice` is what a write makes of the bytes of a cursor. What is where afterwards is one equation
(`getElem?_splice`), and two spliced texts are compared place by place: bytes put where they are already change
nothing (`splice_eq_self`), and a write within what has been written before can be made there first
(`splice_splice`).
-/

namespace FileRouter

namespace Count

theorem ofInt_of_fits {number : Int} (h : Fits number) : ofInt number = .ok ⟨number, h⟩ := dif_pos h

theorem ofOption_number (count : Count) : ofOption (some count.number) = .ok (some count) := by
  rw [ofOption, ofInt_of_fits count.fits]
  rfl

/-- A number that fits is asked for as it is. -/
theorem ofOption_of_fits {count : Option Int} (h : Fits (count.getD (-1))) :
    ∃ n, ofOption count = .ok n ∧ asked n = count.getD (-1) := by
  cases count with
  | none => exact ⟨none, rfl, rfl⟩
  | some number =>
    have hfits : Fits number := h
    exact ⟨some ⟨number, hfits⟩, by rw [ofOption, ofInt_of_fits hfits]; rfl, rfl⟩

theorem ofOption_of_not_fits {count : Option Int} (h : ¬ Fits (count.getD (-1))) : ofOption count = .error misfit := by
  cases count with
  | none => exact absurd (by decide) h
  | some number =>
    have hmisfit : ¬ Fits number := h
    rw [ofOption, ofInt, dif_neg hmisfit]
    rfl

theorem fits_of_le_room {number : Nat} (h : (number : Int) ≤ room) : Fits number := by
  rw [room] at h
  constructor <;> omega

end Count

namespace Cursor

/-- The bytes with others put over them from a place on; a gap in front of these is filled with zeros. -/
def splice (bytes : Bytes) (start : Nat) (data : Bytes) : Bytes := (write data ⟨bytes, start⟩).bytes

theorem splice_nil (bytes : Bytes) (start : Nat) : splice bytes start [] = bytes := rfl

theorem write_eq (data : Bytes) (c : Cursor) :
    write data c = ⟨splice c.bytes c.position data, c.position + data.length⟩ := by
  cases data with
  | nil => rfl
  | cons byte data => rfl

theorem getElem?_splice (bytes : Bytes) (start : Nat) (data : Bytes) (i : Nat) :
    (splice bytes start data)[i]? =
      if start ≤ i ∧ i < start + data.length then data[i - start]?
      else if data ≠ [] ∧ bytes.length ≤ i ∧ i < start then some 0
      else bytes[i]? := by
  cases data with
  | nil => rw [splice_nil, if_neg (by simp), if_neg (by simp)]
  | cons byte data =>
    have hfront : (bytes.take start ++ List.replicate (start - bytes.length) 0).length = start := by
      simp only [List.length_append, List.length_take, List.length_replicate]
      omega
    simp only [splice, write, List.isEmpty_cons, Bool.false_eq_true, if_false]
    rw [List.append_assoc]
    -- in front of the place are the old bytes, and zeros as far as these do not reach
    by_cases hlt : i < start
    · rw [List.getElem?_append_left (by omega), if_neg (by omega)]
      by_cases hin : i < bytes.length
      · rw [List.getElem?_append_left (by simp; omega), List.getElem?_take_of_lt hlt, if_neg (by omega)]
      · rw [List.getElem?_append_right (by simp; omega), if_pos ⟨by simp, by omega, hlt⟩,
          List.getElem?_replicate, if_pos (by simp; omega)]
    · -- from there on come the new bytes, and behind them what is left of the old ones
      rw [List.getElem?_append_right (by omega), hfront]
      by_cases hdata : i < start + (byte :: data).length
      · rw [List.getElem?_append_left (by omega), if_pos ⟨by omega, hdata⟩]
      · rw [List.getElem?_append_right (by omega), if_neg (by omega), if_neg (by omega), List.getElem?_drop]
        congr 1
        omega

theorem length_splice (bytes : Bytes) (start : Nat) {data : Bytes} (h : data ≠ []) :
    (splice bytes start data).length = max bytes.length (start + data.length) := by
  cases data with
  | nil => exact absurd rfl h
  | cons byte data =>
    simp only [splice, write, List.isEmpty_cons, Bool.false_eq_true, if_false, List.length_append, List.length_take,
      List.length_replicate, List.length_drop]
    omega

theorem length_splice_of_le {bytes : Bytes} {start : Nat} (h : start ≤ bytes.length) (data : Bytes) :
    (splice bytes start data).length = max bytes.length (start + data.length) := by
  by_cases hdata : data = []
  · rw [hdata, splice_nil, List.length_nil]
    omega
  · exact length_splice bytes start hdata

/-- Bytes that are where they are put already. -/
theorem splice_eq_self {bytes data : Bytes} {start : Nat}
    (h : ∀ i < data.length, data[i]? = bytes[start + i]?) : splice bytes start data = bytes := by
  refine List.ext_getElem? fun i => ?_
  rw [getElem?_splice]
  split_ifs with hin hgap
  · rw [h (i - start) (by omega)]
    congr 1
    omega
  · obtain ⟨hne, hlen, hlt⟩ := hgap
    -- a gap of zeros cannot be in front, since then the bytes would be too short for the data
    have hfirst := h 0 (List.length_pos_iff.mpr hne)
    have hpos := List.length_pos_iff.mpr hne
    rw [List.getElem?_eq_getElem hpos, List.getElem?_eq_none (by omega)] at hfirst
    simp at hfirst
  · rfl

/-- A write that begins within bytes that have been put there, or right behind them, can be made to these first. -/
theorem splice_splice (bytes : Bytes) (start : Nat) {window : Bytes} {offset : Nat} (h : offset ≤ window.length)
    (data : Bytes) :
    splice (splice bytes start window) (start + offset) data = splice bytes start (splice window offset data) := by
  by_cases hdata : data = []
  · rw [hdata, splice_nil, splice_nil]
  have hpos := List.length_pos_iff.mpr hdata
  have hlen := length_splice window offset hdata
  have hne : splice window offset data ≠ [] := List.ne_nil_of_length_pos (by omega)
  -- where bytes have been put there is no gap in front of the second write
  have hbound : window ≠ [] → (splice bytes start window).length = max bytes.length (start + window.length) :=
    length_splice bytes start
  have hnil : window = [] → offset = 0 ∧ splice bytes start window = bytes := by
    rintro rfl
    exact ⟨by simpa using h, splice_nil bytes start⟩
  refine List.ext_getElem? fun i => ?_
  rw [getElem?_splice _ _ data, getElem?_splice _ _ (splice window offset data), hlen]
  by_cases hin : start + offset ≤ i ∧ i < start + offset + data.length
  · rw [if_pos hin, if_pos (by omega), getElem?_splice, if_pos (by omega)]
    congr 1
    omega
  · rw [if_neg hin]
    by_cases hw : window = []
    · obtain ⟨rfl, hsame⟩ := hnil hw
      have hout : ¬ (start ≤ i ∧ i < start + max window.length (0 + data.length)) := by
        rw [hw, List.length_nil]
        omega
      rw [hsame, if_neg hout, Nat.add_zero]
      simp only [ne_eq, hdata, not_false_eq_true, true_and, hne]
    · have hreach := hbound hw
      rw [if_neg (by omega), getElem?_splice]
      by_cases hwin : start ≤ i ∧ i < start + window.length
      · rw [if_pos hwin, if_pos (by omega), getElem?_splice, if_neg (by omega), if_neg (by omega)]
      · have hout : ¬ (start ≤ i ∧ i < start + max window.length (offset + data.length)) := by omega
        rw [if_neg hwin, if_neg hout]
        simp only [ne_eq, hw, not_false_eq_true, true_and, hne]

/-! ### Reading -/

/-- The cursor moved forward. -/
def skip (c : Cursor) (n : Nat) : Cursor := { c with position := c.position + n }

theorem skip_skip (c : Cursor) (m n : Nat) : (c.skip m).skip n = c.skip (m + n) := by
  simp only [skip, Nat.add_assoc]

theorem rest_skip (c : Cursor) (n : Nat) : (c.skip n).rest = c.rest.drop n := by
  simp only [rest, skip, List.drop_drop]

/-- Bytes are taken from the front of what is left. -/
theorem take_eq (n : Nat) (c : Cursor) : c.take n = (c.rest.take n, c.skip (c.rest.take n).length) := rfl

/-- What has been taken is no longer left. -/
theorem rest_take (n : Nat) (c : Cursor) : (c.take n).2.rest = c.rest.drop n := by
  rw [take_eq, rest_skip, List.length_take]
  rcases Nat.le_total n c.rest.length with h | h
  · rw [Nat.min_eq_left h]
  · rw [Nat.min_eq_right h, List.drop_length, List.drop_eq_nil_of_le h]

/-- A request for any number of bytes but none takes something, if something is left. -/
theorem portion_pos {count : Count} {available : Nat} (hcount : count.number ≠ 0) (h : 0 < available) :
    0 < portion (some count) available := by
  rw [portion]
  split_ifs <;> omega

/-- Reading a number of bytes takes them from the front of what is left. -/
theorem read_of_nonneg {count : Option Count} (h : 0 ≤ Count.asked count) (c : Cursor) :
    read count c = c.take (Count.asked count).toNat := by
  cases count with
  | none => exact absurd h (by decide)
  | some count =>
    have hnonneg : ¬ count.number < 0 := Int.not_lt.mpr h
    rw [read, portion, if_neg hnonneg, take_eq, take_eq, ← List.take_eq_take_min]
    rfl

/-- What is left after a number of bytes has been read. -/
theorem read_of_asked {count : Option Count} {n : Nat} (h : Count.asked count = n) (c : Cursor) :
    (read count c).1 = c.rest.take (min n c.rest.length) ∧ (read count c).2.rest = c.rest.drop (min n c.rest.length) := by
  rw [read_of_nonneg (by omega), h, Int.toNat_natCast, ← List.take_eq_take_min, ← List.drop_eq_drop_min]
  exact ⟨rfl, rest_take n c⟩

/-- A negative number of bytes stands for all that are left, as no number does. -/
theorem read_of_neg {count : Option Count} (h : Count.asked count < 0) (c : Cursor) :
    read count c = c.take c.rest.length := by
  cases count with
  | none => rfl
  | some count =>
    have hneg : count.number < 0 := h
    rw [read, portion, if_pos hneg]

/-! ### Writing -/

/-- Writing at the end makes the bytes longer. -/
theorem write_end {data : Bytes} (hdata : data ≠ []) (bytes : Bytes) :
    write data ⟨bytes, bytes.length⟩ = ⟨bytes ++ data, (bytes ++ data).length⟩ := by
  have hempty : data.isEmpty = false := by simpa using hdata
  simp [write, hempty]

/-! ### Sizes -/

end Cursor

end FileRouter
