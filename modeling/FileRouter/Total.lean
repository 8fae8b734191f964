/-!
Totals.

A total is the sum of a size over a list. The bounds that the library sets are totals of what there is:
the bytes of all files, the entries of all drives, the characters of all links.
-/

namespace FileRouter

variable {α : Type}

/-- The sum of a size over a list. -/
def total (size : α → Nat) (items : List α) : Nat :=
  (items.map size).foldr (· + ·) 0

theorem total_cons (size : α → Nat) (item : α) (items : List α) :
    total size (item :: items) = size item + total size items := rfl

theorem total_append (size : α → Nat) (items others : List α) :
    total size (items ++ others) = total size items + total size others := by
  induction items with
  | nil => exact (Nat.zero_add _).symm
  | cons item items ih => rw [List.cons_append, total_cons, total_cons, ih, Nat.add_assoc]

/-- No item is larger than the total. -/
theorem le_total_of_mem (size : α → Nat) {item : α} {items : List α} (h : item ∈ items) :
    size item ≤ total size items := by
  induction h with
  | head items => exact Nat.le_add_right _ _
  | tail other _ ih => exact Nat.le_trans ih (Nat.le_add_left _ _)

end FileRouter
