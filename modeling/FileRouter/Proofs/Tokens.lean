import FileRouter.Tokens
import Mathlib.Tactic.Common
/-!
What a source of tokens gives out.

A source gives out one token after the other, the one with the number `n` (`token`) once `n` others are used up
(`advanced`). A search that tries tokens in turn ends with the first that passes its test (`search_of_first`), and
without any when none does (`search_of_none`).
-/

namespace FileRouter.TokenSource

/-- The token that a source gives out after a number of others. -/
def token (source : TokenSource) (n : Nat) : Text :=
  (source.queued[n]?).getD (source.stream (source.used + (n - source.queued.length)))

/-- The source after it has given out a number of tokens. -/
def advanced (source : TokenSource) (n : Nat) : TokenSource :=
  { source with queued := source.queued.drop n, used := source.used + (n - source.queued.length) }

/-- A text that consists of hexadecimal digits, at least one of them. -/
def IsHexadecimal (token : Text) : Prop :=
  token ≠ [] ∧ ∀ c ∈ token, c ∈ "0123456789abcdefABCDEF".toList

instance (token : Text) : Decidable (IsHexadecimal token) :=
  inferInstanceAs (Decidable (token ≠ [] ∧ ∀ c ∈ token, c ∈ "0123456789abcdefABCDEF".toList))

variable {source : TokenSource} {fits : Text → Bool} {n limit : Nat}

theorem advanced_zero (source : TokenSource) : source.advanced 0 = source := by
  simp [advanced]

theorem next_fst (source : TokenSource) : source.next.1 = source.token 0 := by
  obtain ⟨_ | ⟨first, queued⟩, stream, used⟩ := source <;> rfl

theorem token_next (source : TokenSource) (n : Nat) : source.next.2.token n = source.token (n + 1) := by
  obtain ⟨_ | ⟨first, queued⟩, stream, used⟩ := source
  · simp [next, token, Nat.add_right_comm, Nat.add_assoc]
  · simp [next, token]

theorem advanced_next (source : TokenSource) (n : Nat) : source.next.2.advanced n = source.advanced (n + 1) := by
  obtain ⟨_ | ⟨first, queued⟩, stream, used⟩ := source
  · simp [next, advanced, Nat.add_right_comm, Nat.add_assoc]
  · simp [next, advanced]

theorem search_succ (fits : Text → Bool) (limit : Nat) (source : TokenSource) :
    source.search fits (limit + 1) =
      if fits (source.token 0) then (some (source.token 0), source.advanced 1)
      else source.next.2.search fits limit := by
  rw [search, ← advanced_next, advanced_zero, ← next_fst]

/-- A search that no token passes uses up as many as it may. -/
theorem search_of_none (h : ∀ i < limit, fits (source.token i) = false) :
    source.search fits limit = (none, source.advanced limit) := by
  induction limit generalizing source with
  | zero => rw [search, advanced_zero]
  | succ limit ih =>
    rw [search_succ, h 0 (Nat.succ_pos limit), if_neg Bool.false_ne_true, ← advanced_next]
    exact ih fun i hi => token_next source i ▸ h (i + 1) (Nat.succ_lt_succ hi)

/-- A search ends with the first token that passes. -/
theorem search_of_first (h : ∀ i < n, fits (source.token i) = false) (hn : fits (source.token n) = true)
    (hlimit : n < limit) : source.search fits limit = (some (source.token n), source.advanced (n + 1)) := by
  induction n generalizing source limit with
  | zero =>
    obtain ⟨limit, rfl⟩ := Nat.exists_eq_add_one_of_ne_zero (Nat.ne_of_gt hlimit)
    rw [search_succ, if_pos hn]
  | succ n ih =>
    obtain ⟨limit, rfl⟩ := Nat.exists_eq_add_one_of_ne_zero (Nat.ne_of_gt (Nat.zero_lt_of_lt hlimit))
    rw [search_succ, h 0 (Nat.succ_pos n), if_neg Bool.false_ne_true, ← token_next, ← advanced_next]
    refine ih (fun i hi => token_next source i ▸ h (i + 1) (Nat.succ_lt_succ hi)) ?_ (Nat.lt_of_succ_lt_succ hlimit)
    rw [token_next, hn]

end FileRouter.TokenSource
