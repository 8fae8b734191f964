import FileRouter.Store.Copy
import Mathlib.Tactic.Common
/-!
The loop that copies a stream.

What is still to be read and what has been written are the two halves of an invariant: a read moves a part
from the front of the one out, a write puts it at the end of the other. With enough chunks the loop ends with
nothing left to read and everything written (`outcome_copyStream`). However reads and writes go, what they all
keep the loop keeps (`keeps_copyStream`).
-/

namespace FileRouter

variable {σ : Type} {read : Call σ Bytes} {write : Bytes → Call σ Unit}
  {Inv : Bytes → Bytes → σ → Prop}

/-- A read takes something from the front of what is left, unless nothing is left. -/
def Reads (read : Call σ Bytes) (Inv : Bytes → Bytes → σ → Prop) : Prop :=
  ∀ {left written : Bytes} {s : σ}, Inv left written s →
    ∃ n t, read.outcome s = (.ok (left.take n), t) ∧ Inv (left.drop n) written t ∧ (left ≠ [] → 0 < n)

/-- A write puts a chunk behind what has been written. -/
def Writes (write : Bytes → Call σ Unit) (Inv : Bytes → Bytes → σ → Prop) : Prop :=
  ∀ {left written chunk : Bytes} {s : σ}, chunk ≠ [] → Inv left written s →
    ∃ t, (write chunk).outcome s = (.ok (), t) ∧ Inv left (written ++ chunk) t

/-- Where reads and writes go well, everything is carried over. -/
theorem outcome_copyStream (hread : Reads read Inv) (hwrite : Writes write Inv) {chunks : Nat}
    {left written : Bytes} {s : σ} (h : Inv left written s) (hlt : left.length < chunks) :
    ∃ t, (copyStream read write chunks).outcome s = (.ok left.length, t) ∧ Inv [] (written ++ left) t := by
  induction chunks generalizing left written s with
  | zero => omega
  | succ chunks ih =>
    obtain ⟨n, t, hr, ht, hn⟩ := hread h
    rw [copyStream, Call.outcome_bind, hr]
    by_cases hleft : left = []
    -- a read that takes nothing ends the loop
    · subst hleft
      rw [List.take_nil]
      exact ⟨t, rfl, by simpa using ht⟩
    · have hpos := hn hleft
      have hchunk : left.take n ≠ [] := by
        intro he
        rcases List.take_eq_nil_iff.mp he with hzero | hnil
        · omega
        · exact hleft hnil
      obtain ⟨u, hw, hu⟩ := hwrite hchunk ht
      -- every chunk shortens what is left, so the chunks last
      have hshorter : (left.drop n).length < chunks := by
        have hlen := List.length_pos_iff.mpr hleft
        rw [List.length_drop]
        omega
      obtain ⟨v, hrest, hv⟩ := ih hu hshorter
      refine ⟨v, ?_, by rwa [List.append_assoc, List.take_append_drop] at hv⟩
      have hempty : (left.take n).isEmpty = false := by simpa using hchunk
      simp only [hempty, Bool.false_eq_true, if_false]
      rw [Call.outcome_bind, hw]
      simp only
      rw [Call.outcome_bind, hrest]
      have hsum : (left.take n).length + (left.drop n).length = left.length := by
        rw [← List.length_append, List.take_append_drop]
      show (Except.ok ((left.take n).length + (left.drop n).length), v) = (Except.ok left.length, v)
      rw [hsum]

/-- What every read and every write keeps, the loop keeps. -/
theorem keeps_copyStream {Inv : σ → Prop} (hread : Call.Keeps Inv read)
    (hwrite : ∀ chunk, Call.Keeps Inv (write chunk)) (chunks : Nat) :
    Call.Keeps Inv (copyStream read write chunks) := by
  induction chunks with
  | zero => exact Call.keeps_throw _
  | succ chunks ih =>
    rw [copyStream]
    refine Call.keeps_bind hread fun chunk => ?_
    split_ifs
    · exact Call.keeps_pure 0
    · refine Call.keeps_bind (hwrite chunk) fun _ => ?_
      exact Call.keeps_bind ih fun _ => Call.keeps_pure _

end FileRouter
