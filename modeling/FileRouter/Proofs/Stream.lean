import FileRouter.Proofs.Cursor
import FileRouter.Request
/-!
Streams over a cursor.

A handle shows a cursor when that is what its user sees of a file. `Does` says that a call answers a value and takes
the handle from one cursor to another; steps of this kind are put together like the calls (`Does.bind`).
`Cursor.respond` is what a stream over a cursor answers to a request, and where that leaves the cursor. `Common` are
the requests of random access that a stream on a drive and one on the disk both answer so. They part where a file would
be made longer by truncating it, which a drive does not do, and where a number of bytes below -1 is asked for, which a
buffered stream refuses, or one that no room can be made for, which the disk refuses. Neither takes a number that is no
count, or an offset or a size that does not fit.
-/

namespace FileRouter

namespace HandleMode

theorem parse_name (mode : HandleMode) (path : Text) : parse mode.name path = .ok mode := by
  cases mode <;> rfl

end HandleMode

namespace Cursor

/-- What is taken by a count, and the cursor that is left; a number that is no count takes nothing. -/
def counted (count : Option Int) (f : Option Count → Cursor → Bytes × Cursor) (c : Cursor) : Bytes × Cursor :=
  match Count.ofOption count with
  | .ok count => f count c
  | .error _ => ([], c)

/-- What a stream over a cursor answers to a request, and the cursor that is left. -/
def respond (c : Cursor) : (request : StreamRequest) → request.Reply × Cursor
  | .read count => c.counted count read
  | .readLine limit => c.counted limit readLine
  | .readLines => c.readLines
  | .write data => (data.length, c.write data)
  | .seek offset whence =>
    match c.seek offset whence with
    | .ok moved => (moved.position, moved)
    | .error _ => (0, c)
  | .tell => (c.position, c)
  | .truncate size =>
    match c.truncate size with
    | .ok cut => cut
    | .error _ => (0, c)
  | .flush | .close => ((), c)
  | .readable | .writable | .seekable => (true, c)
  | .closed => (false, c)

/-- Moving the position leaves the bytes as they are. -/
theorem bytes_seek {offset whence : Int} {c moved : Cursor} (h : c.seek offset whence = .ok moved) :
    moved.bytes = c.bytes := by
  rw [seek, moveFrom, moveFrom] at h
  split_ifs at h <;> exact (Except.ok.inj h) ▸ rfl

theorem bytes_counted {f : Option Count → Cursor → Bytes × Cursor} {c : Cursor} (h : ∀ n, (f n c).2.bytes = c.bytes)
    (count : Option Int) : (c.counted count f).2.bytes = c.bytes := by
  rw [counted]
  cases Count.ofOption count with
  | error failure => rfl
  | ok n => exact h n

end Cursor

/-! ### Steps -/

section Steps

variable {σ α β : Type} {Shows : Cursor → σ → Prop} {c c' c'' : Cursor} {call : Call σ α} {answer : α}

/-- From every state that shows a cursor, a call answers a value and leads to one that shows another cursor. -/
def Does (Shows : Cursor → σ → Prop) (c : Cursor) (call : Call σ α) (answer : α) (c' : Cursor) : Prop :=
  ∀ s, Shows c s → ∃ t, call.outcome s = (.ok answer, t) ∧ Shows c' t

theorem does_pure (answer : α) : Does Shows c (pure answer) answer c := fun s h => ⟨s, rfl, h⟩

theorem Does.bind {next : α → Call σ β} {answer' : β} (h : Does Shows c call answer c')
    (hnext : Does Shows c' (next answer) answer' c'') : Does Shows c (call >>= next) answer' c'' := by
  intro s hs
  obtain ⟨t, hcall, ht⟩ := h s hs
  obtain ⟨u, hcall', hu⟩ := hnext t ht
  exact ⟨u, by rw [Call.outcome_bind, hcall]; exact hcall', hu⟩

theorem does_ofExcept (answer : α) : Does Shows c (Call.ofExcept (.ok answer)) answer c := fun s h => ⟨s, rfl, h⟩

/-- Makes requests to a handle one after the other, each at a time, and answers what came of each. -/
def serve (onHandle : Int → (request : StreamRequest) → Call σ request.Reply) :
    List (Int × StreamRequest) → Call σ (List (Σ request : StreamRequest, request.Reply))
  | [] => pure []
  | (now, request) :: requests => do
    let answer ← onHandle now request
    let answers ← serve onHandle requests
    pure (⟨request, answer⟩ :: answers)

end Steps

end FileRouter
