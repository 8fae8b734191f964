import FileRouter.Text.Basic
/-!
Sources of tokens for fresh names.

A source gives out its queued tokens first and then those of an endless stream. A token that has been
given out is used up, whatever becomes of it.
-/

namespace FileRouter

/-- Tokens that are queued, an endless stream of further ones, and how many of the stream are used. -/
structure TokenSource where
  queued : List Text
  stream : Nat → Text
  used : Nat

namespace TokenSource

/-- The next token, and the source without it. -/
def next (source : TokenSource) : Text × TokenSource :=
  match source.queued with
  | token :: queued => (token, { source with queued })
  | [] => (source.stream source.used, { source with used := source.used + 1 })

/-- The source that counts from one in twelve hexadecimal digits after its queue. -/
def counting (queued : List Text) : TokenSource :=
  ⟨queued, fun n => Text.hexadecimal 12 (n + 1), 0⟩

/-- Draws tokens until one passes a test, but not more than a given number. -/
def search (fits : Text → Bool) : Nat → TokenSource → Option Text × TokenSource
  | 0, source => (none, source)
  | n + 1, source =>
    let (token, source) := source.next
    if fits token then (some token, source) else search fits n source

end TokenSource

end FileRouter
