import FileRouter.Proofs.Memory.Drive
import FileRouter.Store.Basic
/-!
Runs of a drive.

An `Action` is anything that can be done to a drive or to a handle on one of its files; a run is a list
of them, each of which may answer or fail. A drive that a run has led to from a fresh one is `Reached`.
Main statement: whatever the run, the tree stays well formed (`wellFormed_run`).
-/

namespace FileRouter.Drive

/-- Something that is done to a drive: a request to it, a search for a fresh name that may take any
number of tokens, or a request to one of its handles. -/
inductive Action where
  | ask (now : Int) (request : Request)
  | search (limit : Nat) (now : Int) (start ending : Text)
  | use (now : Int) (index : Nat) (request : StreamRequest)

/-- The drive and the tokens that an action leaves, however it ends. -/
def act (s : Drive × TokenSource) : Action → Drive × TokenSource
  | .ask now request => ((perform now request).outcome s).2
  | .search limit now start ending => ((createTempWithin limit now start ending).outcome s).2
  | .use now index request => ((plain (onFile now index request)).outcome s).2

/-- A drive as a store of its own: it owns every path. -/
def alone (now : Int) : Store (Drive × TokenSource) Nat :=
  ⟨fun _ _ => 0, perform now, fun index request => plain (onFile now index request)⟩

/-- What a run leaves. -/
def run (s : Drive × TokenSource) (actions : List Action) : Drive × TokenSource :=
  actions.foldl act s

/-- A drive that some run leads to from a fresh one. -/
def Reached (drive : Drive) : Prop :=
  ∃ scheme now tokens actions, (run (.fresh scheme now, tokens) actions).1 = drive

theorem changeOf_le (request : Request) {tree tree' : Tree} (h : changeOf request tree tree') :
    Tree.Step tree tree' := by
  cases request with
  | delete | move => exact h
  | _ => exact .grown h

theorem later_act (s : Drive × TokenSource) (action : Action) :
    Later Tree.Step s.1 (act s action).1 := by
  cases action with
  | ask now request => exact (later_perform now request s).mono (changeOf_le request)
  | search limit now start ending => exact (later_createTempWithin limit now start ending s).mono .grown
  | use now index request => exact (later_onFile now index request s.1).mono .grown

theorem later_run (s : Drive × TokenSource) (actions : List Action) :
    Later Tree.Step s.1 (run s actions).1 := by
  induction actions generalizing s with
  | nil => exact .refl s.1
  | cons action actions ih => exact (later_act s action).trans (ih (act s action))

theorem Reached.wellFormed {drive : Drive} (h : Reached drive) : drive.tree.WellFormed := by
  obtain ⟨scheme, now, tokens, actions, rfl⟩ := h
  exact Tree.wellFormed_of_steps (later_run _ actions).tree (.fresh now)

/-- **The tree of a drive stays well formed** through every run from a fresh drive: the root is a
directory, every entry hangs in a directory, a directory holds no bytes, and the path of every other
entry consists of proper names with a single slash in front of each. -/
theorem wellFormed_run (scheme : Text) (now : Int) (tokens : TokenSource) (actions : List Action) :
    (run (.fresh scheme now, tokens) actions).1.tree.WellFormed ∧
      ∀ {key : Key} {node : Node},
        (run (.fresh scheme now, tokens) actions).1.tree.get? key = some node → key ≠ [] →
          Text.parts '/' key.toText = [] :: key ∧ ∀ name ∈ key, Key.IsName name := by
  have h : (run (.fresh scheme now, tokens) actions).1.tree.WellFormed :=
    Reached.wellFormed ⟨scheme, now, tokens, actions, rfl⟩
  refine ⟨h, fun {key node} hg hne => ⟨?_, h.proper hg⟩⟩
  cases key with
  | nil => exact absurd rfl hne
  | cons name names => exact Key.parts_flatMap fun other ho => (h.proper hg other ho).no_slash

end FileRouter.Drive
