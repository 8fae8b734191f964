import FileRouter.Proofs.World.Routes
/-!
Requests that pass through the views of one registry.

A path `Leads` through the views that own it, and what is left of it behind each of them, to a provider that
serves paths itself. That is the way on which its owner hands it on (`Leads.routed`); since all views look at the
same registry, each of them takes something off the path, and the way is shorter than the path.
-/

namespace FileRouter.World

variable {world : World} {registry id : Nat}

/-- The way that a path takes: through views, each with its scheme and whether it is read-only, to a provider
that serves the rest of the path. -/
inductive Leads (world : World) (registry : Nat) : Text → List (Text × Bool) → Nat → Text → Prop
  | base {path : Text} : world.IsBase (world.owner registry path) →
      Leads world registry path [] (world.owner registry path) path
  | view {path scheme inner : Text} {claim : Claim} {label : Option Text} {readOnly : Bool}
      {chain : List (Text × Bool)} {id : Nat} :
      world.provider? (world.owner registry path) = some ⟨scheme, claim, label, .view registry readOnly⟩ →
      Leads world registry (Scheme.strip path scheme) chain id inner →
      Leads world registry path ((scheme, readOnly) :: chain) id inner

variable {path inner : Text} {chain : List (Text × Bool)}

/-- The owner of a path hands it on along the way that it takes. -/
theorem Leads.routed (h : Leads world registry path chain id inner) :
    Routed world (world.owner registry path) path chain id inner := by
  induction h with
  | base hb => exact .base hb
  | view hp _ ih => exact .view hp ih

theorem Leads.isBase (h : Leads world registry path chain id inner) : world.IsBase id :=
  h.routed.isBase

theorem length_strip_lt {path scheme : Text} (h : Scheme.has path scheme = true) :
    (Scheme.strip path scheme).length < path.length := by
  obtain ⟨-, rest, rfl⟩ := Scheme.has_iff.mp h
  rw [Scheme.strip, if_pos h, List.length_drop, Scheme.join, List.length_append, List.length_cons]
  omega

/-- Each view takes something off the path: with a scheme that the path does not begin with, it would have to
hand the same path on to itself. -/
theorem Leads.length_le (h : Leads world registry path chain id inner) : chain.length ≤ path.length := by
  induction h with
  | base _ => exact Nat.zero_le _
  | @view path scheme inner claim label readOnly chain id hp hrest ih =>
    by_cases hhas : Scheme.has path scheme = true
    · have hlt := length_strip_lt hhas
      rw [List.length_cons]
      omega
    -- the way behind the view would be the whole way
    · exfalso
      have hsame : Scheme.strip path scheme = path := by
        rw [Scheme.strip, if_neg hhas]
      rw [hsame] at hrest
      have hlen := congrArg List.length (hrest.routed.unique (.view hp (hsame.symm ▸ hrest.routed))).1
      rw [List.length_cons] at hlen
      omega

theorem Leads.length_lt_handOverLimit (h : Leads world registry path chain id inner) :
    chain.length < world.handOverLimit path :=
  h.routed.length_lt_handOverLimit

theorem Leads.outcome_openInput (h : Leads world registry path chain id inner) :
    (perform registry (.openInput path)).outcome world = (direct id (.openInput inner)).outcome world :=
  h.routed.outcome_openInput

theorem Leads.outcome_openOutput (h : Leads world registry path chain id inner)
    (hplain : ∀ scheme, (scheme, true) ∉ chain) (append : Bool) :
    (perform registry (.openOutput path append)).outcome world =
      (direct id (.openOutput inner append)).outcome world :=
  h.routed.outcome_openOutput hplain append

theorem Leads.outcome_openOutput_refused (h : Leads world registry path chain id inner)
    (hread : ∃ scheme, (scheme, true) ∈ chain) (append : Bool) :
    ∃ refused, (perform registry (.openOutput path append)).outcome world =
      (.error (View.readOnlyFault refused), world) :=
  h.routed.outcome_openOutput_refused hread append

theorem Leads.outcome_canonicalPath (h : Leads world registry path chain id inner) :
    (perform registry (.canonicalPath path)).outcome world =
      (((direct id (.canonicalPath inner)).outcome world).1.map (wrapped chain),
        ((direct id (.canonicalPath inner)).outcome world).2) :=
  h.routed.outcome_canonicalPath

end FileRouter.World
