import FileRouter.Failure.Basic
import FileRouter.Scheme
import FileRouter.Text.Quoted
/-!
Registries: which provider owns a path.

A registry lists its members in the order in which they were registered, at most one for each scheme,
and names a fallback. A path belongs to the first member that claims it, and to the fallback when none
does. Registering a scheme again replaces the member in its place.
-/

namespace FileRouter

/-- Which paths a provider claims. -/
inductive Claim where
  /-- Those that begin with its scheme. -/
  | ownScheme
  /-- Those that begin with its scheme, and those that have none. -/
  | ownSchemeOrNone
  /-- Those that begin with a given text. -/
  | leading (start : Text)
  deriving Repr, DecidableEq

/-- Whether a path is claimed by a provider with a given scheme. -/
def Claim.accepts (claim : Claim) (scheme path : Text) : Bool :=
  match claim with
  | ownScheme => Scheme.has path scheme
  | ownSchemeOrNone => Scheme.has path scheme || (Scheme.parse? path).isNone
  | leading start => start.isPrefixOf path

/-- A provider as a registry knows it: the number it goes by, its scheme, and what it claims. -/
structure Member where
  id : Nat
  scheme : Text
  claim : Claim
  deriving Repr, DecidableEq

/-- Whether a member claims a path. -/
def Member.accepts (member : Member) (path : Text) : Bool :=
  member.claim.accepts member.scheme path

/-- The registered members in order, and the fallback. -/
structure Registry where
  members : List Member
  fallback : Member
  deriving Repr, DecidableEq

namespace Registry

/-- A registry without members. -/
def fresh (fallback : Member) : Registry := ⟨[], fallback⟩

/-- The failure for a text that cannot be a scheme. -/
def badScheme (scheme : Text) : Failure :=
  .badValue ("Invalid provider scheme: ".toList ++ Text.quoted scheme)

/-- The failure for a scheme that no member has. -/
def unknownScheme (scheme : Text) : Failure :=
  .missingKey ("Scheme '".toList ++ scheme ++ "' not registered".toList)

/-- The members with one more, in the place of the one that has its scheme. -/
def put (member : Member) : List Member → List Member
  | [] => [member]
  | other :: others =>
    if other.scheme = member.scheme then member :: others else other :: put member others

/-- Registers a provider under its scheme. -/
def register (registry : Registry) (member : Member) : Except Failure Registry :=
  if Scheme.isValid member.scheme then
    .ok { registry with members := put member registry.members }
  else .error (badScheme member.scheme)

/-- The member with a scheme. -/
def find? (registry : Registry) (scheme : Text) : Option Member :=
  registry.members.find? fun member => member.scheme = scheme

/-- The member with a scheme, which has to be there. -/
def get (registry : Registry) (scheme : Text) : Except Failure Member :=
  match registry.find? scheme with
  | some member => .ok member
  | none => .error (unknownScheme scheme)

/-- Removes the member with a scheme, which has to be there; answers it. -/
def unregister (registry : Registry) (scheme : Text) : Except Failure (Member × Registry) :=
  match registry.find? scheme with
  | none => .error (unknownScheme scheme)
  | some member =>
    let members := registry.members.eraseP fun member => member.scheme = scheme
    .ok (member, { registry with members })

/-- Whether a scheme is registered. -/
def contains (registry : Registry) (scheme : Text) : Bool :=
  (registry.find? scheme).isSome

/-- The schemes in the order of their members. -/
def schemes (registry : Registry) : List Text :=
  registry.members.map Member.scheme

/-- The registry with another fallback. -/
def setFallback (registry : Registry) (fallback : Member) : Registry :=
  { registry with fallback }

/-- The member that owns a path. -/
def resolve (registry : Registry) (path : Text) : Member :=
  (registry.members.find? fun member => member.accepts path).getD registry.fallback

end Registry

end FileRouter
