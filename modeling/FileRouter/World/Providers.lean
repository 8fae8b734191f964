import FileRouter.World.Basic
/-!
New providers and registries.

Each function adds one to the world and answers its number. Memory providers and views refuse a scheme
that is none; the others take any, which a registry may refuse later.
-/

namespace FileRouter.World

/-- Adds a provider. -/
def add (provider : Provider) : Call World Nat :=
  Call.ofOutcome fun world =>
    (.ok world.providers.length, { world with providers := world.providers ++ [provider] })

/-- Refuses a text that cannot be a scheme. -/
def checkScheme (scheme : Text) : Call World Unit :=
  if Scheme.isValid scheme then pure () else throw (Registry.badScheme scheme)

/-- Adds a provider for the disk. It also claims the paths without a scheme. -/
def addDisk : Call World Nat :=
  add ⟨Disk.scheme, .ownSchemeOrNone, none, .disk⟩

/-- Adds a provider with an empty drive. -/
def addMemory (scheme : Text) : Call World Nat := do
  checkScheme scheme
  let now := millis (← get).clock
  add ⟨scheme, .ownScheme, none, .memory (.fresh scheme now)⟩

/-- Adds a view on the owners of a registry. -/
def addView (scheme : Text) (registry : Nat) (readOnly : Bool) : Call World Nat := do
  checkScheme scheme
  add ⟨scheme, .ownScheme, none, .view registry readOnly⟩

/-- Adds a scripted provider. -/
def addScripted (scheme : Text) (claim : Claim) (script : Script) : Call World Nat :=
  add ⟨scheme, claim, none, .scripted script⟩

/-- The scheme of a memory provider for which none is asked. -/
def memoryScheme : Text := "mem".toList

/-- The scheme of a read-only view for which none is asked. -/
def readOnlyScheme : Text := "ro".toList

/-- Gives a provider a label. -/
def setLabel (id : Nat) (label : Text) : Call World Unit :=
  Call.change fun world =>
    { world with
      providers := world.providers.modify id fun provider => { provider with label := some label } }

/-- A provider as registries know it. -/
def member (id : Nat) : Call World Member := do
  match (← get).provider? id with
  | none => throw missingProvider
  | some provider => pure ⟨id, provider.scheme, provider.claim⟩

theorem outcome_member {world : World} {id : Nat} {provider : Provider} (h : world.provider? id = some provider) :
    (member id).outcome world = (.ok ⟨id, provider.scheme, provider.claim⟩, world) := by
  rw [member, Call.outcome_bind, Call.outcome_get]
  simp only [h]
  rfl

/-- Adds a registry without members. -/
def addRegistry (fallback : Nat) : Call World Nat := do
  let fallback ← member fallback
  Call.ofOutcome fun world =>
    (.ok world.registries.length,
      { world with registries := world.registries ++ [.fresh fallback] })

/-- The registry with a number. -/
def registry (number : Nat) : Call World Registry := do
  match (← get).registries[number]? with
  | none => throw missingProvider
  | some registry => pure registry

theorem outcome_registry {world : World} {number : Nat} {found : Registry}
    (h : world.registries[number]? = some found) : (registry number).outcome world = (.ok found, world) := by
  rw [registry, Call.outcome_bind, Call.outcome_get]
  simp only [h]
  rfl

/-- Puts a registry in the place of the one with a number. -/
def setRegistry (number : Nat) (registry : Registry) : Call World Unit :=
  Call.change fun world => { world with registries := world.registries.set number registry }

/-- Registers a provider. -/
def register (number id : Nat) : Call World Unit := do
  let registry ← registry number
  setRegistry number (← Call.ofExcept (registry.register (← member id)))

/-- Removes the provider with a scheme from a registry; answers its number. -/
def unregister (number : Nat) (scheme : Text) : Call World Nat := do
  let (member, registry) ← Call.ofExcept ((← registry number).unregister scheme)
  setRegistry number registry
  pure member.id

/-- Makes a provider the fallback of a registry. -/
def setFallback (number id : Nat) : Call World Unit := do
  let registry ← registry number
  setRegistry number (registry.setFallback (← member id))

end FileRouter.World
