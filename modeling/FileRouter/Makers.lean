import FileRouter.Spec.Basic
import FileRouter.World.Providers
/-!
Makers: providers made from specs.

A catalog names what makes providers. `Catalog.create` reads a spec, finds what is under the name in it and lets it
work from the target and the parameters of the spec; whatever can be called can be in a catalog. The makers that
there are make a provider for a registry, which they are told because views look for owners there, and
`Makers.build` makes a registry of several specs, in their order.
-/

namespace FileRouter

/-- A catalog of what makes providers, by name, with distinct names. -/
abbrev Catalog (μ : Type) := List (Text × μ)

namespace Catalog

variable {μ : Type}

/-- The maker with a name. -/
def maker? (catalog : Catalog μ) (name : Text) : Option μ :=
  (catalog.find? fun entry => entry.1 = name).map Prod.snd

/-- The names in the order of their code points. -/
def names (catalog : Catalog μ) : List Text := Text.sorted (catalog.map Prod.fst)

/-- The catalog with a maker under a name, in place of the one that may be there. -/
def put (catalog : Catalog μ) (name : Text) (maker : μ) : Catalog μ :=
  (catalog.filter fun entry => entry.1 ≠ name) ++ [(name, maker)]

/-- Puts something under a name; it has to be a maker. -/
def register (catalog : Catalog μ) (name : Text) (maker : Option μ) : Except Failure (Catalog μ) :=
  match maker with
  | none => .error (.badType "factory_func must be callable".toList)
  | some maker => .ok (catalog.put name maker)

/-- The failure for a name without a maker. -/
def unknownName (catalog : Catalog μ) (name : Text) : Failure :=
  .badValue ("Unsupported provider: '".toList ++ name ++ "'. Supported providers: ".toList ++
    Text.joined [',', ' '] catalog.names)

/-- The maker and the spec that a text stands for. -/
def choose (catalog : Catalog μ) (text : Text) : Except Failure (μ × Spec) :=
  match Spec.parse text with
  | .error failure => .error failure
  | .ok spec =>
    match catalog.maker? spec.name with
    | none => .error (catalog.unknownName spec.name)
    | some maker => .ok (maker, spec)

theorem exists_of_choose {catalog : Catalog μ} {text : Text} {maker : μ} {spec : Spec}
    (h : catalog.choose text = .ok (maker, spec)) : ∃ name, (name, maker) ∈ catalog := by
  rw [choose] at h
  cases hs : Spec.parse text with
  | error failure => simp [hs] at h
  | ok spec' =>
    cases hm : catalog.maker? spec'.name with
    | none => simp [hs, hm] at h
    | some found =>
      simp only [hs, hm, Except.ok.injEq, Prod.mk.injEq] at h
      obtain ⟨rfl, rfl⟩ := h
      rw [maker?, Option.map_eq_some_iff] at hm
      obtain ⟨entry, hentry, rfl⟩ := hm
      exact ⟨entry.1, List.mem_of_find?_eq_some hentry⟩

/-- Lets the maker that a text names make something from the spec in the text. -/
def create {σ α : Type} (catalog : Catalog μ) (make : μ → Spec → Call σ α) (text : Text) : Call σ α := do
  let (maker, spec) ← Call.ofExcept (catalog.choose text)
  make maker spec

end Catalog

/-- The ways to make a provider from a spec. -/
inductive Maker where
  | disk
  /-- An empty drive; the parameter `scheme` may name its scheme. -/
  | memory
  /-- A read-only view on the registry; the parameter `scheme` may name its scheme. -/
  | readOnly
  /-- An empty drive with the target as its scheme. -/
  | targetMemory
  /-- A scripted provider without rules. The parameter `scheme` has to name its scheme. -/
  | scripted
  deriving Repr, DecidableEq

/-- A catalog of these makers. -/
abbrev Makers := Catalog Maker

namespace Makers

/-- The parameter that names a scheme. -/
def schemeParam : Text := "scheme".toList

/-- The makers that every catalog begins with. -/
def builtIn : Makers :=
  [("file".toList, .disk), ("memory".toList, .memory), ("readonly".toList, .readOnly)]

end Makers

/-- Makes a provider for a registry; answers its number. -/
def Maker.make (registry : Nat) (spec : Spec) : Maker → Call World Nat
  | disk => World.addDisk
  | memory => World.addMemory ((spec.param? Makers.schemeParam).getD World.memoryScheme)
  | readOnly =>
    World.addView ((spec.param? Makers.schemeParam).getD World.readOnlyScheme) registry true
  | targetMemory => World.addMemory spec.target
  | scripted => do
    Call.change fun world =>
      { world with events := world.events ++ [.make spec.target spec.params] }
    match spec.param? Makers.schemeParam with
    | none => throw (.missingKey Makers.schemeParam)
    | some scheme => World.addScripted scheme .ownScheme ⟨scheme, []⟩

namespace Makers

/-- Makes the provider that a spec describes, for a registry; answers its number. -/
def create (makers : Makers) (registry : Nat) (text : Text) : Call World Nat :=
  Catalog.create makers (fun maker spec => maker.make registry spec) text

/-- Makes and registers the providers of specs in order. -/
def fill (makers : Makers) (registry : Nat) (specs : List Text) : Call World Unit :=
  specs.forM fun spec => do
    World.register registry (← makers.create registry spec)

/-- Makes a registry of specs with a fallback, which is the disk if none is given; answers its
number. -/
def build (makers : Makers) (specs : List Text) (fallback : Option Nat) : Call World Nat := do
  let fallback ←
    match fallback with
    | some fallback => pure fallback
    | none => World.addDisk
  let registry ← World.addRegistry fallback
  makers.fill registry specs
  pure registry

/-- The specs of the registry that is used when nothing else is asked for. -/
def usualSpecs : List Text := ["memory".toList, "readonly".toList]

end Makers

end FileRouter
