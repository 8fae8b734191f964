import FileRouter.World.Basic
/-!
How providers, registries and stores are shown.
-/

namespace FileRouter

namespace Backing

/-- The word for what stands behind a provider. -/
def word : Backing → Text
  | disk => "DiskFileProvider".toList
  | memory _ => "MemoryFileProvider".toList
  | view _ true => "ReadOnlyFileProvider".toList
  | view _ false => "FileProviderWrapper".toList
  | scripted _ => "Scripted".toList

end Backing

namespace Provider

/-- A provider by its kind and scheme. -/
def display (provider : Provider) : Text :=
  provider.backing.word ++ "(scheme=".toList ++ Text.quoted provider.scheme ++ [')']

/-- The label of a provider, or its kind and scheme. -/
def called (provider : Provider) : Text :=
  provider.label.getD (provider.backing.word ++ ':' :: provider.scheme)

end Provider

namespace World

/-- The provider with a number, as it is shown. -/
def display (world : World) (id : Nat) : Text :=
  ((world.provider? id).map Provider.display).getD []

/-- The provider with a number, as it is called. -/
def called (world : World) (id : Nat) : Text :=
  ((world.provider? id).map Provider.called).getD []

/-- A registry by its schemes and its fallback. -/
def displayRegistry (world : World) (registry : Registry) : Text :=
  "ProviderRegistry(schemes=".toList ++ Text.quotedList registry.schemes ++
    ", default=".toList ++ world.display registry.fallback.id ++ [')']

/-- A store by its registry. -/
def displayStore (world : World) (registry : Registry) : Text :=
  "FileStore(".toList ++ world.displayRegistry registry ++ [')']

end World

end FileRouter
