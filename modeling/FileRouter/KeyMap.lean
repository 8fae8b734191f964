import FileRouter.Key
/-!
Maps from keys to values, with the tree that the keys form.

A map is the list of its entries; the operations keep the keys distinct. `get?` is the view through
which the others are understood: `put` and `erase` change it at one key, `rename` carries a whole
subtree from one key to another, and `childrenNames` lists what lies directly below a key in the order
of the names.
-/

namespace FileRouter

/-- A finite map from keys, as the list of its entries. -/
abbrev KeyMap (α : Type) := List (Key × α)

namespace KeyMap

variable {α : Type}

/-- The value at a key. -/
def get? (map : KeyMap α) (key : Key) : Option α :=
  (map.find? fun entry => entry.1 = key).map Prod.snd

/-- Whether there is a value at a key. -/
def has (map : KeyMap α) (key : Key) : Bool := (get? map key).isSome

/-- The map with a value at a key, in place of the one that may be there. -/
def put (map : KeyMap α) (key : Key) (value : α) : KeyMap α :=
  if has map key then map.map fun entry => if entry.1 = key then (key, value) else entry
  else map ++ [(key, value)]

/-- The map without the entry at a key. -/
def erase (map : KeyMap α) (key : Key) : KeyMap α :=
  map.filter fun entry => entry.1 ≠ key

/-- The names of the entries directly below a key, in the order of their code points. -/
def childrenNames (map : KeyMap α) (key : Key) : List Text :=
  Text.sorted ((map.filter fun entry => entry.1.isChildOf key).map fun entry => entry.1.name)

/-- Whether nothing lies directly below a key. -/
def isEmptyAt (map : KeyMap α) (key : Key) : Bool :=
  !map.any fun entry => entry.1.isChildOf key

/-- The map in which the entries at and below one key have moved to another, over the entry that may
be there. -/
def rename (map : KeyMap α) (source target : Key) : KeyMap α :=
  (map.filter fun entry => source.isPrefixOf entry.1 || entry.1 ≠ target).map fun entry =>
    if source.isPrefixOf entry.1 then (target ++ entry.1.drop source.length, entry.2) else entry

end KeyMap

end FileRouter
