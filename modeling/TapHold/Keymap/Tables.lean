import TapHold.Keymap.Basic

/-!
# Keymaps given as tables
-/

set_option autoImplicit false

namespace TapHold

/-- One table of rows for each layer and each overlay. -/
structure Tables where
  layers : List (List (List Word))
  overlays : List (List (List Word))

namespace Tables

/-- The tables of a family. -/
def family (t : Tables) : LayerTarget → List (List (List Word))
  | .keymap => t.layers
  | .overlay => t.overlays

/-- The entry of a table, if it has one at this place. -/
def entry? (t : Tables) (id : LayerId) (key : Position) : Option Word := do
  let table ← (t.family id.target)[id.number]?
  let row ← table[key.row.toNat]?
  row[key.col.toNat]?

/-- The keymap that the tables hold. -/
def keymap (t : Tables) : Keymap := fun id key =>
  (t.entry? id key).getD Action.transparentCode

end Tables

end TapHold
