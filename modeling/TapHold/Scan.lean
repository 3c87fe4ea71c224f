import TapHold.Event

/-!
# Matrix scans

A scanner reports a switch by two bytes. The top bit of the first is set while the switch is down,
the other seven bits are its row; the second is its column. Two bytes of ones report that no switch
has changed.
-/

set_option autoImplicit false

namespace TapHold

/-- The two bytes of a scan. -/
structure Scan where
  rowByte : Byte
  col : Byte
deriving DecidableEq

namespace Scan

/-- The bit of the row byte that is set while the switch is down. -/
def downBit : Byte := 0x80

/-- A switch is down or up. -/
def ofSwitch (row col : Byte) (down : Bool) : Scan :=
  ⟨row ||| (if down then downBit else 0), col⟩

/-- No switch has changed. -/
def unchanged : Scan := ⟨0xff, 0xff⟩

/-- Whether no switch has changed. -/
def isUnchanged (s : Scan) : Bool := s == unchanged

/-- The row of the switch. -/
def row (s : Scan) : Byte := s.rowByte &&& 0x7f#8

/-- Whether the switch is down. -/
def isDown (s : Scan) : Bool := s.rowByte.msb

/-- The key event of a scan at time `now`. -/
def event (s : Scan) (now : Time) : KeyEvent :=
  if s.isUnchanged then .tick now else ⟨⟨s.row, s.col⟩, s.isDown, now⟩

end Scan

end TapHold
