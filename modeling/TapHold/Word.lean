/-!
# Bytes and words

Key codes, matrix coordinates and the modifier byte are eight bits wide; action codes, time stamps
and layer masks are sixteen bits wide. Arithmetic on both wraps around.
-/

namespace TapHold

/-- Eight bits. -/
abbrev Byte := BitVec 8

/-- Sixteen bits. -/
abbrev Word := BitVec 16

end TapHold
