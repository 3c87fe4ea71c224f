import TapHold.Keymap.Image

/-!
# Keymaps in a memory

A keymap that is loaded while the keyboard runs lives in a memory of a fixed number of words. The
directory and the bodies of an image are copied to the start of the memory word by word as they
come, over what is there, and are checked only afterwards, where they lie. Behind them the words of
an earlier image stay behind. A refused image leaves the memory as it was at the start.

The words of a layer are found through the directory in the memory, and the code of a place in the
words of its layer, by its number or by halving. A read outside of the memory, or outside of the
words of the layer, has no result.
-/

set_option autoImplicit false

namespace TapHold

namespace LayerBody

/-- The code of a place among the words of pairs in increasing order of places, of which only the
pairs from number `lo` on and before number `hi` are left. -/
def search? (words : List Word) (place : Word) (lo hi : Nat) : Option Word :=
  if lo < hi then
    let mid := (lo + hi) / 2
    match words[2 * mid]? with
    | some p =>
      if place < p then search? words place lo mid
      else if p < place then search? words place (mid + 1) hi
      else words[2 * mid + 1]?
    | none => none
  else some Action.transparentCode
termination_by hi - lo

/-- The code of a place among the words of a layer. -/
def code? (rows cols : Nat) (words : List Word) (key : Position) : Option Word :=
  if words.length = rows * cols then
    if key.row.toNat < rows ∧ key.col.toNat < cols then
      words[key.row.toNat * cols + key.col.toNat]?
    else some Action.transparentCode
  else search? words key.word 0 (words.length / 2)

end LayerBody

/-- A memory for the directory and the bodies of an image for a matrix of `rows` and `cols`. -/
structure ImageMemory (rows cols space : Nat) where
  words : Vector Word space
  layerCount : Nat
  overlayCount : Nat
  settings : Settings

namespace ImageMemory

variable {rows cols space : Nat}

/-- The memory at the start: no layers, and the standard settings. -/
def empty : ImageMemory rows cols space := ⟨Vector.replicate space 0, 0, 0, .standard⟩

/-! ## Loading -/

/-- Copies words into the memory, of which the first `used` words are taken already, and tells how
many are taken then. A word that finds no room ends it. -/
def copy (memory : Vector Word space) (used : Fin (space + 1)) :
    List Word → Vector Word space × Except LoadError (Fin (space + 1))
  | [] => (memory, .ok used)
  | w :: rest =>
    if room : used.val < space then
      copy (memory.set used.val w) ⟨used.val + 1, Nat.succ_lt_succ room⟩ rest
    else (memory, .error .outOfSpace)

/-- The words of the memory from offset `start` on and before offset `stop`. -/
def slice (memory : Vector Word space) (start stop : Nat) : List Word :=
  (memory.toList.take stop).drop start

/-- Whether the bodies from number `i` on lie one after another from offset `start` on, within the
words that are taken, and follow the format. The directory has `count` entries and one more. -/
def bodiesFollow (rows cols : Nat) (memory : Vector Word space) (used : Fin (space + 1))
    (count : Nat) (inside : count < space) (i start : Nat) : Bool :=
  if next : i < count then
    let s := memory[i].toNat
    let e := memory[i + 1].toNat
    decide (s = start ∧ s ≤ e ∧ e ≤ used.val) &&
      (LayerBody.ofWords? rows cols (slice memory s e)).isSome &&
      bodiesFollow rows cols memory used count inside (i + 1) e
  else true
termination_by count - i

/-- Whether the words that are taken are a directory of `count` layers and their bodies. -/
def follows (rows cols : Nat) (memory : Vector Word space) (used : Fin (space + 1))
    (count : Nat) : Bool :=
  if long : count + 1 ≤ used.val then
    have inside : count < space := Nat.lt_of_lt_of_le long (Nat.le_of_lt_succ used.isLt)
    memory[count].toNat == used.val &&
      bodiesFollow rows cols memory used count inside 0 (count + 1)
  else false

/-- Loads an image over what is in the memory. The memory may be in disorder when this fails. -/
def overwrite (m : ImageMemory rows cols space) (words : List Word) :
    ImageMemory rows cols space × Except LoadError Unit :=
  match Image.readHeader rows cols words with
  | .error e => (m, .error e)
  | .ok (header, rest) =>
    match copy m.words ⟨0, Nat.succ_pos space⟩ rest with
    | (memory, .error e) => ({ m with words := memory }, .error e)
    | (memory, .ok used) =>
      if follows rows cols memory used (header.layerCount + header.overlayCount) then
        (⟨memory, header.layerCount, header.overlayCount, header.settings⟩, .ok ())
      else ({ m with words := memory }, .error .corrupt)

/-- Loads an image. A refused image leaves the memory as it was at the start. -/
def load (m : ImageMemory rows cols space) (words : List Word) :
    ImageMemory rows cols space × Except LoadError Unit :=
  match m.overwrite words with
  | (next, .ok ()) => (next, .ok ())
  | (_, .error e) => (empty, .error e)

/-! ## Looking up -/

/-- The number of a layer in the directory, if there is such a layer. -/
def index? (m : ImageMemory rows cols space) (id : LayerId) : Option Nat :=
  match id.target with
  | .keymap => if id.number < m.layerCount then some id.number else none
  | .overlay => if id.number < m.overlayCount then some (m.layerCount + id.number) else none

/-- The words of a layer, if there is such a layer. -/
def layer? (m : ImageMemory rows cols space) (id : LayerId) : Option (List Word) := do
  let i ← m.index? id
  let start ← m.words[i]?
  let stop ← m.words[i + 1]?
  guard (start.toNat ≤ stop.toNat ∧ stop.toNat ≤ space)
  return slice m.words start.toNat stop.toNat

/-- The keymap in the memory. -/
def keymap (m : ImageMemory rows cols space) : Keymap := fun id key =>
  ((m.layer? id).bind fun words => LayerBody.code? rows cols words key).getD
    Action.transparentCode

end ImageMemory

end TapHold
