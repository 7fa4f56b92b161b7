-- The window: a copy of a stretch of the document, at most `capacity` characters
-- long, from which single characters are read.
import RegionScan.Document

namespace RegionScan

/-- The characters of the document from `start` on, as many as the window holds. -/
structure Window where
  chars : Array Char
  start : Nat
  capacity : Nat
  capacity_pos : 0 < capacity

namespace Window

/-- A window that has not been filled. -/
def unfilled (capacity : Nat) (capacity_pos : 0 < capacity) : Window :=
  ⟨#[], 0, capacity, capacity_pos⟩

/-- The offset just past the last character. -/
def stop (window : Window) : Nat := window.start + window.chars.size

/-- Whether the character at `offset` is in the window. -/
def contains (window : Window) (offset : Nat) : Bool :=
  decide (window.start ≤ offset) && decide (offset < window.stop)

/-- The character at an offset of the document. -/
def get? (window : Window) (offset : Nat) : Option Char :=
  if window.contains offset then window.chars[offset - window.start]? else none

/-- How many characters a window at `offset` would hold: up to its capacity and to the end of
a document. None means that the window would start past the end. -/
def reach? (window : Window) (documentLength offset : Nat) : Option Nat :=
  if offset ≤ min (offset + window.capacity) documentLength then
    some (min (offset + window.capacity) documentLength - offset)
  else none

/-- The window with other characters. -/
def showing (window : Window) (start : Nat) (text : Text) : Window :=
  { window with chars := text.toArray, start }

end Window

end RegionScan
