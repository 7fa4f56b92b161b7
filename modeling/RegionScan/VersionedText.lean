-- A text document that is edited in place: lookups between offsets and lines,
-- slices, and an edit counter by which a holder of derived data can tell that
-- it has gone stale.
import RegionScan.Text

namespace RegionScan

/-- A text and the number of edits it has gone through. -/
structure VersionedText where
  text : Text
  version : Nat
  deriving DecidableEq, Repr

namespace VersionedText

/-- A document that has not been edited yet. It keeps the line delimiters of `text`. -/
def ofText (text : Text) : VersionedText := ⟨text, 0⟩

/-- The document without any text. -/
def empty : VersionedText := ofText []

/-- The number of characters. -/
def length (doc : VersionedText) : Nat := doc.text.length

/-! ## Lines -/

/-- The number of lines; the empty document has one. -/
def lineCount (doc : VersionedText) : Nat := (lineStarts doc.text).length

/-- The line that holds `offset`. The end of the text belongs to the last line. -/
def lineOf? (doc : VersionedText) (offset : Nat) : Option Nat :=
  if offset ≤ doc.length then some (lineAmong (lineStarts doc.text) offset) else none

/-- The offset at which `line` starts. -/
def lineStart? (doc : VersionedText) (line : Nat) : Option Nat := (lineStarts doc.text)[line]?

/-- Line and column of `offset`. -/
def position? (doc : VersionedText) (offset : Nat) : Option (Nat × Nat) := do
  let line ← doc.lineOf? offset
  let start ← doc.lineStart? line
  return (line, offset - start)

/-- The text of `line` with its delimiter. -/
def lineText? (doc : VersionedText) (line : Nat) : Option Text :=
  lineBetween doc.text (lineStarts doc.text) line

/-- The texts of all lines, delimiters included. -/
def lines (doc : VersionedText) : List Text :=
  let starts := lineStarts doc.text
  (List.range starts.length).filterMap (lineBetween doc.text starts)

/-! ## Slices -/

/-- The `count` characters from `offset`, if the document has all of them. A slice may
part a carriage return from its line feed. -/
def slice? (doc : VersionedText) (offset count : Nat) : Option Text :=
  if offset + count ≤ doc.length then some (stretch doc.text offset count) else none

/-! ## Edits -/

/-- Puts `added` in at `offset`, or at the end if the document is shorter. An insert counts
as an edit also when `added` is empty. -/
def insert (doc : VersionedText) (offset : Nat) (added : Text) : VersionedText :=
  ⟨doc.text.take offset ++ added ++ doc.text.drop offset, doc.version + 1⟩

/-- Takes out `count` characters from `start`, or as many as there are. It counts as an edit
only if something goes. -/
def delete (doc : VersionedText) (start count : Nat) : VersionedText :=
  if start < min (start + count) doc.length then
    ⟨doc.text.take start ++ doc.text.drop (start + count), doc.version + 1⟩
  else doc

end VersionedText

end RegionScan
