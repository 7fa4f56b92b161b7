-- The document a scanner reads from. A document answers lookups and may refuse
-- any of them; a text document is one, and so is a text document with holes.
import RegionScan.VersionedText
import RegionScan.Failure

namespace RegionScan

/-- Read access to a text by character offsets. -/
structure Document where
  /-- The length in characters. -/
  length : Nat
  /-- The characters of a stretch, from an offset and a length. -/
  slice : Nat → Nat → Except LookupError Text
  /-- The line that holds an offset. -/
  lineOf : Nat → Except LookupError Nat
  /-- Where a line starts. -/
  lineStart : Nat → Except LookupError Nat
  lineCount : Nat
  /-- The sequences that end a line. -/
  delimiters : List String
  /-- A way of its own to the text of a line; most documents have none and are sliced. -/
  ownLineText : Option (Nat → Except LookupError Text)

namespace Document

def isEmpty (doc : Document) : Bool := doc.length == 0

/-- Where the text of `line` starts and how long it is: up to the next line, or for the last
line up to the end of the document. -/
def lineSpan (doc : Document) (line : Nat) : Except LookupError (Nat × Nat) := do
  let start ← doc.lineStart line
  let stop ← if line + 1 < doc.lineCount then doc.lineStart (line + 1) else pure doc.length
  return (start, stop - start)

/-- The text of `line` with its delimiter, put together from the other lookups. -/
def slicedLineText (doc : Document) (line : Nat) : Except LookupError Text := do
  let (start, count) ← doc.lineSpan line
  doc.slice start count

/-- The text of `line` with its delimiter. -/
def lineText (doc : Document) : Nat → Except LookupError Text :=
  doc.ownLineText.getD doc.slicedLineText

end Document

/-! ## Text documents -/

/-- A text document answers from one index of its line starts. -/
def VersionedText.toDocument (doc : VersionedText) : Document :=
  let text := doc.text
  let length := text.length
  let starts := lineStarts text
  let lineCount := starts.length
  { length
    slice := fun offset count =>
      if offset + count ≤ length then .ok (stretch text offset count)
      else .error (.outOfRange offset count length)
    lineOf := fun offset =>
      if offset ≤ length then .ok (lineAmong starts offset)
      else .error (.outOfRange offset 0 length)
    lineStart := fun line =>
      match starts[line]? with
      | some start => .ok start
      | none => .error (.lineOutOfRange line lineCount)
    lineCount
    delimiters := lineDelimiters
    ownLineText := some fun line =>
      match lineBetween text starts line with
      | some line => .ok line
      | none => .error (.lineOutOfRange line lineCount) }

/-! ## Documents with holes -/

/-- A text document that is not all there: slices that touch a hole fail, the starts of some
lines are lost, and it may report a length or delimiters other than its own. -/
structure PatchyDocument where
  inner : VersionedText
  /-- Each hole reaches from its first offset up to, and not including, its second. -/
  holes : List (Nat × Nat)
  lostLines : List Nat
  reportedLength : Option Nat
  reportedDelimiters : Option (List String)

namespace PatchyDocument

/-- A document without holes that reports what it has. -/
def ofText (text : Text) : PatchyDocument := ⟨.ofText text, [], [], none, none⟩

/-- Whether the stretch from `offset` shares a character with some hole. -/
def touchesHole (doc : PatchyDocument) (offset count : Nat) : Bool :=
  doc.holes.any fun (first, stop) => max offset first < min (offset + count) stop

/-- It has no line texts of its own, so they are sliced and holes show in them too. -/
def toDocument (doc : PatchyDocument) : Document :=
  let whole := doc.inner.toDocument
  let length := doc.reportedLength.getD whole.length
  { length
    slice := fun offset count =>
      if doc.touchesHole offset count then .error (.outOfRange offset count length)
      else whole.slice offset count
    lineOf := whole.lineOf
    lineStart := fun line =>
      if doc.lostLines.contains line then .error (.lineOutOfRange line whole.lineCount)
      else whole.lineStart line
    lineCount := whole.lineCount
    delimiters := doc.reportedDelimiters.getD whole.delimiters
    ownLineText := none }

end PatchyDocument

end RegionScan
