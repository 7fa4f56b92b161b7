-- The state of a scan over a range of a document, and the steps everything else
-- is made of: looking something up in the document and filling the window.
import RegionScan.Token
import RegionScan.Line
import RegionScan.Window

namespace RegionScan

/-! ## Parts of the state -/

/-- The active range, as it is saved while another one is scanned. -/
structure Frame where
  /-- The offset of the next character to read. -/
  offset : Nat
  /-- The offset just past the range. -/
  rangeEnd : Nat
  /-- Where the last match ended. -/
  lastMatch : Nat
  deriving DecidableEq, Repr

/-- The end of an open region, found while a region inside it was scanned. It waits until
the regions inside have been left. -/
structure ParkedEnd (ρ : Type) where
  start : Nat
  stop : Nat
  region : ρ
  /-- What the delimiter is reported as. -/
  delimiter : Span
  deriving DecidableEq, Repr

/-- How often a scan has asked its document for a slice and for the line of an offset. -/
structure Tally where
  slices : Nat
  lineLookups : Nat
  deriving DecidableEq, Repr

/-! ## Scanners -/

/-- A scan over a range of a document. Regions of the type `ρ` can be open in it. -/
structure Scanner (ρ : Type) where
  document : Document
  /-- The line delimiters of the document when its range was set. -/
  delimiters : List String
  window : Window
  /-- The line looked at last, with a place in it. -/
  place : Option LinePlace
  /-- The offset of the next character to read. -/
  mark : Nat
  /-- The offset just past the active range. -/
  rangeEnd : Nat
  /-- Where the token under way starts. -/
  tokenStart : Nat
  /-- The column of the mark, where it has been worked out. -/
  column : Option Nat
  /-- The column that was worked out last. -/
  lastColumn : Nat
  lastMatch : Nat
  contentType : Option String
  partitionStart : Option Nat
  /-- Ranges that come back later, the next one first. -/
  frames : List Frame
  token : Option Token
  /-- Spans found ahead of time, the next one first. -/
  queue : List Span
  currentSpan : Option Span
  /-- The open regions, the innermost first. -/
  openRegions : List ρ
  parked : Option (ParkedEnd ρ)
  continuing : Bool
  tally : Tally

/-- A step of a scan. It may stop short, and keeps what it has changed by then. -/
abbrev Scan (ρ : Type) := EStateM Halt (Scanner ρ)

/-- A step that may be refused, but meets no fault. -/
abbrev Trial (ρ : Type) := EStateM ScanError (Scanner ρ)

namespace Scan

variable {ρ α : Type}

/-- Refuses to go on. -/
def fail (error : ScanError) : Scan ρ α := throw (.failed error)

def fault (fault : Fault) : Scan ρ α := throw (.faulted fault)

/-- A trial as a step of a scan. -/
def ofTrial (trial : Trial ρ α) : Scan ρ α := fun scanner =>
  match trial scanner with
  | .ok value scanner => .ok value scanner
  | .error error scanner => .error (.failed error) scanner

/-- The outcome of a step, with an error as a value. A fault still ends the scan. -/
def outcome (step : Scan ρ α) : Scan ρ (Except ScanError α) := fun scanner =>
  match step scanner with
  | .ok value scanner => .ok (.ok value) scanner
  | .error (.failed error) scanner => .ok (.error error) scanner
  | .error (.faulted fault) scanner => .error (.faulted fault) scanner

/-- Passes an error on. -/
def rethrow : Except ScanError α → Scan ρ α
  | .ok value => pure value
  | .error error => fail error

/-- The offset `length` behind `offset`, which must be an offset too. -/
def sum (offset length : Nat) : Scan ρ Nat :=
  if offset + length ≤ maxOffset then pure (offset + length) else fault .offsetOverflow

/-- How far `stop` is behind `start`, which it must not come before. -/
def difference (stop start : Nat) : Scan ρ Nat :=
  if start ≤ stop then pure (stop - start) else fault .negativeLength

end Scan

namespace Scanner

variable {ρ : Type}

/-! ## Looking things up -/

/-- Asks the document for a slice. -/
def slice (scanner : Scanner ρ) (offset count : Nat) : Except LookupError Text × Scanner ρ :=
  (scanner.document.slice offset count,
    { scanner with tally.slices := scanner.tally.slices + 1 })

/-- Asks the document for the line of an offset. -/
def lineOf (scanner : Scanner ρ) (offset : Nat) : Except LookupError Nat × Scanner ρ :=
  (scanner.document.lineOf offset,
    { scanner with tally.lineLookups := scanner.tally.lineLookups + 1 })

/-- Asks the document for the text of a line; a document that has none of its own is asked for
a slice. -/
def lineText (scanner : Scanner ρ) (line : Nat) : Except LookupError Text × Scanner ρ :=
  match scanner.document.ownLineText with
  | some own => (own line, scanner)
  | none =>
    match scanner.document.lineSpan line with
    | .ok (start, count) => scanner.slice start count
    | .error reason => (.error reason, scanner)

/-! ## Filling the window -/

/-- Moves the window to `offset`. If the document cannot serve the characters there, the
window stays as it was. -/
def refill (scanner : Scanner ρ) (offset : Nat) : Scanner ρ :=
  match scanner.window.reach? scanner.document.length offset with
  | none => scanner
  | some count =>
    match scanner.slice offset count with
    | (.ok text, scanner) => { scanner with window := scanner.window.showing offset text }
    | (.error _, scanner) => scanner

/-- Moves the window so that its start comes to lie in its middle, as far as the document
reaches back. -/
def recenter (scanner : Scanner ρ) : Scanner ρ :=
  scanner.refill (scanner.window.start - scanner.window.capacity / 2)

/-! ## Moving -/

/-- Moves the mark. The window follows when the mark comes to one of its edges or leaves it. -/
def moveTo (scanner : Scanner ρ) (offset : Nat) : Scanner ρ :=
  let scanner := { scanner with mark := offset, column := none }
  let window := scanner.window
  if offset = window.start then
    if 0 < window.start then scanner.recenter else scanner
  else if offset = window.stop then scanner.refill window.stop
  else if offset < window.start ∨ window.stop < offset then scanner.refill offset
  else scanner

end Scanner

end RegionScan
