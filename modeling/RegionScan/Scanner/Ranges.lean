-- Setting the range of a scan, and scanning another range in between.
import RegionScan.Scanner.Basic
import RegionScan.Settings

namespace RegionScan

namespace Scanner

variable {ρ : Type}

/-! ## Fresh scanners -/

/-- A scanner that has not been given a range yet. -/
def fresh (document : Document) (settings : Settings) : Scanner ρ where
  document
  delimiters := document.delimiters
  window := .unfilled settings.capacity settings.capacity_pos
  place := none
  mark := 0
  rangeEnd := 0
  tokenStart := 0
  column := none
  lastColumn := 0
  lastMatch := 0
  contentType := none
  partitionStart := none
  frames := []
  token := none
  queue := []
  currentSpan := none
  openRegions := []
  parked := none
  continuing := false
  tally := ⟨0, 0⟩

/-! ## Setting the range -/

/-- The end of a range, if the document reaches that far. -/
def rangeEndIn (document : Document) (offset length : Nat) : Except ScanError Nat :=
  if offset + length ≤ document.length then .ok (offset + length)
  else .error (.invalidRange offset length document.length)

/-- Scans the `length` characters of `document` from `offset`. What the scan has found so far
stays queued, and the regions it has opened stay open. -/
def assign (document : Document) (offset length : Nat) : Trial ρ Unit := do
  match rangeEndIn document offset length with
  | .error error => throw error
  | .ok rangeEnd =>
    modify fun scanner =>
      { ({ scanner with document, place := none } : Scanner ρ).refill offset with
        mark := offset
        tokenStart := offset
        column := none
        rangeEnd
        delimiters := document.delimiters }

/-- Scans a range that starts inside a partition. If the partition starts before the range, the
window is filled from there, so that the text before the range is at hand. -/
def assignPart (document : Document) (offset length : Nat) (contentType : Option String)
    (partitionStart : Option Nat) : Trial ρ Unit := do
  match partitionStart with
  | some start =>
    if start < offset then
      if length + (offset - start) ≤ maxOffset then
        assign document start (length + (offset - start))
        modify fun scanner => { scanner with mark := offset, tokenStart := offset }
      else throw (.invalidRange offset length document.length)
    else assign document offset length
  | none => assign document offset length
  modify fun scanner => { scanner with contentType, partitionStart }

/-! ## Ranges in between -/

/-- The active range. -/
def frame (scanner : Scanner ρ) : Frame :=
  ⟨scanner.mark, scanner.rangeEnd, scanner.lastMatch⟩

/-- Scans another range of the same document until `leaveRange`. -/
def enterRange (offset length : Nat) : Scan ρ Unit := do
  let scanner ← get
  match rangeEndIn scanner.document offset length with
  | .error error => Scan.fail error
  | .ok rangeEnd =>
    set ({ scanner with
      frames := scanner.frame :: scanner.frames
      rangeEnd }.moveTo offset)

/-- Comes back to the range that was active before. -/
def leaveRange : Scan ρ Unit := do
  let scanner ← get
  match scanner.frames with
  | [] => Scan.fail .noSavedRange
  | saved :: frames =>
    set ({ scanner with
      frames
      rangeEnd := saved.rangeEnd
      lastMatch := saved.lastMatch }.moveTo saved.offset)

end Scanner

end RegionScan
