-- Matching a pattern at the mark, and the spans that a match leaves behind.
import RegionScan.Grammar
import RegionScan.Scanner.Lines
import RegionScan.Scanner.Tokens
import RegionScan.Scanner.OpenRegions

namespace RegionScan

/-- The length of the pattern's match at the mark. The whole line of the mark is searched, so a
pattern sees the text before the mark; a match that ends past the range does not count. -/
def matchAtMark (pattern : Pattern) : RuleScan (Option Nat) := do
  let scanner ← get
  if scanner.rangeEnd < scanner.mark then return none
  let (place, after) := scanner.placeAt scanner.mark
  set after
  match place with
  | .error _ => return none
  | .ok place =>
    match pattern.matchLength? place.line.chars place.column with
    | none => return none
    | some length =>
      return if (← Scan.sum scanner.mark length) ≤ scanner.rangeEnd then some length else none

/-- As `matchAtMark`, for matches that claim some text. -/
def claimAtMark (pattern : Pattern) : RuleScan (Option Nat) := do
  return (← matchAtMark pattern).filter fun length => decide (0 < length)

/-- Queues a span, unless it is empty. -/
def report (token : Token) (offset length : Nat) : RuleScan Unit := do
  if 0 < length then modify (·.enqueue ⟨token, offset, length⟩)

/-- Moves the mark to `stop`, where a match ends. -/
def endMatchAt (stop : Nat) : RuleScan Unit :=
  modify fun scanner => { scanner.moveTo stop with lastMatch := stop }

/-! ## Ends of the open regions -/

/-- The first of some regions, from the innermost on, whose end matches at the mark. The search
stops at an embedded block. -/
def firstEnd : List Region → RuleScan (Option (Region × Nat))
  | [] => return none
  | region :: outer => do
    if region.embedded then return none
    match ← matchAtMark region.endPattern with
    | some length => return some (region, length)
    | none => firstEnd outer

/-- The end of a region around the innermost one. -/
def outerEnd : RuleScan (Option (Region × Nat)) := do
  firstEnd ((← get).openRegions.drop 1)

end RegionScan
