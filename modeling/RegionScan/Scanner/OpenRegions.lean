-- The regions that are open, and the end match that waits for one of them.
import RegionScan.Scanner.Basic

namespace RegionScan.Scanner

variable {ρ : Type}

/-- Opens a region inside all others. -/
def openRegion (scanner : Scanner ρ) (region : ρ) : Scanner ρ :=
  { scanner with openRegions := region :: scanner.openRegions }

/-- Closes the innermost region. -/
def closeRegion : Scan ρ ρ := do
  let scanner ← get
  match scanner.openRegions with
  | [] => Scan.fail .noOpenRegion
  | region :: openRegions =>
    set { scanner with openRegions }
    return region

/-- Parks an end match. Only one can wait at a time. -/
def park (parked : ParkedEnd ρ) : Scan ρ Unit := do
  if (← get).parked.isSome then Scan.fault .endAlreadyParked
  modify fun scanner => { scanner with parked := some parked }

def unpark (scanner : Scanner ρ) : Scanner ρ := { scanner with parked := none }

end RegionScan.Scanner
