-- Trying rules at the mark. A rule that claims text moves the mark behind it
-- and queues spans for its parts; a region tries its own rules inside it, so
-- rules call each other.
import RegionScan.Matching
import RegionScan.Scanner.Reading
import RegionScan.Scanner.Ranges

namespace RegionScan

/-! ## Which rule comes first -/

/-- Whether a rule may claim the text at the mark. -/
def Grammar.mayStart (grammar : Grammar) : Rule → RuleScan Bool
  | .pattern pattern _ => do return (← claimAtMark pattern).isSome
  | .region id =>
    match grammar.regions[id]? with
    | some region => do return (← claimAtMark region.beginPattern).isSome
    | none => return false
  | .custom index =>
    match grammar.customs[index]? with
    | some custom => custom.mayStart
    | none => return false

/-- Reports the text between `pending` and `here` as content, where there is a region it could
be content of. It gives the place from which text is still pending. -/
def reportContent (content : Option Token) (pending here : Nat) : RuleScan Nat := do
  match content with
  | none => return pending
  | some token => do
    report token pending (← Scan.difference here pending)
    return here

/-- Tries rules at the mark, in order. A rule that claims nothing leaves the mark where it was.
Before a rule is tried that may claim text, the content up to the mark is reported. A claim
that queued nothing itself is queued as one span. -/
def tryRules (mayStart : Rule → RuleScan Bool) (attempt : Rule → RuleScan Token)
    (content : Option Token) (here : Nat) : List Rule → Nat → RuleScan (Option Token × Nat)
  | [], pending => return (none, pending)
  | rule :: rest, pending => do
    if !(← mayStart rule) then tryRules mayStart attempt content here rest pending
    else
      let pending ← reportContent content pending here
      let queued := (← get).queue.length
      let token ← attempt rule
      let scanner ← get
      if token.isUndefined || decide (scanner.mark ≤ here) then
        modify (·.moveTo here)
        tryRules mayStart attempt content here rest pending
      else
        if scanner.queue.length = queued then
          report token here (← Scan.difference scanner.mark here)
        return (some token, pending)

/-! ## Inside a region -/

/-- Closes the region if the end match that was parked is its own. Otherwise the match closes a
region further out as well, and stays. -/
def takeParked (region : Region) (waiting : ParkedEnd Region) : RuleScan Unit := do
  if waiting.region.id = region.id then
    modify Scanner.unpark
    if 0 < waiting.delimiter.length then modify (·.enqueue waiting.delimiter)
    endMatchAt waiting.stop

/-- Scans a region up to its end, up to the end of a region around it, or to the end of the
range. `pending` is where its unreported content starts. Each turn claims some text or is the
last one. -/
def scanRegion (grammar : Grammar) (attempt : Rule → RuleScan Token) (region : Region) :
    Nat → Nat → RuleScan Unit
  | 0, _ => Scan.fault .runaway
  | turns + 1, pending => do
    let here := (← get).mark
    match ← matchAtMark region.endPattern with
    | some length =>
      let _ ← reportContent (some region.contentToken) pending here
      report region.endToken here length
      endMatchAt (← Scan.sum here length)
    | none =>
      match ← outerEnd with
      | some (outer, length) =>
        let _ ← reportContent (some region.contentToken) pending here
        let stop ← Scan.sum here length
        Scanner.park ⟨here, stop, outer, ⟨outer.endToken, here, length⟩⟩
      | none =>
        let (claimed, pending) ←
          tryRules grammar.mayStart attempt (some region.contentToken) here region.rules pending
        if claimed.isSome then
          match (← get).parked with
          | some waiting => takeParked region waiting
          | none => scanRegion grammar attempt region turns (← get).mark
        else
          match ← Scanner.read with
          | some _ => scanRegion grammar attempt region turns pending
          | none =>
            modify Scanner.stepBack
            let _ ← reportContent (some region.contentToken) pending (← get).mark

/-! ## Embedded blocks -/

/-- Where the end of a block starts, at the mark or behind it, and how long it is. A block
without one ends with the range. -/
def findBlockEnd (region : Region) : Nat → RuleScan (Nat × Nat)
  | 0 => Scan.fault .runaway
  | turns + 1 => do
    let here := (← get).mark
    match ← matchAtMark region.endPattern with
    | some length => return (here, length)
    | none =>
      match ← Scanner.read with
      | some _ => findBlockEnd region turns
      | none =>
        modify Scanner.stepBack
        return ((← get).mark, 0)

/-- Scans the inside of a block to the end of its range. -/
def scanBlock (grammar : Grammar) (attempt : Rule → RuleScan Token) (region : Region) :
    Nat → Nat → RuleScan Unit
  | 0, _ => Scan.fault .runaway
  | turns + 1, pending => do
    let here := (← get).mark
    let (claimed, pending) ←
      tryRules grammar.mayStart attempt (some region.contentToken) here region.rules pending
    if claimed.isSome then scanBlock grammar attempt region turns (← get).mark
    else
      match ← Scanner.read with
      | some _ => scanBlock grammar attempt region turns pending
      | none =>
        modify Scanner.stepBack
        let _ ← reportContent (some region.contentToken) pending (← get).mark

/-! ## Trying one rule -/

/-- How many turns each scan of a region or of a block is given, by the state it starts in. -/
abbrev Turns := Scanner Region → Nat

/-- The turns that a scan can take. Each one that goes on raises the mark, which no offset can
pass; a rule of the host may raise it behind the end of the range. -/
def turnsLeft (scanner : Scanner Region) : Nat := max scanner.rangeEnd maxOffset - scanner.mark + 1

/-- Enters a region that starts at the mark. -/
def attemptRegion (grammar : Grammar) (turns : Turns) (attempt : Rule → RuleScan Token)
    (region : Region) : RuleScan Token := do
  let start := (← get).mark
  match ← claimAtMark region.beginPattern with
  | none => return .undefined
  | some length =>
    report region.beginToken start length
    let contentStart ← Scan.sum start length
    endMatchAt contentStart
    modify (·.openRegion region)
    let scanned ← Scan.outcome
      (do scanRegion grammar attempt region (turns (← get)) contentStart)
    let popped ← Scanner.closeRegion
    if popped.id ≠ region.id then Scan.fault .wrongRegionClosed
    Scan.rethrow scanned
    return region.beginToken

/-- Enters an embedded block that starts at the mark. While its inside is scanned, the range
that comes back afterwards starts behind the end of the block. -/
def attemptBlock (grammar : Grammar) (turns : Turns) (attempt : Rule → RuleScan Token)
    (region : Region) : RuleScan Token := do
  let start := (← get).mark
  match ← claimAtMark region.beginPattern with
  | none => return .undefined
  | some length =>
    let contentStart ← Scan.sum start length
    modify (·.moveTo contentStart)
    let (contentEnd, endLength) ← findBlockEnd region (turns (← get))
    let resume ← Scan.sum contentEnd endLength
    report region.beginToken start length
    modify (·.moveTo resume)
    Scanner.enterRange contentStart (← Scan.difference contentEnd contentStart)
    modify (·.openRegion region)
    let scanned ← Scan.outcome
      (do scanBlock grammar attempt region (turns (← get)) contentStart)
    let _ ← Scanner.closeRegion
    Scanner.leaveRange
    Scan.rethrow scanned
    report region.endToken contentEnd endLength
    modify fun scanner => { scanner with lastMatch := resume }
    return region.beginToken

/-- Tries one rule at the mark, with regions nested up to `depth`. -/
def Grammar.attemptWithin (grammar : Grammar) (turns : Turns) : Nat → Rule → RuleScan Token
  | 0, _ => Scan.fault .runaway
  | depth + 1, rule =>
    match rule with
    | .pattern pattern token => do
      match ← claimAtMark pattern with
      | none => return .undefined
      | some length =>
        endMatchAt (← Scan.sum (← get).mark length)
        return token
    | .region id =>
      match grammar.regions[id]? with
      | none => return .undefined
      | some region =>
        if region.embedded then
          attemptBlock grammar turns (grammar.attemptWithin turns depth) region
        else attemptRegion grammar turns (grammar.attemptWithin turns depth) region
    | .custom index =>
      match grammar.customs[index]? with
      | none => return .undefined
      | some custom => custom.attempt

/-- Tries one rule at the mark. Each region claims at least one character before the regions
inside it, so they nest no deeper than turns are left. -/
def Grammar.attempt (grammar : Grammar) (rule : Rule) : RuleScan Token := do
  grammar.attemptWithin turnsLeft (turnsLeft (← get)) rule

end RegionScan
