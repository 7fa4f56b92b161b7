-- Reading single characters, stepping back, columns, and longer texts.
import RegionScan.Scanner.Basic

namespace RegionScan.Scanner

variable {ρ : Type}

/-! ## Characters -/

/-- Reads the character at the mark and moves past it. At the end of the range, and where the
document cannot serve the character, there is none; the mark moves all the same, so that every
read can be taken back. -/
def read : Scan ρ (Option Char) := do
  let scanner ← get
  if maxOffset ≤ scanner.mark then Scan.fault .offsetOverflow
  else if scanner.rangeEnd ≤ scanner.mark then
    set { scanner with mark := scanner.mark + 1, column := none }
    return none
  else
    let offset := scanner.mark
    let scanner := if scanner.window.contains offset then scanner else scanner.refill offset
    set { scanner with mark := offset + 1, column := none }
    return scanner.window.get? offset

/-- Steps back one character, but never before the start of the document. -/
def stepBack (scanner : Scanner ρ) : Scanner ρ :=
  let scanner :=
    if scanner.mark = scanner.window.start ∧ 0 < scanner.window.start then scanner.recenter
    else scanner
  { scanner with mark := scanner.mark - 1, column := none }

/-! ## Columns -/

/-- The column of the mark in its line. It is worked out once and kept until the mark moves.
If the document cannot tell, the column that was worked out last is given again. -/
def columnOfMark (scanner : Scanner ρ) : Nat × Scanner ρ :=
  match scanner.column with
  | some column => (column, scanner)
  | none =>
    let (line, scanner) := scanner.lineOf scanner.mark
    match line.bind scanner.document.lineStart with
    | .ok start =>
      let column := scanner.mark - start
      (column, { scanner with column := some column, lastColumn := column })
    | .error _ => (scanner.lastColumn, scanner)

/-! ## Texts -/

/-- Reads up to `count` characters, until there is none. -/
def readUpTo : Nat → Scan ρ Text
  | 0 => return []
  | count + 1 => do
    match ← read with
    | some c => return c :: (← readUpTo count)
    | none => return []

/-- The `count` characters from `offset`, up to the end of the range. The mark comes back
afterwards. -/
def excerpt (offset count : Nat) : Scan ρ Text := do
  let mark := (← get).mark
  modify (·.moveTo offset)
  let text ← readUpTo count
  modify (·.moveTo mark)
  return text

/-- The text from `offset` to the end of the document; empty where the document has none. -/
def textToEnd (scanner : Scanner ρ) (offset : Nat) : Text × Scanner ρ :=
  match scanner.slice offset (scanner.document.length - offset) with
  | (.ok text, scanner) => (text, scanner)
  | (.error _, scanner) => ([], scanner)

end RegionScan.Scanner
