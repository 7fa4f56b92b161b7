-- Lines as the rules see them: whole lines with a place in them.
import RegionScan.Scanner.Basic

namespace RegionScan.Scanner

variable {ρ : Type}

/-- The line with a number. -/
def lineNumbered (scanner : Scanner ρ) (number : Nat) : Except LookupError Line × Scanner ρ :=
  match scanner.document.lineStart number with
  | .error reason => (.error reason, scanner)
  | .ok start =>
    let (text, scanner) := scanner.lineText number
    (text.map fun text => ⟨text.toArray, number, start⟩, scanner)

/-- The line that holds an offset. -/
def lineHolding (scanner : Scanner ρ) (offset : Nat) : Except LookupError Line × Scanner ρ :=
  match scanner.lineOf offset with
  | (.ok number, scanner) => scanner.lineNumbered number
  | (.error reason, scanner) => (.error reason, scanner)

/-- A cursor somewhere on the line that holds `offset`: the one used last, or a new one. -/
def placeNear (scanner : Scanner ρ) (offset : Nat) : Except LookupError LinePlace × Scanner ρ :=
  match scanner.place.filter (·.line.serves offset) with
  | some place => (.ok place, scanner)
  | none =>
    match scanner.lineHolding offset with
    | (.ok line, scanner) =>
      (.ok (.atStart line), { scanner with place := some (.atStart line) })
    | (.error reason, scanner) => (.error reason, scanner)

/-- The place of an offset in its line. The line is kept, so that places on it are found by
stepping from the place before. -/
def placeAt (scanner : Scanner ρ) (offset : Nat) : Except LookupError LinePlace × Scanner ρ :=
  match scanner.placeNear offset with
  | (.error reason, scanner) => (.error reason, scanner)
  | (.ok place, scanner) =>
    match place.at? offset with
    | some place => (.ok place, { scanner with place := some place })
    | none => (.error (.outOfRange offset 0 scanner.document.length), scanner)

end RegionScan.Scanner
