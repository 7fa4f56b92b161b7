-- Patterns of the grammar: a text in the pattern dialect with the search for its matches.
import RegionScan.Pattern.Reader
import RegionScan.Pattern.Program

namespace RegionScan

/-- A pattern that has been understood. A scan relies on no more of its search than that a match
ends on the line it starts on. -/
structure Pattern where
  source : String
  /-- How many characters of a line match right from a position on. The line is given as a whole,
  so that looks see the text before the position. -/
  matchLength? : Array Char → Nat → Option Nat
  matchLength?_le {line : Array Char} {start n : Nat} :
    matchLength? line start = some n → n ≤ line.size - start

namespace Pattern

/-- The pattern for which a program searches. -/
def ofProgram (source : String) (program : Program) : Pattern where
  source := source
  matchLength? := program.matchLength?
  matchLength?_le := Program.matchLength?_le

/-- The pattern with that text, if it is one. -/
def read? (source : String) : Option Pattern := do
  let ast ← Ast.read? source
  let (regex, _) ← ast.meaning .atStart
  return .ofProgram source (← Program.ofRegex? regex)

end Pattern

end RegionScan
