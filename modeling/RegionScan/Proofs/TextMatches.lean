-- Matches of a pattern in a text. A match stays on the line it starts on, so
-- nothing that a pattern claims reaches over a break between lines.
import RegionScan.Pattern
import RegionScan.Proofs.Lines

namespace RegionScan.Pattern

/-! ## Matches in a text -/

/-- How many characters of a text the pattern matches right from an offset on. It sees the
whole line of the offset and nothing else of the text. -/
def lengthIn? (pattern : Pattern) (text : Text) (offset : Nat) : Option Nat :=
  pattern.matchLength? (lineAt text offset).chars (offset - (lineAt text offset).start)

/-- A match ends on the line it starts on. -/
theorem lengthIn?_le {pattern : Pattern} {text : Text} {offset n : Nat}
    (h : pattern.lengthIn? text offset = some n) (ho : offset ≤ text.length) :
    offset + n ≤ (lineAt text offset).start + (lineAt text offset).length := by
  have h1 := pattern.matchLength?_le h
  have h2 := lineAt_start_le text offset
  have h3 := le_lineAt_stop ho
  unfold Line.length at *
  omega

theorem lengthIn?_le_length {pattern : Pattern} {text : Text} {offset n : Nat}
    (h : pattern.lengthIn? text offset = some n) (ho : offset ≤ text.length) :
    offset + n ≤ text.length :=
  Nat.le_trans (lengthIn?_le h ho) (lineAt_stop_le text offset)

/-- A match that starts before a break ends before it or at it. -/
theorem lengthIn?_le_break {pattern : Pattern} {text : Text} {offset stop n : Nat}
    (h : pattern.lengthIn? text offset = some n) (hstop : LineBreak text stop)
    (hlt : offset < stop) : offset + n ≤ stop :=
  Nat.le_trans (lengthIn?_le h (by have := hstop.le; omega)) (hstop.stop_le hlt)

end RegionScan.Pattern
