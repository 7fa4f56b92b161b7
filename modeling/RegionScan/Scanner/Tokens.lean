-- Tokens: the one under way, and the queue of spans that were found ahead of
-- time and are handed out one by one.
import RegionScan.Scanner.Basic

namespace RegionScan.Scanner

variable {ρ : Type}

/-- Starts a token at the mark. -/
def startToken (scanner : Scanner ρ) : Scanner ρ :=
  { scanner with tokenStart := scanner.mark, column := none, token := none, currentSpan := none }

/-- Where the current token starts. -/
def tokenOffset (scanner : Scanner ρ) : Nat :=
  match scanner.currentSpan with
  | some span => span.offset
  | none => scanner.tokenStart

/-- How long the current token is. It reaches up to the mark, but not past the range. -/
def tokenLength (scanner : Scanner ρ) : Nat :=
  match scanner.currentSpan with
  | some span => span.length
  | none => min scanner.mark scanner.rangeEnd - scanner.tokenStart

def setToken (scanner : Scanner ρ) (token : Token) : Scanner ρ :=
  { scanner with token := some token }

/-- The current token; undefined as long as there is none. -/
def currentToken (scanner : Scanner ρ) : Token := scanner.token.getD .undefined

/-! ## The queue -/

/-- Puts a span at the end of the queue. -/
def enqueue (scanner : Scanner ρ) (span : Span) : Scanner ρ :=
  { scanner with queue := scanner.queue ++ [span] }

/-- Makes a span current. -/
def setCurrentSpan (scanner : Scanner ρ) (span : Span) : Scanner ρ :=
  { scanner with token := some span.token, currentSpan := some span }

/-- Takes the next span from the queue and tells whether there was one. -/
def dequeue (scanner : Scanner ρ) : Bool × Scanner ρ :=
  match scanner.queue with
  | span :: queue => (true, { scanner with queue }.setCurrentSpan span)
  | [] => (false, { scanner with token := none, currentSpan := none })

end RegionScan.Scanner
