-- What a scan says about a stretch of text: tokens, and spans that carry one.
import RegionScan.Text

namespace RegionScan

/-- The class of a stretch of text. -/
inductive Token where
  /-- No rule has claimed the text. -/
  | undefined
  /-- The scan range is used up. -/
  | eof
  | whitespace
  /-- A content type, such as `string.quoted`. -/
  | other (tag : String)
  deriving DecidableEq, Repr, Inhabited

namespace Token

def isUndefined : Token → Bool
  | undefined => true
  | _ => false

def isEof : Token → Bool
  | eof => true
  | _ => false

def isWhitespace : Token → Bool
  | whitespace => true
  | _ => false

/-- The content type, for the tokens that have one. -/
def tag? : Token → Option String
  | other tag => some tag
  | _ => none

end Token

/-- A token and the stretch of text it covers. -/
structure Span where
  token : Token
  offset : Nat
  length : Nat
  deriving DecidableEq, Repr

namespace Span

/-- The offset just past the span, if it is an offset at all. -/
def stop? (span : Span) : Option Nat :=
  if span.offset + span.length ≤ maxOffset then some (span.offset + span.length) else none

end Span

end RegionScan
