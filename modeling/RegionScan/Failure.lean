-- Everything that can go wrong: lookups a document refuses, errors a scan
-- hands to its caller, and faults, which end a scan for good.

namespace RegionScan

/-! ## Lookups -/

/-- Why a document could not answer a lookup. -/
inductive LookupError where
  /-- A stretch or an offset is outside the document; an offset has the length 0. -/
  | outOfRange (offset length documentLength : Nat)
  | lineOutOfRange (line lineCount : Nat)
  deriving DecidableEq, Repr

def LookupError.message : LookupError → String
  | outOfRange offset length documentLength =>
    s!"range {offset}..{offset}+{length} is outside the document (length {documentLength})"
  | lineOutOfRange line lineCount => s!"line {line} is outside the document ({lineCount} lines)"

/-! ## Errors -/

/-- Why an operation of a scan was refused. -/
inductive ScanError where
  | lookup (reason : LookupError)
  /-- A window must have room for at least one character. -/
  | emptyWindow
  | invalidRange (offset length documentLength : Nat)
  /-- No range is saved that could come back. -/
  | noSavedRange
  /-- No region is open that could be closed. -/
  | noOpenRegion
  /-- A character inside the scan range could not be read. -/
  | unreadable (offset : Nat)
  | invalidPattern
  /-- A grammar uses a name without a rule behind it. -/
  | unknownRule (name : String)
  /-- A text of settings that cannot be understood. -/
  | malformedSettings
  deriving DecidableEq, Repr

def ScanError.message : ScanError → String
  | lookup reason => reason.message
  | emptyWindow => "invalid configuration: buffer_capacity must be positive"
  | invalidRange offset length documentLength =>
    s!"invalid scan range: offset {offset} + length {length} exceeds document length {documentLength}"
  | noSavedRange => "pop_range called without a matching push_range"
  | noOpenRegion => "pop_begin_end_rule called on an empty begin/end rule stack"
  | unreadable offset => s!"document cannot serve offset {offset} inside the scan range"
  | invalidPattern => "invalid rule pattern: error parsing pattern 0"
  | unknownRule name => s!"no rule is named {name}"
  | malformedSettings => "malformed configuration"

/-! ## Faults -/

/-- A step that must never be taken. A scan that meets one cannot go on. -/
inductive Fault where
  /-- An offset would pass the largest one. -/
  | offsetOverflow
  /-- A stretch would end before it starts. -/
  | negativeLength
  /-- A second end match was parked while one was still waiting. -/
  | endAlreadyParked
  /-- A rule closed another region than the one it had opened. -/
  | wrongRegionClosed
  /-- A rule kept going after the last character it could have claimed. -/
  | runaway
  deriving DecidableEq, Repr

/-- Why a scan stopped short. -/
inductive Halt where
  | failed (error : ScanError)
  | faulted (fault : Fault)
  deriving DecidableEq, Repr

end RegionScan
