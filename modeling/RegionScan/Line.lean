-- Lines in UTF-8, and a cursor that finds the byte of a character in one.
import RegionScan.Text

namespace RegionScan

/-! ## UTF-8 -/

/-- The bytes of a text. -/
def utf8 (text : Text) : List UInt8 := text.flatMap String.utf8EncodeChar

/-- Whether a byte opens a character. The bytes inside one have the form `10xxxxxx`. -/
def opensChar (byte : UInt8) : Bool := byte &&& 0xC0 != 0x80

/-- The number of characters that some bytes encode. -/
def charCount (bytes : List UInt8) : Nat := bytes.countP opensChar

/-! ## Lines -/

/-- A line of a document: its characters with the delimiter, its number, and the offset at
which it starts. -/
structure Line where
  chars : Array Char
  number : Nat
  start : Nat
  deriving DecidableEq, Repr

namespace Line

def length (line : Line) : Nat := line.chars.size

def bytes (line : Line) : List UInt8 := utf8 line.chars.toList

/-- Whether a lookup of `offset` can use this line. The offset right behind the line belongs
to it only if no delimiter closes it. -/
def serves (line : Line) (offset : Nat) : Bool :=
  decide (line.start ≤ offset) &&
    (decide (offset - line.start < line.length) ||
      (offset - line.start == line.length && line.chars.back?.all fun c => c != '\n' && c != '\r'))

end Line

/-! ## Cursors -/

/-- A place between two characters of a line: how many characters and how many bytes of the
line come before it. -/
structure LinePlace where
  line : Line
  column : Nat
  byte : Nat
  deriving DecidableEq, Repr

namespace LinePlace

/-- The place at the start of a line. -/
def atStart (line : Line) : LinePlace := ⟨line, 0, 0⟩

/-- Steps over the next character, if there is one. -/
def stepForward (place : LinePlace) : LinePlace :=
  match place.line.chars[place.column]? with
  | some c => { place with column := place.column + 1, byte := place.byte + c.utf8Size }
  | none => place

/-- Steps back over the character before, if there is one. -/
def stepBack (place : LinePlace) : LinePlace :=
  match place.column with
  | 0 => place
  | column + 1 =>
    match place.line.chars[column]? with
    | some c => { place with column, byte := place.byte - c.utf8Size }
    | none => place

def forward : Nat → LinePlace → LinePlace
  | 0, place => place
  | steps + 1, place => forward steps place.stepForward

def back : Nat → LinePlace → LinePlace
  | 0, place => place
  | steps + 1, place => back steps place.stepBack

/-- Moves to a column by steps from where it is. -/
def moveTo (place : LinePlace) (column : Nat) : LinePlace :=
  if place.column ≤ column then forward (column - place.column) place
  else back (place.column - column) place

/-- Moves to an offset. Without it the cursor stays where it is: the offset is before the line
or more than its length behind its start. -/
def at? (place : LinePlace) (offset : Nat) : Option LinePlace :=
  if place.line.start ≤ offset && offset - place.line.start ≤ place.line.length then
    some (place.moveTo (offset - place.line.start))
  else none

end LinePlace

end RegionScan
