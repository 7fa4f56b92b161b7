-- Text as a list of characters, and where its lines start. A line ends after
-- a carriage return with its line feed, after a line feed alone, or after a
-- carriage return alone, and at nothing else.

namespace RegionScan

/-- A piece of text. Offsets into it and lengths of it count characters. -/
abbrev Text := List Char

/-- The largest offset there is: offsets are 64-bit numbers. -/
def maxOffset : Nat := 0xFFFFFFFFFFFFFFFF

/-- The `length` characters from `offset`, or as many of them as the text has. -/
def stretch (text : Text) (offset length : Nat) : Text := (text.drop offset).take length

/-! ## Line ends -/

/-- Every sequence that ends a line, longest first. -/
def lineDelimiters : List String := ["\r\n", "\n", "\r"]

/-- Whether a line ends after `c` when `next` follows. A carriage return waits for its
line feed, so the pair ends one line and not two. -/
def endsLine (c : Char) (next : Option Char) : Bool :=
  c == '\n' || (c == '\r' && next != some '\n')

/-- Where lines start after the first one, in text whose own first character has the
offset `here`. -/
def laterStarts (here : Nat) : Text → List Nat
  | [] => []
  | c :: rest =>
    if endsLine c rest.head? then (here + 1) :: laterStarts (here + 1) rest
    else laterStarts (here + 1) rest

/-- Where each line starts. There is always a first line, and text that closes with a
delimiter has an empty last line. -/
def lineStarts (text : Text) : List Nat := 0 :: laterStarts 0 text

/-! ## Reading an index of line starts -/

/-- The line that holds `offset`: the last one that starts at or before it. -/
def lineAmong (starts : List Nat) (offset : Nat) : Nat :=
  (starts.takeWhile (· ≤ offset)).length - 1

/-- The text of a line with its delimiter, up to the next start or the end of the text. -/
def lineBetween (text : Text) (starts : List Nat) (line : Nat) : Option Text :=
  starts[line]?.map fun start =>
    match starts[line + 1]? with
    | some next => stretch text start (next - start)
    | none => text.drop start

end RegionScan
