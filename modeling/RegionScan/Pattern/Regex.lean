-- The meaning of a pattern: regular expressions over characters, with looks at
-- the text around a position.
import RegionScan.Pattern.Syntax
import RegionScan.Pattern.Alphabet
import RegionScan.Pattern.CaseFolding

namespace RegionScan.Pattern

/-! ## Looks -/

/-- Where in a word a position has to be. -/
inductive WordLook where
  | edge
  | notEdge
  | start
  | stop
  | startHalf
  | stopHalf
  deriving DecidableEq, Repr

/-- A demand on the characters right before and right after a position. -/
inductive Look where
  | textStart
  | textEnd
  | lineStart
  | lineEnd
  /-- As `lineStart`, with a carriage return ending a line too. -/
  | crlfLineStart
  | crlfLineEnd
  | word (place : WordLook) (unicode : Bool)
  deriving DecidableEq, Repr

/-- Whether the position between `before` and `after` meets the demand; at an end of the text
there is no character. -/
def Look.holds (look : Look) (before after : Option Char) : Bool :=
  match look with
  | textStart => before.isNone
  | textEnd => after.isNone
  | lineStart => before.all (· == '\n')
  | lineEnd => after.all (· == '\n')
  | crlfLineStart => before.all fun c => c == '\n' || (c == '\r' && after != some '\n')
  | crlfLineEnd => after.all fun c => c == '\r' || (c == '\n' && before != some '\r')
  | word place unicode =>
    let words := if unicode then wordCharacters else asciiWordCharacters
    let inBefore := before.any words.contains
    let inAfter := after.any words.contains
    match place with
    | .edge => inBefore != inAfter
    | .notEdge => inBefore == inAfter
    | .start => !inBefore && inAfter
    | .stop => inBefore && !inAfter
    | .startHalf => !inBefore
    | .stopHalf => !inAfter

/-! ## Expressions -/

inductive Regex where
  | empty
  /-- One character of a set. -/
  | one (set : CharSet)
  | look (look : Look)
  | seq (first second : Regex)
  /-- Either of the two; the first is preferred. -/
  | alt (first second : Regex)
  | repeat (least : Nat) (most : Option Nat) (greedy : Bool) (item : Regex)

namespace Regex

def concat : List Regex → Regex
  | [] => empty
  | [item] => item
  | item :: rest => seq item (concat rest)

def choose : List Regex → Regex
  | [] => one .empty
  | [branch] => branch
  | branch :: rest => alt branch (choose rest)

end Regex

/-! ## Flags in force -/

structure Flags where
  ignoreCase : Bool
  multiLine : Bool
  dotAll : Bool
  swapGreed : Bool
  unicode : Bool
  crlf : Bool

namespace Flags

/-- The flags at the head of a pattern. -/
def atStart : Flags := ⟨false, false, false, false, true, false⟩

def changed (flags : Flags) (change : FlagChange) : Flags :=
  { ignoreCase := change.apply .ignoreCase flags.ignoreCase
    multiLine := change.apply .multiLine flags.multiLine
    dotAll := change.apply .dotAll flags.dotAll
    swapGreed := change.apply .swapGreed flags.swapGreed
    unicode := change.apply .unicode flags.unicode
    crlf := change.apply .crlf flags.crlf }

end Flags

/-! ## Classes -/

/-- Refuses a set that would hold bytes which are no characters of their own: outside Unicode
a class ranges over bytes, and those from 0x80 on are only parts of characters. -/
def bytesOnly (flags : Flags) (set : CharSet) : Option CharSet :=
  if flags.unicode || set.isAscii then some set else none

/-- Every member of `set`, or with `negated` everything else. -/
def negatedIf (negated : Bool) (set : CharSet) : CharSet :=
  if negated then set.complement else set

def folded (flags : Flags) (set : CharSet) : CharSet :=
  if !flags.ignoreCase then set
  else if flags.unicode then set.foldCase
  else set.foldAsciiCase

/-- Case is folded before a class is negated, so that what is left out is left out in every
case. -/
def foldedAndNegated (flags : Flags) (negated : Bool) (set : CharSet) : Option CharSet :=
  bytesOnly flags (negatedIf negated (folded flags set))

def LetterClass.set (flags : Flags) : LetterClass → CharSet
  | digit => if flags.unicode then decimalDigits else asciiDigits
  | space => if flags.unicode then whitespace else asciiWhitespace
  | word => if flags.unicode then wordCharacters else asciiWordCharacters

def NamedClass.set : NamedClass → CharSet
  | alnum => ⟨[(0x30, 0x39), (0x41, 0x5A), (0x61, 0x7A)]⟩
  | alpha => ⟨[(0x41, 0x5A), (0x61, 0x7A)]⟩
  | ascii => ⟨[(0x00, 0x7F)]⟩
  | blank => ⟨[(0x09, 0x09), (0x20, 0x20)]⟩
  | cntrl => ⟨[(0x00, 0x1F), (0x7F, 0x7F)]⟩
  | digit => asciiDigits
  | graph => ⟨[(0x21, 0x7E)]⟩
  | lower => ⟨[(0x61, 0x7A)]⟩
  | print => ⟨[(0x20, 0x7E)]⟩
  | punct => ⟨[(0x21, 0x2F), (0x3A, 0x40), (0x5B, 0x60), (0x7B, 0x7E)]⟩
  | space => asciiWhitespace
  | upper => ⟨[(0x41, 0x5A)]⟩
  | word => asciiWordCharacters
  | xdigit => ⟨[(0x30, 0x39), (0x41, 0x46), (0x61, 0x66)]⟩

/-- A character written out in a class. -/
def Literal.inClass (flags : Flags) (item : Literal) : Option Nat :=
  if flags.unicode || item.char.toNat < 0x80 then some item.char.toNat else none

def propertySet (flags : Flags) (name : String) (negated : Bool) : Option CharSet := do
  guard flags.unicode
  foldedAndNegated flags negated (← propertyNamed? name)

def SetOperator.apply : SetOperator → CharSet → CharSet → CharSet
  | intersection => CharSet.inter
  | difference => CharSet.diff
  | symmetricDifference => CharSet.symmDiff

mutual
/-- The characters of what stands between brackets. -/
def ClassSet.meaning (flags : Flags) : ClassSet → Option CharSet
  | .literal item => do
    let code ← item.inClass flags
    return ⟨[(code, code)]⟩
  | .range first last => do return ⟨[(← first.inClass flags, ← last.inClass flags)]⟩
  | .named kind negated => foldedAndNegated flags negated kind.set
  | .letter kind negated => bytesOnly flags (negatedIf negated (kind.set flags))
  | .property name negated => propertySet flags name negated
  | .bracket negated set => do foldedAndNegated flags negated (← set.meaning flags)
  | .union items => do return .ofRanges (← ClassSet.meanings flags items)
  | .combine operator left right => do
    let left := folded flags (← left.meaning flags)
    let right := folded flags (← right.meaning flags)
    return operator.apply left right

/-- The ranges of all items. -/
def ClassSet.meanings (flags : Flags) : List ClassSet → Option (List (Nat × Nat))
  | [] => some []
  | item :: rest => do return (← item.meaning flags).ranges ++ (← ClassSet.meanings flags rest)
end

/-! ## Patterns -/

/-- A character written out. Where case does not matter it stands for all its forms. -/
def Literal.meaning (flags : Flags) (item : Literal) : Option Regex := do
  guard (flags.unicode || !item.asByte || item.char.toNat < 0x80)
  return .one (folded flags (.single item.char))

/-- The dot leaves line feeds out, and with `crlf` carriage returns too. -/
def dotSet (flags : Flags) : CharSet :=
  if flags.dotAll then .all
  else if flags.crlf then (CharSet.ofRanges [(0x0A, 0x0A), (0x0D, 0x0D)]).complement
  else (CharSet.single '\n').complement

def Assertion.meaning (flags : Flags) : Assertion → Look
  | caret =>
    if flags.multiLine then (if flags.crlf then .crlfLineStart else .lineStart) else .textStart
  | dollar =>
    if flags.multiLine then (if flags.crlf then .crlfLineEnd else .lineEnd) else .textEnd
  | textStart => .textStart
  | textEnd => .textEnd
  | wordEdge => .word .edge flags.unicode
  | notWordEdge => .word .notEdge flags.unicode
  | wordStart => .word .start flags.unicode
  | wordEnd => .word .stop flags.unicode
  | wordStartHalf => .word .startHalf flags.unicode
  | wordEndHalf => .word .stopHalf flags.unicode

mutual
/-- The expression of a pattern, and the flags in force behind it. A group keeps its flags
to itself; all other changes reach up to the end of the group they stand in. -/
def Ast.meaning (flags : Flags) : Ast → Option (Regex × Flags)
  | .empty => some (.empty, flags)
  | .flags change => some (.empty, flags.changed change)
  | .literal item => do return (← item.meaning flags, flags)
  | .dot => do
    guard flags.unicode
    return (.one (dotSet flags), flags)
  | .assertion kind => some (.look (kind.meaning flags), flags)
  | .letter kind negated => do
    return (.one (← bytesOnly flags (negatedIf negated (kind.set flags))), flags)
  | .property name negated => do return (.one (← propertySet flags name negated), flags)
  | .bracket negated set => do
    return (.one (← foldedAndNegated flags negated (← set.meaning flags)), flags)
  | .repetition least most greedy item => do
    let (item, flags) ← item.meaning flags
    return (.repeat least most (greedy != flags.swapGreed) item, flags)
  | .group change item => do
    let (item, _) ← item.meaning (flags.changed change)
    return (item, flags)
  | .sequence items => do
    let (items, flags) ← Ast.meanings flags items
    return (.concat items, flags)
  | .choice branches => do
    let (branches, flags) ← Ast.meanings flags branches
    return (.choose branches, flags)

/-- The expressions of parts that follow one another in the text of the pattern. -/
def Ast.meanings (flags : Flags) : List Ast → Option (List Regex × Flags)
  | [] => some ([], flags)
  | item :: rest => do
    let (item, flags) ← item.meaning flags
    let (rest, flags) ← Ast.meanings flags rest
    return (item :: rest, flags)
end

end RegionScan.Pattern
