-- Reading a pattern from its text. A reading either gives the syntax or fails;
-- why it fails is never asked for.
import RegionScan.Pattern.Syntax
import RegionScan.Pattern.Alphabet

namespace RegionScan.Pattern

/-- What is left to read, and what the part read so far has settled. -/
structure Reader where
  rest : List Char
  ignoreSpace : Bool
  groupNames : List (List Char)

abbrev Reading := StateT Reader Option

namespace Reading

/-! ## Single steps -/

def peek? : Reading (Option Char) := do return (← get).rest.head?

/-- The character at hand; there has to be one. -/
def peek : Reading Char := do (← get).rest.head?

def skip (count : Nat) : Reading Unit :=
  modify fun reader => { reader with rest := reader.rest.drop count }

/-- The text after blanks and comments. A comment reaches from `#` to the end of its line. -/
def afterBlanks (inComment : Bool) : List Char → List Char
  | [] => []
  | c :: rest =>
    if inComment then afterBlanks (c != '\n') rest
    else if whitespace.contains c then afterBlanks false rest
    else if c == '#' then afterBlanks true rest
    else c :: rest

/-- Passes over blanks and comments where they mean nothing. -/
def skipBlanks : Reading Unit :=
  modify fun reader =>
    if reader.ignoreSpace then { reader with rest := afterBlanks false reader.rest } else reader

/-- Passes over one character and the blanks behind it. -/
def advance : Reading Unit := do
  skip 1
  skipBlanks

/-- Goes past `expected` and the blanks behind it, or fails. -/
def expect (expected : Char) : Reading Unit := do
  guard ((← peek) == expected)
  advance

def startsWith (text : String) : Reading Bool := do
  return text.toList.isPrefixOf (← get).rest

/-- Goes past `text` if it comes next. -/
def skipIf (text : String) : Reading Bool := do
  if ← startsWith text then
    skip text.length
    return true
  else return false

/-- The first character that is neither blank nor the sign that opens a comment. -/
def firstSolid (commentSeen : Bool) : List Char → Option Char
  | [] => none
  | c :: rest =>
    if whitespace.contains c then firstSolid commentSeen rest
    else if c == '#' && !commentSeen then firstSolid true rest
    else some c

/-- The character after the one at hand, looking past blanks where they mean nothing. -/
def peekBeyond : Reading (Option Char) := do
  let reader ← get
  let beyond := reader.rest.drop 1
  return if reader.ignoreSpace then (firstSolid false beyond).or beyond.head? else beyond.head?

/-- Up to `most` characters that fit `fits`, with the blanks behind each left out. -/
def takeWhile (fits : Char → Bool) : Nat → Reading (List Char)
  | 0 => return []
  | most + 1 => do
    match ← peek? with
    | some c =>
      if fits c then
        advance
        return c :: (← takeWhile fits most)
      else return []
    | none => return []

/-- All characters that fit `fits`, with the blanks behind each left out. -/
def takeAll (fits : Char → Bool) : Reading (List Char) := do
  takeWhile fits (← get).rest.length

/-! ## Numbers -/

def digitValue (c : Char) : Nat :=
  if c.isDigit then c.toNat - 0x30
  else if 'a' ≤ c && c ≤ 'f' then c.toNat - 0x61 + 10
  else c.toNat - 0x41 + 10

def isHexDigit (c : Char) : Bool := c.isDigit || ('a' ≤ c && c ≤ 'f') || ('A' ≤ c && c ≤ 'F')

def numberOf (base : Nat) (digits : List Char) : Nat :=
  digits.foldl (fun value c => value * base + digitValue c) 0

/-- The largest count a repetition can be given. -/
def maxCount : Nat := 0xFFFFFFFF

/-- A count of a repetition, with blanks allowed around it. -/
def readCount : Reading Nat := do
  modify fun reader => { reader with rest := reader.rest.dropWhile whitespace.contains }
  let digits ← takeAll Char.isDigit
  modify fun reader => { reader with rest := reader.rest.dropWhile whitespace.contains }
  skipBlanks
  guard (digits ≠ [] && numberOf 10 digits ≤ maxCount)
  return numberOf 10 digits

/-- The character with a code point, unless there is none. -/
def charOfCode (code : Nat) : Reading Char := do
  guard (decide (code.isValidChar))
  return Char.ofNat code

/-- A character by its code point, after the letter of the escape. Without braces there have
to be exactly `width` digits. -/
def readCode (width : Nat) : Reading (Char × Bool) := do
  advance
  if (← peek) == '{' then
    advance
    let digits ← takeAll (· != '}')
    expect '}'
    guard (digits ≠ [] && digits.all isHexDigit)
    return (← charOfCode (numberOf 16 digits), false)
  else
    let digits ← takeWhile isHexDigit width
    guard (digits.length == width)
    return (← charOfCode (numberOf 16 digits), width == 2)

/-! ## Escapes -/

/-- The characters that mean something in a pattern. -/
def isMeta (c : Char) : Bool := "\\.+*?()|[]\x7b\x7d^$#&-~".contains c

/-- Whether a backslash before `c` just writes `c`. -/
def isEscapable (c : Char) : Bool :=
  isMeta c || (c.toNat < 0x80 && !c.isAlphanum && c != '<' && c != '>')

/-- The character that an escape with a letter stands for. -/
def controlOf? : Char → Option Char
  | 'a' => some '\x07'
  | 'f' => some '\x0c'
  | 't' => some '\t'
  | 'n' => some '\n'
  | 'r' => some '\r'
  | 'v' => some '\x0b'
  | _ => none

def isEdgeLetter (c : Char) : Bool := c.isAlpha || c == '-'

/-- The kind of word edge named between braces. Braces that hold something else than a name
are left for a repetition. -/
def readEdge : Reading Assertion := do
  if (← peek?) != some '{' then return .wordEdge
  let before ← get
  advance
  if !isEdgeLetter (← peek) then
    set before
    return .wordEdge
  let name ← takeAll isEdgeLetter
  guard ((← peek) == '}')
  skip 1
  match String.ofList name with
  | "start" => return .wordStart
  | "end" => return .wordEnd
  | "start-half" => return .wordStartHalf
  | "end-half" => return .wordEndHalf
  | _ => failure

/-- A property by its name in braces or by one letter. -/
def readProperty (negated : Bool) : Reading Ast := do
  advance
  if (← peek) == '{' then
    advance
    let name ← takeAll (· != '}')
    guard ((← peek) == '}')
    skip 1
    return .property (String.ofList name) negated
  else
    let c ← peek
    guard (c != '\\')
    advance
    return .property (String.ofList [c]) negated

def letterClass? : Char → Option (LetterClass × Bool)
  | 'd' => some (.digit, false)
  | 'D' => some (.digit, true)
  | 's' => some (.space, false)
  | 'S' => some (.space, true)
  | 'w' => some (.word, false)
  | 'W' => some (.word, true)
  | _ => none

/-- What a backslash and the characters after it stand for. -/
def readEscape : Reading Ast := do
  skip 1
  let c ← peek
  match c with
  | 'x' => let (code, asByte) ← readCode 2; return .literal ⟨code, asByte⟩
  | 'u' => let (code, _) ← readCode 4; return .literal ⟨code, false⟩
  | 'U' => let (code, _) ← readCode 8; return .literal ⟨code, false⟩
  | 'p' => readProperty false
  | 'P' => readProperty true
  | _ =>
    skip 1
    if let some (kind, negated) := letterClass? c then return .letter kind negated
    if isEscapable c then return .literal ⟨c, false⟩
    if let some control := controlOf? c then return .literal ⟨control, false⟩
    match c with
    | 'A' => return .assertion .textStart
    | 'z' => return .assertion .textEnd
    | 'b' => return .assertion (← readEdge)
    | 'B' => return .assertion .notWordEdge
    | '<' => return .assertion .wordStart
    | '>' => return .assertion .wordEnd
    | _ => failure

/-! ## Bracketed classes -/

def namedClasses : List (String × NamedClass) :=
  [("alnum", .alnum), ("alpha", .alpha), ("ascii", .ascii), ("blank", .blank), ("cntrl", .cntrl),
   ("digit", .digit), ("graph", .graph), ("lower", .lower), ("print", .print), ("punct", .punct),
   ("space", .space), ("upper", .upper), ("word", .word), ("xdigit", .xdigit)]

/-- A class with its name between `[:` and `:]`. Where the name is not known nothing is read:
the bracket then opens a class of its own. -/
def readNamed? : Reading (Option ClassSet) := do
  let before ← get
  if ← skipIf "[:" then
    let negated ← skipIf "^"
    let reader ← get
    let name := reader.rest.takeWhile (· != ':')
    skip name.length
    if ← skipIf ":]" then
      if let some (_, kind) := namedClasses.find? fun entry => entry.1.toList == name then
        return some (.named kind negated)
  set before
  return none

/-- One item of a class that could also be an end of a range. -/
def readItem : Reading Ast := do
  let c ← peek
  if c == '\\' then readEscape
  else
    skip 1
    return .literal ⟨c, false⟩

/-- What may stand alone in a class. -/
def classItem : Ast → Reading ClassSet
  | .literal item => return .literal item
  | .letter kind negated => return .letter kind negated
  | .property name negated => return .property name negated
  | _ => failure

/-- What may be an end of a range. -/
def rangeEnd : Ast → Reading Literal
  | .literal item => return item
  | _ => failure

/-- A range, or one item alone. A hyphen before the closing bracket or before another hyphen
makes no range. -/
def readRange : Reading ClassSet := do
  let item ← readItem
  skipBlanks
  let beyond ← peekBeyond
  if (← peek) != '-' || beyond == some ']' || beyond == some '-' then classItem item
  else
    advance
    let _ ← peek
    let first ← rangeEnd item
    let last ← rangeEnd (← readItem)
    guard (first.char ≤ last.char)
    return .range first last

/-- The items of a class as one set; `items` holds them last first. -/
def unionOf : List ClassSet → ClassSet
  | [item] => item
  | items => .union items.reverse

/-- Puts the operand that just ended behind the operators before it. -/
def combined (pending : Option (SetOperator × ClassSet)) (operand : ClassSet) : ClassSet :=
  match pending with
  | some (operator, left) => .combine operator left operand
  | none => operand

/-- The operator between the parts of a class that comes next. -/
def setOperator? : Reading (Option SetOperator) := do
  if ← skipIf "&&" then return some .intersection
  if ← skipIf "--" then return some .difference
  if ← skipIf "~~" then return some .symmetricDifference
  return none

/-- Hyphens at the head of a class stand for themselves, and so does a closing bracket that is
its first item. -/
def readClassHead : Reading (Bool × List ClassSet) := do
  advance
  let negated := (← peek) == '^'
  if negated then advance
  let hyphens ← takeAll (· == '-')
  let next ← peek
  if hyphens.isEmpty && next == ']' then
    advance
    let _ ← peek
    return (negated, [.literal ⟨']', false⟩])
  else return (negated, hyphens.map fun c => .literal ⟨c, false⟩)

mutual
/-- A class from its opening bracket to its closing one. Each step takes a character, so
as many steps as characters are enough. -/
def readClass : Nat → Reading (Bool × ClassSet)
  | 0 => failure
  | steps + 1 => do
    let (negated, items) ← readClassHead
    return (negated, ← readClassItems steps none items)

/-- The items of a class after `items`, up to and with the closing bracket. -/
def readClassItems : Nat → Option (SetOperator × ClassSet) → List ClassSet → Reading ClassSet
  | 0, _, _ => failure
  | steps + 1, pending, items => do
    skipBlanks
    let c ← peek
    if c == ']' then
      skip 1
      return combined pending (unionOf items)
    else if c == '[' then
      if let some named ← readNamed? then readClassItems steps pending (named :: items)
      else
        let (negated, set) ← readClass steps
        readClassItems steps pending (.bracket negated set :: items)
    else if let some operator ← setOperator? then
      readClassItems steps (some (operator, combined pending (unionOf items))) []
    else
      let item ← readRange
      readClassItems steps pending (item :: items)
end

/-! ## Groups and flags -/

def flagOf? : Char → Option Flag
  | 'i' => some .ignoreCase
  | 'm' => some .multiLine
  | 's' => some .dotAll
  | 'U' => some .swapGreed
  | 'u' => some .unicode
  | 'R' => some .crlf
  | 'x' => some .ignoreSpace
  | _ => none

/-- Flags up to the sign that ends them. No flag may come twice, at most one hyphen stands
among them, and some flag has to follow it. -/
def readFlags (change : FlagChange) (negating dangling : Bool) : Nat → Reading FlagChange
  | 0 => failure
  | steps + 1 => do
    let c ← peek
    if c == ':' || c == ')' then
      guard (!dangling)
      return change
    else if c == '-' then
      guard (!negating)
      skip 1
      readFlags change true true steps
    else
      let flag ← flagOf? c
      guard (!(change.turnedOn.contains flag || change.turnedOff.contains flag))
      skip 1
      let change :=
        if negating then { change with turnedOff := flag :: change.turnedOff }
        else { change with turnedOn := flag :: change.turnedOn }
      readFlags change negating false steps

def isNameStart (c : Char) : Bool := c == '_' || alphabetic.contains c

def isNamePart (c : Char) : Bool :=
  isNameStart c || c == '.' || c == '[' || c == ']' || numbers.contains c

/-- The name of a group up to `>`. No two groups share one. -/
def readGroupName : Reading Unit := do
  let reader ← get
  let name := reader.rest.takeWhile (· != '>')
  skip name.length
  guard ((← peek) == '>')
  skip 1
  guard (name ≠ [] && (name.take 1).all isNameStart && name.all isNamePart)
  guard (!reader.groupNames.contains name)
  modify fun reader => { reader with groupNames := name :: reader.groupNames }

/-- What opens with a parenthesis: a group with the flags it sets, or flags for all that
follows. -/
inductive Opening where
  | group (change : FlagChange)
  | setFlags (change : FlagChange)

/-- Reads from the parenthesis to the contents of the group. Looking ahead and looking behind
are not supported. -/
def readOpening : Reading Opening := do
  advance
  if (← startsWith "?=") || (← startsWith "?!") || (← startsWith "?<=") || (← startsWith "?<!") then
    failure
  if ← skipIf "?P<" then
    readGroupName
    return .group .nothing
  if ← skipIf "?<" then
    readGroupName
    return .group .nothing
  if ← skipIf "?" then
    let change ← readFlags .nothing false false ((← get).rest.length + 1)
    let closing ← peek
    skip 1
    if closing == ':' then return .group change
    guard (!(change.turnedOn.isEmpty && change.turnedOff.isEmpty))
    return .setFlags change
  return .group .nothing

/-! ## Repetitions -/

/-- What a repetition can apply to: anything but flags. -/
def repeatable : List Ast → Reading (Ast × List Ast)
  | [] => failure
  | .flags _ :: _ => failure
  | item :: rest => return (item, rest)

/-- Whether a repetition is greedy: a question mark behind it makes it lazy. -/
def readGreed : Reading Bool := do
  if (← peek?) == some '?' then
    skip 1
    return false
  else return true

/-- The bounds of a repetition from its opening brace to its closing one. -/
def readBounds : Reading (Nat × Option Nat) := do
  advance
  let _ ← peek
  let least ← readCount
  let bounds ←
    if (← peek) == ',' then
      advance
      if (← peek) == '}' then pure (least, none)
      else pure (least, some (← readCount))
    else pure (least, some least)
  expect '}'
  guard (bounds.2.all fun most => bounds.1 ≤ most)
  return bounds

/-! ## Whole patterns -/

/-- The items of a sequence, which `items` holds last first. -/
def sequenceOf : List Ast → Ast
  | [] => .empty
  | [item] => item
  | items => .sequence items.reverse

/-- The branches of a choice, which `branches` holds last first. -/
def choiceOf : List Ast → Ast
  | [branch] => branch
  | branches => .choice branches.reverse

/-- A choice up to the end or to a closing parenthesis, which stays. `items` is what the
branch at hand has so far, `branches` are those before it. Each step takes a character, so
as many steps as characters are enough. -/
def readChoice : Nat → List Ast → List Ast → Reading Ast
  | 0, _, _ => failure
  | steps + 1, items, branches => do
    skipBlanks
    match ← peek? with
    | none | some ')' => return choiceOf (sequenceOf items :: branches)
    | some '|' =>
      skip 1
      readChoice steps [] (sequenceOf items :: branches)
    | some '(' =>
      match ← readOpening with
      | .setFlags change =>
        modify fun reader =>
          { reader with ignoreSpace := change.apply .ignoreSpace reader.ignoreSpace }
        readChoice steps (.flags change :: items) branches
      | .group change =>
        let outside := (← get).ignoreSpace
        modify fun reader =>
          { reader with ignoreSpace := change.apply .ignoreSpace reader.ignoreSpace }
        let inner ← readChoice steps [] []
        guard ((← peek) == ')')
        skip 1
        modify fun reader => { reader with ignoreSpace := outside }
        readChoice steps (.group change inner :: items) branches
    | some '[' =>
      let (negated, set) ← readClass steps
      readChoice steps (.bracket negated set :: items) branches
    | some '?' =>
      let (item, rest) ← repeatable items
      skip 1
      readChoice steps (.repetition 0 (some 1) (← readGreed) item :: rest) branches
    | some '*' =>
      let (item, rest) ← repeatable items
      skip 1
      readChoice steps (.repetition 0 none (← readGreed) item :: rest) branches
    | some '+' =>
      let (item, rest) ← repeatable items
      skip 1
      readChoice steps (.repetition 1 none (← readGreed) item :: rest) branches
    | some '{' =>
      let (item, rest) ← repeatable items
      let (least, most) ← readBounds
      readChoice steps (.repetition least most (← readGreed) item :: rest) branches
    | some '\\' =>
      let escaped ← readEscape
      readChoice steps (escaped :: items) branches
    | some c =>
      skip 1
      let item : Ast :=
        match c with
        | '.' => .dot
        | '^' => .assertion .caret
        | '$' => .assertion .dollar
        | c => .literal ⟨c, false⟩
      readChoice steps (item :: items) branches

end Reading

/-- The syntax of a pattern text. -/
def Ast.read? (text : String) : Option Ast := do
  let chars := text.toList
  let (ast, reader) ← (Reading.readChoice (chars.length + 1) [] []).run ⟨chars, false, []⟩
  guard (reader.rest.isEmpty && ast.depth ≤ nestLimit)
  return ast

end RegionScan.Pattern
