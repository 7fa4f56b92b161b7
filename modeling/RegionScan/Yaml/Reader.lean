-- Reading the one document of a YAML text. A reading gives the tree or fails.
import RegionScan.Yaml.Node

namespace RegionScan.Yaml

/-- What is left to read, the column it starts at, and the nodes that were given names. -/
structure Place where
  rest : List Char
  column : Nat
  /-- Whether a blank, a line end or the start of the text comes right before. -/
  afterBlank : Bool
  named : List (List Char × Node)

abbrev Reading := StateT Place Option

namespace Reading

/-! ## Single steps -/

def peek? : Reading (Option Char) := do return (← get).rest.head?

def isLineEnd (c : Char) : Bool := c == '\n' || c == '\r'

def isBlank (c : Char) : Bool := c == ' ' || c == '\t'

/-- Whether a blank, a line end or the end of the text comes next. -/
def endsWord (next : Option Char) : Bool := next.all fun c => isBlank c || isLineEnd c

def skipChar : Reading Unit :=
  modify fun place =>
    match place.rest with
    | [] => place
    | c :: rest =>
      { place with
        rest
        column := if isLineEnd c then 0 else place.column + 1
        afterBlank := isBlank c || isLineEnd c }

def skip : Nat → Reading Unit
  | 0 => return
  | count + 1 => do
    skipChar
    skip count

def column : Reading Nat := do return (← get).column

/-- The next characters as long as they fit. -/
def takeWhile (fits : Char → Bool) : Reading (List Char) := do
  let taken := (← get).rest.takeWhile fits
  skip taken.length
  return taken

def expect (c : Char) : Reading Unit := do
  guard ((← peek?) == some c)
  skipChar

/-- Passes over blanks and a comment behind them, but not over the line end. -/
def skipInLine : Reading Unit := do
  let _ ← takeWhile isBlank
  let place ← get
  if place.rest.head? == some '#' && place.afterBlank then
    let _ ← takeWhile fun c => !isLineEnd c

/-- Passes over blank lines and comments. Tells whether a line has ended on the way, and fails
where a tab stands in an indentation. -/
def skipLines (tabsAllowed : Bool) : Nat → Bool → Reading Bool
  | 0, crossed => return crossed
  | steps + 1, crossed => do
    let place ← get
    guard (tabsAllowed || place.column != 0 || !(place.rest.takeWhile isBlank).contains '\t')
    skipInLine
    match ← peek? with
    | some c =>
      if isLineEnd c then
        skipChar
        skipLines tabsAllowed steps true
      else return crossed
    | none => return crossed

def skipToContent (tabsAllowed : Bool) : Reading Bool := do
  skipLines tabsAllowed ((← get).rest.length + 1) false

/-- Whether a line of three such characters comes next, which divides documents. -/
def atMarker (c : Char) : Reading Bool := do
  let place ← get
  return place.column == 0 && place.rest.take 3 == [c, c, c] && endsWord place.rest[3]?

def atDocumentEnd : Reading Bool := do
  return (← peek?).isNone || (← atMarker '-') || (← atMarker '.')

/-! ## Scalars -/

def isFlowSign (c : Char) : Bool := ",[]\x7b\x7d".contains c

/-- Signs that no plain scalar can start with. -/
def isIndicator (c : Char) : Bool := ",[]\x7b\x7d#&*!|>'\"%@\x60".contains c

/-- Whether a plain scalar ends before a colon, given what follows the colon. -/
def colonEnds (inFlow : Bool) (next : Option Char) : Bool :=
  endsWord next || (inFlow && next.any isFlowSign)

/-- The part of a plain scalar on one line, without blanks at its end. -/
def plainLine (inFlow : Bool) : List Char → List Char
  | [] => []
  | c :: rest =>
    if isLineEnd c then []
    else if c == ':' && colonEnds inFlow rest.head? then []
    else if isBlank c && (rest.dropWhile isBlank).head?.all (fun d => d == '#' || isLineEnd d) then
      []
    else if inFlow && isFlowSign c then []
    else
      let more := plainLine inFlow rest
      if isBlank c && more.all isBlank then [] else c :: more

/-- The further lines of a plain scalar: those that are indented by at least `indent`. -/
def plainLines (inFlow : Bool) (indent : Nat) : Nat → List Char → Reading (List Char)
  | 0, text => return text
  | steps + 1, text => do
    let before ← get
    let _ ← takeWhile isBlank
    if (← peek?).any isLineEnd then
      let _ ← takeWhile fun c => isBlank c || isLineEnd c
      let place ← get
      let more := plainLine inFlow place.rest
      if more.isEmpty || place.rest.head? == some '#' || (!inFlow && place.column < indent) ||
          (← atDocumentEnd) then
        set before
        return text
      else
        skip more.length
        plainLines inFlow indent steps (text ++ ' ' :: more)
    else
      set before
      return text

def readPlain (inFlow : Bool) (indent : Nat) : Reading (List Char) := do
  let place ← get
  let c ← place.rest.head?
  let next := place.rest[1]?
  guard (!isIndicator c)
  if c == '-' || c == '?' || c == ':' then
    guard (!endsWord next && !(inFlow && next.any isFlowSign))
  let text := plainLine inFlow place.rest
  guard (!text.isEmpty)
  skip text.length
  plainLines inFlow indent place.rest.length text

/-- The text up to the closing quote; `''` is one quote. -/
def readSingleQuoted : Nat → Reading (List Char)
  | 0 => failure
  | steps + 1 => do
    guard (!((← atMarker '-') || (← atMarker '.')))
    let c ← (← get).rest.head?
    skipChar
    if c == '\'' then
      if (← peek?) == some '\'' then
        skipChar
        return '\'' :: (← readSingleQuoted steps)
      else return []
    else return c :: (← readSingleQuoted steps)

/-- How many hexadecimal digits follow the letter of an escape. -/
def codeWidth? : Char → Option Nat
  | 'x' => some 2
  | 'u' => some 4
  | 'U' => some 8
  | _ => none

def escapes : List (Char × Char) :=
  [('0', '\x00'), ('a', '\x07'), ('b', '\x08'), ('t', '\t'), ('\t', '\t'), ('n', '\n'),
   ('v', '\x0b'), ('f', '\x0c'), ('r', '\r'), ('e', '\x1b'), (' ', ' '), ('"', '"'), ('/', '/'),
   ('\\', '\\'), ('N', '\u0085'), ('_', '\u00a0'), ('L', '\u2028'), ('P', '\u2029')]

/-- The character that an escape stands for; a line end that is escaped stands for nothing. -/
def readEscape : Reading (List Char) := do
  let c ← (← get).rest.head?
  skipChar
  if isLineEnd c then
    let _ ← takeWhile isBlank
    return []
  match codeWidth? c with
  | some width =>
    let digits := (← get).rest.take width
    guard (digits.length == width)
    skip width
    let code ← Node.digits? 16 digits
    guard (decide code.isValidChar)
    return [Char.ofNat code]
  | none =>
    let (_, meant) ← escapes.find? fun entry => entry.1 == c
    return [meant]

/-- The text up to the closing double quote. -/
def readDoubleQuoted : Nat → Reading (List Char)
  | 0 => failure
  | steps + 1 => do
    guard (!((← atMarker '-') || (← atMarker '.')))
    let c ← (← get).rest.head?
    skipChar
    if c == '"' then return []
    else if c == '\\' then
      let meant ← readEscape
      return meant ++ (← readDoubleQuoted steps)
    else return c :: (← readDoubleQuoted steps)

/-- A scalar in quotes of either kind. -/
def readQuoted : Reading Node := do
  let place ← get
  skipChar
  let steps := place.rest.length + 1
  let text ← if place.rest.head? == some '"' then readDoubleQuoted steps else readSingleQuoted steps
  return .scalar text .quoted

/-- The lines of a block scalar: all that are blank or indented by at least `indent`. -/
def blockLines (indent : Nat) : Nat → List Char → Reading (List Char)
  | 0, text => return text
  | steps + 1, text => do
    let rest := (← get).rest
    let line := rest.takeWhile fun c => !isLineEnd c
    if rest.isEmpty then return text
    else if line.all (· == ' ') || (indent ≤ (line.takeWhile (· == ' ')).length) then
      skip (line.length + 1)
      blockLines indent steps (text ++ line.drop indent ++ ['\n'])
    else return text

/-- A block scalar behind its sign. Its first line with text sets how far all are indented. -/
def readBlockScalar (tag : Option String) (indent : Nat) : Reading Node := do
  skipChar
  let header ← takeWhile fun c => c == '+' || c == '-' || c.isDigit
  guard (header.length ≤ 2)
  skipInLine
  if let some c ← peek? then
    guard (isLineEnd c)
    skipChar
  let rest := (← get).rest
  let first := rest.dropWhile fun c => c == ' ' || isLineEnd c
  let blank := rest.take (rest.length - first.length)
  let own := (blank.reverse.takeWhile (· == ' ')).length
  let text ← blockLines (max own indent) (rest.length + 1) []
  let text := (text.reverse.dropWhile isLineEnd).reverse
  return .scalar (if header.contains '-' then text else text ++ ['\n']) (.block tag)

/-! ## Names and tags -/

/-- What can stand before a node: a name to refer to it by, and a tag. -/
structure Properties where
  name : Option (List Char)
  tag : Option String

def readWord : Reading (List Char) :=
  takeWhile fun c => !(isBlank c || isLineEnd c || isFlowSign c)

def readProperties : Nat → Properties → Reading Properties
  | 0, properties => return properties
  | steps + 1, properties => do
    match ← peek? with
    | some '&' =>
      guard properties.name.isNone
      skipChar
      let name ← readWord
      guard (!name.isEmpty)
      let _ ← takeWhile isBlank
      readProperties steps { properties with name := some name }
    | some '!' =>
      guard properties.tag.isNone
      let tag ← readWord
      let _ ← takeWhile isBlank
      readProperties steps { properties with tag := some (String.ofList tag) }
    | _ => return properties

def remember (name : Option (List Char)) (node : Node) : Reading Node := do
  if let some name := name then
    modify fun place => { place with named := (name, node) :: place.named }
  return node

def readAlias : Reading Node := do
  skipChar
  let name ← readWord
  let (_, node) ← (← get).named.find? fun entry => entry.1 == name
  return node

/-! ## Flow collections -/

/-- Passes over what may stand between the parts of a flow collection. -/
def skipFlow : Reading Unit := do
  let _ ← skipToContent true
  guard (!((← atMarker '-') || (← atMarker '.')))

mutual
/-- A node inside a flow collection. -/
def flowNode : Nat → Reading Node
  | 0 => failure
  | steps + 1 => do
    let properties ← readProperties 2 ⟨none, none⟩
    skipFlow
    let node ←
      match ← peek? with
      | some '[' => do
        skipChar
        pure (.sequence (← flowItems steps))
      | some '{' => do
        skipChar
        pure (.mapping (← flowEntries steps))
      | some '"' => readQuoted
      | some '\'' => readQuoted
      | some '*' => readAlias
      | some c =>
        if (c == ',' || c == ']' || c == '}') && (properties.name.isSome || properties.tag.isSome)
        then pure .missing
        else pure (.scalar (← readPlain true 0) .plain)
      | none => failure
    remember properties.name node

/-- The items of a flow sequence up to its bracket; one may be a pair. -/
def flowItems : Nat → Reading (List Node)
  | 0 => failure
  | steps + 1 => do
    skipFlow
    if (← peek?) == some ']' then
      skipChar
      return []
    let item ← flowNode steps
    skipFlow
    let item ←
      if (← peek?) == some ':' then do
        skipChar
        skipFlow
        let value ←
          if (← peek?).any fun c => c == ',' || c == ']' then pure .missing else flowNode steps
        skipFlow
        pure (.mapping [(item, value)])
      else pure item
    if (← peek?) == some ',' then
      skipChar
      return item :: (← flowItems steps)
    else
      expect ']'
      return [item]

/-- The entries of a flow mapping up to its brace. -/
def flowEntries : Nat → Reading (List (Node × Node))
  | 0 => failure
  | steps + 1 => do
    skipFlow
    if (← peek?) == some '}' then
      skipChar
      return []
    let explicit := (← peek?) == some '?' && endsWord (← get).rest[1]?
    if explicit then
      skipChar
      skipFlow
    let key ← if (← peek?) == some ':' then pure .missing else flowNode steps
    skipFlow
    let value ←
      if (← peek?) == some ':' then do
        skipChar
        skipFlow
        if (← peek?).any fun c => c == ',' || c == '}' then pure .missing else flowNode steps
      else pure .missing
    skipFlow
    if (← peek?) == some ',' then
      skipChar
      return (key, value) :: (← flowEntries steps)
    else
      expect '}'
      return [(key, value)]
end

/-! ## Block collections -/

/-- Whether the sign of a block entry comes next. -/
def atSign (c : Char) : Reading Bool := do
  let place ← get
  return place.rest.head? == some c && endsWord place.rest[1]?

/-- Whether the colon behind a key comes next. -/
def atColon : Reading Bool := do
  let place ← get
  let rest := place.rest.dropWhile isBlank
  return rest.head? == some ':' && endsWord rest[1]?

/-- Whether two places lie on the same line. -/
def sameLine (before after : List Char) : Bool :=
  !(before.take (before.length - after.length)).any isLineEnd

mutual
/-- A node whose lines are indented by at least `indent`. `keyAllowed` says whether it may be
the first key of a mapping, which it cannot be behind another key on the same line. -/
def blockNode (indent : Nat) (keyAllowed : Bool) : Nat → Reading Node
  | 0 => failure
  | steps + 1 => do
    let start ← get
    let properties ← readProperties 2 ⟨none, none⟩
    let crossed ← skipToContent false
    let tagged := properties.name.isSome || properties.tag.isSome
    if tagged && ((← column) < indent || (← atDocumentEnd)) then
      return ← remember properties.name .missing
    let keyAllowed := keyAllowed || crossed
    let place ← get
    if keyAllowed && !(tagged && !crossed) && (← atSign '-') then
      return ← remember properties.name (.sequence (← blockItems place.column steps))
    if keyAllowed && (← atSign '?') then
      return ← remember properties.name (.mapping (← blockEntries place.column steps))
    if keyAllowed && (← atSign ':') then
      return ← remember properties.name (.mapping (← blockEntries place.column steps))
    match ← peek? with
    | some '|' => remember properties.name (← readBlockScalar properties.tag indent)
    | some '>' => remember properties.name (← readBlockScalar properties.tag indent)
    | _ =>
      let node ← blockLeaf indent steps
      if (← atColon) && sameLine place.rest (← get).rest then
        guard keyAllowed
        let (column, before) := if crossed then (place.column, place) else (start.column, start)
        set before
        let entries ← blockEntries column steps
        remember (if crossed then properties.name else none) (.mapping entries)
      else remember properties.name node
termination_by structural steps => steps

/-- A node that is no block collection: a flow collection, a scalar or a reference. -/
def blockLeaf (indent : Nat) : Nat → Reading Node
  | 0 => failure
  | steps + 1 => do
    match ← peek? with
    | some '{' => flowNode steps
    | some '[' => flowNode steps
    | some '"' => readQuoted
    | some '\'' => readQuoted
    | some '*' => readAlias
    | _ => return .scalar (← readPlain false indent) .plain

/-- What follows the sign of an entry whose own column is `column`: a node further right, on
the same line or below, or nothing. -/
def blockValue (column : Nat) (keyAllowed listAllowed : Bool) : Nat → Reading Node
  | 0 => failure
  | steps + 1 => do
    let crossed ← skipToContent false
    if ← atDocumentEnd then return .missing
    let here ← Reading.column
    if !crossed then blockNode (column + 1) keyAllowed steps
    else if column < here then blockNode (column + 1) true steps
    else if listAllowed && here == column && (← atSign '-') then
      return .sequence (← blockItems column steps)
    else return .missing
termination_by structural steps => steps

/-- The entries of a block sequence whose signs stand in `column`. -/
def blockItems (column : Nat) : Nat → Reading (List Node)
  | 0 => failure
  | steps + 1 => do
    skipChar
    let item ← blockValue column true false steps
    let crossed ← skipToContent false
    if (← atDocumentEnd) || (← Reading.column) < column then return [item]
    guard (crossed || (← get).column == column)
    guard ((← Reading.column) == column)
    if ← atSign '-' then return item :: (← blockItems column steps)
    else return [item]
termination_by structural steps => steps

/-- The entries of a block mapping whose keys stand in `column`. -/
def blockEntries (column : Nat) : Nat → Reading (List (Node × Node))
  | 0 => failure
  | steps + 1 => do
    let key ←
      if ← atSign '?' then do
        skipChar
        let key ← blockValue column true true steps
        let _ ← skipToContent false
        pure key
      else if ← atSign ':' then pure .missing
      else do
        let properties ← readProperties 2 ⟨none, none⟩
        let before := (← get).rest
        let key ← blockLeaf 0 steps
        guard (sameLine before (← get).rest)
        let _ ← takeWhile isBlank
        guard ((← peek?) == some ':')
        remember properties.name key
    let value ←
      if (← peek?) == some ':' then do
        skipChar
        blockValue column false true steps
      else pure .missing
    let _ ← skipToContent false
    if (← atDocumentEnd) || (← Reading.column) < column then return [(key, value)]
    guard ((← Reading.column) == column)
    return (key, value) :: (← blockEntries column steps)
termination_by structural steps => steps
end

/-! ## Documents -/

/-- Passes over the lines of directives. -/
def skipDirectives : Nat → Reading Bool
  | 0 => failure
  | steps + 1 => do
    let _ ← skipToContent false
    let place ← get
    if place.column == 0 && place.rest.head? == some '%' then
      let _ ← takeWhile fun c => !isLineEnd c
      let _ ← skipDirectives steps
      return true
    else return false

/-- The document, or nothing if the text is empty. -/
def readDocument : Reading (Option Node) := do
  let steps := 4 * (← get).rest.length + 16
  let directives ← skipDirectives steps
  let opened ← atMarker '-'
  guard (opened || !directives)
  if opened then skip 3
  let crossed ← skipToContent false
  let node ←
    if ← atDocumentEnd then pure (if opened then some .missing else none)
    else pure (some (← blockNode 0 (!opened || crossed) steps))
  let _ ← skipToContent false
  if ← atMarker '.' then
    skip 3
    let _ ← skipToContent false
  guard (← peek?).isNone
  return node

end Reading

/-- The tree of a YAML text that holds one document; `some none` is a text without any. -/
def Node.read? (text : String) : Option (Option Node) := do
  let (node, _) ← Reading.readDocument.run ⟨text.toList, 0, true, []⟩
  return node

end RegionScan.Yaml
