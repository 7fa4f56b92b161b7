-- Sessions: a host that holds some documents and drives one scanner over them,
-- command by command.
import RegionScan.Tokenize
import RegionScan.Scanner.Summary

namespace RegionScan

/-! ## The host's documents -/

/-- A document as the host holds it. Only a patchy one changes while it is scanned. -/
inductive HostDocument where
  | whole (document : VersionedText)
  | patchy (document : PatchyDocument)

def HostDocument.toDocument : HostDocument → Document
  | whole document => document.toDocument
  | patchy document => document.toDocument

/-- A document and what it has been asked so far. -/
structure Holding where
  document : HostDocument
  tally : Tally

/-! ## Commands -/

/-- How a scanner is started. -/
inductive Start where
  | range (offset length : Nat)
  | partialRange (offset length : Nat) (contentType : Option String) (partitionStart : Option Nat)
  /-- With a capacity of its own; without a range nothing is scanned yet. -/
  | configured (capacity : Nat) (range : Option (Nat × Nat))

/-- What a host can ask of a scanner whose regions it knows by name. -/
inductive Command where
  | read
  | readMany (count : Nat)
  | readAll
  | stepBack (count : Nat)
  | column
  | moveTo (offset : Nat)
  | enterRange (offset length : Nat)
  | leaveRange
  | frame
  | assign (document offset length : Nat)
  | assignPart (document offset length : Nat) (contentType : Option String)
      (partitionStart : Option Nat)
  | partition
  | document
  | window (offset : Nat)
  | delimiters
  | setLastMatch (offset : Nat)
  | excerpt (offset length : Nat)
  | textToEnd (offset : Nat)
  | lineCount
  | lineOf (offset : Nat)
  | lineHolding (offset : Nat)
  | lineNumbered (number : Nat)
  | placeOf (offset : Nat)
  | setContinuing (value : Bool)
  | continuing
  | startToken
  | setToken (token : Token)
  | enqueue (span : Span)
  | dequeue
  | setCurrentSpan (span : Span)
  | openRegion (name : String)
  | closeRegion
  | currentRegion
  | park (start stop : Nat) (name : String) (delimiter : Span)
  | unpark
  | insertText (document offset : Nat) (text : Text)
  | deleteText (document offset length : Nat)
  | setHoles (document : Nat) (holes : List (Nat × Nat))
  | setReportedLength (document : Nat) (length : Option Nat)
  | lookups (document : Nat)

/-- What can also be asked where the regions are those of a grammar. Rules go by their place
among the grammar's rules. -/
inductive RuleCommand where
  | engine (command : Command)
  | mayStart (rule : Nat)
  | attempt (rule : Nat)
  | nextToken
  | tokenize
  | drain

inductive Reply where
  | nothing
  | flag (value : Bool)
  | number (value : Nat)
  | char (value : Option Char)
  | chars (values : List (Option Char))
  | text (value : Text)
  | name (value : Option String)
  | names (values : List String)
  | range (value : Frame)
  | partition (contentType : Option String) (partitionStart : Option Nat)
  | document (length lineCount : Nat) (isEmpty : Bool)
  | window (value : Window) (offset : Nat)
  | line (value : Line)
  | place (value : LinePlace)
  | token (value : Token)
  | spans (values : List Span)
  | tally (value : Tally)

/-! ## Sessions -/

/-- The names of the regions that a host pushes and finds open. -/
structure Naming (ρ : Type) where
  nameOf : ρ → String
  named? : String → Option ρ

/-- Regions that are nothing but names. -/
def Naming.plain : Naming String := ⟨id, some⟩

def Grammar.naming (grammar : Grammar) : Naming Region := ⟨Region.name, grammar.regionNamed?⟩

structure Session (ρ : Type) where
  holdings : Array Holding
  /-- The place of the document that is scanned. -/
  current : Nat
  scanner : Scanner ρ

abbrev SessionStep (ρ : Type) := EStateM Halt (Session ρ)

namespace Session

variable {ρ α : Type}

/-- Charges what the scanner has asked to the document it scans. -/
def settle (session : Session ρ) : Session ρ :=
  let tally := session.scanner.tally
  { session with
    holdings := session.holdings.modify session.current fun holding =>
      { holding with
        tally := ⟨holding.tally.slices + tally.slices,
          holding.tally.lineLookups + tally.lineLookups⟩ }
    scanner := { session.scanner with tally := ⟨0, 0⟩ } }

/-- Takes a step of the scan. -/
def scan (step : Scan ρ α) : SessionStep ρ α := fun session =>
  match step session.scanner with
  | .ok value scanner => .ok value { session with scanner }.settle
  | .error halt scanner => .error halt { session with scanner }.settle

/-- A lookup whose refusal is an error of the command. -/
def lookup (ask : Scanner ρ → Except LookupError α × Scanner ρ) : Scan ρ α := fun scanner =>
  match ask scanner with
  | (.ok value, scanner) => .ok value scanner
  | (.error reason, scanner) => .error (.failed (.lookup reason)) scanner

def readMany : Nat → Scan ρ (List (Option Char))
  | 0 => return []
  | count + 1 => do
    let char ← Scanner.read
    return char :: (← readMany count)

/-- All characters up to the first that is not there. -/
def readAll : Scan ρ Text := do
  let scanner ← get
  Scanner.readUpTo (scanner.rangeEnd - scanner.mark + 1)

def stepBackMany : Nat → Scanner ρ → Scanner ρ
  | 0, scanner => scanner
  | count + 1, scanner => stepBackMany count scanner.stepBack

/-- Gives the scanner a range of one of the documents. -/
def rerange (document : Nat) (setting : Document → Trial ρ Unit) : SessionStep ρ Reply :=
  fun session =>
    match session.holdings[document]? with
    | none => .ok .nothing session
    | some holding =>
      match setting holding.document.toDocument session.scanner with
      | .ok _ scanner => .ok .nothing { session with current := document, scanner }.settle
      | .error error scanner => .error (.failed error) { session with scanner }.settle

/-- Changes a patchy document. If it is the one that is scanned, the scan goes on over the
changed one, with a window that may be out of date. -/
def edit (document : Nat) (change : PatchyDocument → PatchyDocument) : SessionStep ρ Reply := do
  let session ← get
  match session.holdings[document]? with
  | some ⟨.patchy before, tally⟩ =>
    let after := change before
    let holdings := session.holdings.setIfInBounds document ⟨.patchy after, tally⟩
    if document = session.current then
      let scanner := { session.scanner with document := after.toDocument }
      set { session with holdings, scanner }
    else set { session with holdings }
    return .nothing
  | _ => return .nothing

/-- The region of that name. -/
def regionNamed (naming : Naming ρ) (name : String) : Scan ρ ρ :=
  match naming.named? name with
  | some region => pure region
  | none => Scan.fail (.unknownRule name)

/-- Carries out a command. -/
def command (naming : Naming ρ) : Command → SessionStep ρ Reply
  | .read => scan do return .char (← Scanner.read)
  | .readMany count => scan do return .chars (← readMany count)
  | .readAll => scan do return .text (← readAll)
  | .stepBack count => scan do
    modify (stepBackMany count)
    return .nothing
  | .column => scan do return .number (← modifyGet Scanner.columnOfMark)
  | .moveTo offset => scan do
    modify (·.moveTo offset)
    return .nothing
  | .enterRange offset length => scan do
    Scanner.enterRange offset length
    return .nothing
  | .leaveRange => scan do
    Scanner.leaveRange
    return .nothing
  | .frame => scan do return .range (← get).frame
  | .assign document offset length =>
    rerange document fun document => Scanner.assign document offset length
  | .assignPart document offset length contentType partitionStart =>
    rerange document fun document =>
      Scanner.assignPart document offset length contentType partitionStart
  | .partition => scan do
    let scanner ← get
    return .partition scanner.contentType scanner.partitionStart
  | .document => scan do
    let document := (← get).document
    return .document document.length document.lineCount document.isEmpty
  | .window offset => scan do return .window (← get).window offset
  | .delimiters => scan do return .names (← get).delimiters
  | .setLastMatch offset => scan do
    modify fun scanner => { scanner with lastMatch := offset }
    return .nothing
  | .excerpt offset length => scan do return .text (← Scanner.excerpt offset length)
  | .textToEnd offset => scan do return .text (← modifyGet (·.textToEnd offset))
  | .lineCount => scan do return .number (← get).document.lineCount
  | .lineOf offset => scan do return .number (← lookup (·.lineOf offset))
  | .lineHolding offset => scan do return .line (← lookup (·.lineHolding offset))
  | .lineNumbered number => scan do return .line (← lookup (·.lineNumbered number))
  | .placeOf offset => scan do return .place (← lookup (·.placeAt offset))
  | .setContinuing value => scan do
    modify fun scanner => { scanner with continuing := value }
    return .nothing
  | .continuing => scan do return .flag (← get).continuing
  | .startToken => scan do
    modify Scanner.startToken
    return .nothing
  | .setToken token => scan do
    modify (·.setToken token)
    return .nothing
  | .enqueue span => scan do
    modify (·.enqueue span)
    return .nothing
  | .dequeue => scan do return .flag (← modifyGet Scanner.dequeue)
  | .setCurrentSpan span => scan do
    modify (·.setCurrentSpan span)
    return .nothing
  | .openRegion name => scan do
    let region ← regionNamed naming name
    modify (·.openRegion region)
    return .nothing
  | .closeRegion => scan do return .name (some (naming.nameOf (← Scanner.closeRegion)))
  | .currentRegion => scan do return .name ((← get).openRegions.head?.map naming.nameOf)
  | .park start stop name delimiter => scan do
    Scanner.park ⟨start, stop, ← regionNamed naming name, delimiter⟩
    return .nothing
  | .unpark => scan do
    modify Scanner.unpark
    return .nothing
  | .insertText document offset text =>
    edit document fun before => { before with inner := before.inner.insert offset text }
  | .deleteText document offset length =>
    edit document fun before => { before with inner := before.inner.delete offset length }
  | .setHoles document holes => edit document fun before => { before with holes }
  | .setReportedLength document length =>
    edit document fun before => { before with reportedLength := length }
  | .lookups document => do
    match (← get).holdings[document]? with
    | some holding => return .tally holding.tally
    | none => return .nothing

/-! ## Rules in a session -/

/-- The spans of the queue, taken out one by one. -/
def drain : Nat → RuleScan (List Span)
  | 0 => return []
  | count + 1 => do
    if ← modifyGet Scanner.dequeue then
      let scanner ← get
      let span : Span := ⟨scanner.currentToken, scanner.tokenOffset, scanner.tokenLength⟩
      return span :: (← drain count)
    else return []

/-- Does something with one of the grammar's rules. -/
def withRule (grammar : Grammar) (rule : Nat) (act : Rule → RuleScan Reply) : RuleScan Reply :=
  match grammar.rules[rule]? with
  | some rule => act rule
  | none => return .nothing

/-- Carries out a command over the regions of a grammar. -/
def ruleCommand (grammar : Grammar) : RuleCommand → SessionStep Region Reply
  | .engine engineCommand => command grammar.naming engineCommand
  | .mayStart rule => scan (withRule grammar rule fun rule => do
    return .flag (← grammar.mayStart rule))
  | .attempt rule => scan (withRule grammar rule fun rule => do
    return .token (← grammar.attempt rule))
  | .nextToken => scan do return .token (← grammar.nextToken)
  | .tokenize => scan do return .spans (← grammar.tokenize)
  | .drain => scan do return .spans (← drain ((← get).queue.length + 1))

/-! ## Runs -/

/-- A scanner that starts with a setting, if that is accepted. -/
def startWith (setting : Trial ρ Unit) (scanner : Scanner ρ) : Except ScanError (Scanner ρ) :=
  match setting scanner with
  | .ok _ scanner => .ok scanner
  | .error error _ => .error error

/-- A scanner over a document, started as asked. -/
def startScanner (document : Document) : Start → Except ScanError (Scanner ρ)
  | .range offset length =>
    startWith (Scanner.assign document offset length) (Scanner.fresh document .standard)
  | .partialRange offset length contentType partitionStart =>
    startWith (Scanner.assignPart document offset length contentType partitionStart)
      (Scanner.fresh document .standard)
  | .configured capacity range => do
    let scanner := Scanner.fresh document (← Settings.ofCapacity capacity)
    match range with
    | none => return scanner
    | some (offset, length) => startWith (Scanner.assign document offset length) scanner

/-- A session over some documents; the scan starts on the first. -/
def start (first : HostDocument) (others : List HostDocument) (how : Start) :
    Except ScanError (Session ρ) := do
  let scanner ← startScanner first.toDocument how
  let holdings := (first :: others).map fun document => ⟨document, ⟨0, 0⟩⟩
  return Session.settle ⟨holdings.toArray, 0, scanner⟩

/-- What came of a command, and the session after it. -/
structure Outcome (ρ : Type) where
  result : Except Halt Reply
  session : Session ρ

/-- The outcomes of some commands in turn. After an error the session goes on; a fault ends
it. -/
def run (step : α → SessionStep ρ Reply) : List α → Session ρ → List (Outcome ρ)
  | [], _ => []
  | first :: rest, session =>
    match step first session with
    | .ok reply session => ⟨.ok reply, session⟩ :: run step rest session
    | .error (.failed error) session => ⟨.error (.failed error), session⟩ :: run step rest session
    | .error (.faulted fault) session => [⟨.error (.faulted fault), session⟩]

end Session

end RegionScan
