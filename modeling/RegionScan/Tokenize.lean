-- Dividing a range into tokens, one token at a time or all at once.
import RegionScan.Rules

namespace RegionScan

/-! ## One token at a time -/

/-- The next token, with rules tried as told. Spans that were queued come first. Then the rules
are tried at the mark; where none claims text, one character is reported as the default token.
At the end of the range the token is `eof`; a character before it that cannot be read is an
error. -/
def Grammar.nextTokenBy (grammar : Grammar) (attempt : Rule → RuleScan Token) :
    RuleScan Token := do
  if ← modifyGet Scanner.dequeue then return (← get).currentToken
  modify Scanner.startToken
  let here := (← get).mark
  let (claimed, _) ← tryRules grammar.mayStart attempt none here grammar.rules here
  match claimed with
  | some token =>
    modify Scanner.unpark
    if ← modifyGet Scanner.dequeue then return (← get).currentToken
    modify (·.setToken token)
    return token
  | none =>
    let here := (← get).mark
    let char ← Scanner.read
    if char.isSome then
      modify (·.setToken grammar.defaultToken)
      return grammar.defaultToken
    else
      modify Scanner.stepBack
      if here < (← get).rangeEnd then Scan.fail (.unreadable here)
      modify (·.setToken .eof)
      return .eof

/-- The next token. -/
def Grammar.nextToken (grammar : Grammar) : RuleScan Token := grammar.nextTokenBy grammar.attempt

/-! ## All tokens -/

/-- Adds a token to the spans so far, which are held last first. Empty tokens are left out, and
a token goes on the span before it if that ends where it starts and has the same token. -/
def addToken (spans : List Span) (span : Span) : RuleScan (List Span) := do
  if span.length = 0 then return spans
  match spans with
  | last :: earlier =>
    if last.token = span.token then
      match last.stop? with
      | none => Scan.fault .offsetOverflow
      | some stop =>
        if stop = span.offset then
          if maxOffset < last.length + span.length then Scan.fault .offsetOverflow
          return { last with length := last.length + span.length } :: earlier
        else return span :: spans
    else return span :: spans
  | [] => return [span]

/-- One token, added to the spans so far; nothing at the end of the range. -/
def Grammar.addNext (grammar : Grammar) (spans : List Span) : RuleScan (Option (List Span)) := do
  let token ← grammar.nextToken
  if token.isEof then return none
  let scanner ← get
  return some (← addToken spans ⟨token, scanner.tokenOffset, scanner.tokenLength⟩)

/-- Tokens up to the end of the range, or `count` of them. The flag tells whether the end has
been reached. -/
def Grammar.addTokens (grammar : Grammar) : Nat → List Span → RuleScan (List Span × Bool)
  | 0, spans => return (spans, false)
  | count + 1, spans => do
    match ← grammar.addNext spans with
    | none => return (spans, true)
    | some spans => grammar.addTokens count spans

/-- Tokens up to the end of the range. A turn hands out the queue and then moves the mark. -/
def Grammar.addAll (grammar : Grammar) : Nat → List Span → RuleScan (List Span)
  | 0, _ => Scan.fault .runaway
  | turns + 1, spans => do
    let (spans, done) ← grammar.addTokens ((← get).queue.length + 1) spans
    if done then return spans else grammar.addAll turns spans

/-- The spans of the rest of the range, with neighbours of one token as one span. -/
def Grammar.tokenize (grammar : Grammar) : RuleScan (List Span) := do
  return (← grammar.addAll (turnsLeft (← get)) []).reverse

/-- The spans of a whole document. -/
def Grammar.spansOf (grammar : Grammar) (document : Document) : Except Halt (List Span) :=
  let scan : RuleScan (List Span) := do
    Scan.ofTrial (Scanner.assign document 0 document.length)
    grammar.tokenize
  match scan (Scanner.fresh document .standard) with
  | .ok spans _ => .ok spans
  | .error halt _ => .error halt

/-! ## Traces -/

/-- What can be seen of a scan after a token. -/
structure TokenRecord where
  offset : Nat
  length : Nat
  token : Token
  mark : Nat
  queued : Nat
  lastMatch : Nat
  deriving DecidableEq, Repr

def TokenRecord.of (scanner : Scanner Region) (token : Token) : TokenRecord :=
  ⟨scanner.tokenOffset, scanner.tokenLength, token, scanner.mark, scanner.queue.length,
    scanner.lastMatch⟩

/-- The records of the tokens up to the end of the range, at most `count` of them, and why the
scan stopped short if it did. -/
def Grammar.trace (grammar : Grammar) :
    Nat → Scanner Region → List TokenRecord × Option Halt
  | 0, _ => ([], none)
  | count + 1, scanner =>
    match grammar.nextToken scanner with
    | .error halt _ => ([], some halt)
    | .ok token scanner =>
      let record := TokenRecord.of scanner token
      if token.isEof then ([record], none)
      else
        let (records, halt) := grammar.trace count scanner
        (record :: records, halt)

end RegionScan
