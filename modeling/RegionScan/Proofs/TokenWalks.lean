-- Tokens walk: what a scan hands out, token by token, are the spans of strides over
-- the range, and it stops short only at a character it cannot read.
import RegionScan.Tokenize
import RegionScan.Proofs.RuleWalks

namespace RegionScan

variable {grammar : Grammar} {text : Text} {sight : Sight} {scanner middle after : Scanner Region}
  {handed more : List Span}

/-! ## From token to token -/

/-- Between the two states these spans were handed out: with those still queued they are the
spans queued before and those of strides from mark to mark. -/
structure Scanner.Passed (grammar : Grammar) (text : Text) (sight : Sight)
    (scanner after : Scanner Region) (handed : List Span) : Prop where
  sees : after.Sees text sight
  parked_eq : after.parked = none
  rangeEnd_eq : after.rangeEnd = scanner.rangeEnd
  openRegions_eq : after.openRegions = scanner.openRegions
  spans_eq : ∃ spans, scanner.queue ++ spans = handed ++ after.queue ∧
    Strides grammar text sight scanner.openRegions scanner.rangeEnd scanner.mark spans after.mark

theorem Scanner.Passed.trans (h : scanner.Passed grammar text sight middle handed)
    (hmore : middle.Passed grammar text sight after more) :
    scanner.Passed grammar text sight after (handed ++ more) := by
  obtain ⟨spans, hqueue, hstrides⟩ := h.spans_eq
  obtain ⟨spans', hqueue', hstrides'⟩ := hmore.spans_eq
  rw [h.openRegions_eq, h.rangeEnd_eq] at hstrides'
  refine ⟨hmore.sees, hmore.parked_eq, hmore.rangeEnd_eq.trans h.rangeEnd_eq,
    hmore.openRegions_eq.trans h.openRegions_eq, spans ++ spans', ?_, hstrides.trans hstrides'⟩
  rw [← List.append_assoc, hqueue, List.append_assoc, hqueue', List.append_assoc]

theorem Scanner.Passed.refl (hs : scanner.Sees text sight) (hparked : scanner.parked = none) :
    scanner.Passed grammar text sight scanner [] :=
  ⟨hs, hparked, rfl, rfl, [], by simp, .stay⟩

/-! ## One token -/

/-- The state in which the rules are tried for a token. -/
def Scanner.tokenStarted (scanner : Scanner Region) : Scanner Region :=
  { scanner with
    token := none, currentSpan := none, tokenStart := scanner.mark, column := none, queue := [] }

theorem Scanner.Sees.tokenStarted (h : scanner.Sees text sight) :
    scanner.tokenStarted.Sees text sight :=
  ⟨⟨h.current.1, h.current.2⟩, h.shows, h.mark_le, h.end_le⟩

/-- The rules tried for a token. -/
def Grammar.tryAll (grammar : Grammar) (here : Nat) : RuleScan (Option Token × Nat) :=
  tryRules grammar.mayStart grammar.attempt none here grammar.rules here

/-- What is handed out where the rules have claimed this: the first span of it, a character that no
rule claims, or the end of the range. -/
def Grammar.handOut (grammar : Grammar) : Option Token → RuleScan Token
  | some token => do
    modify Scanner.unpark
    if ← modifyGet Scanner.dequeue then return (← get).currentToken
    modify (·.setToken token)
    return token
  | none => do
    let here := (← get).mark
    let char ← Scanner.read
    if char.isSome then
      modify (·.setToken grammar.defaultToken)
      return grammar.defaultToken
    else
      modify Scanner.stepBack
      if here < (← get).rangeEnd then Scan.fail (.unreadable here)
      modify (·.setToken .eof)
      return .eof

theorem dequeue_of_cons {span : Span} {rest : List Span} (h : scanner.queue = span :: rest) :
    (modifyGet Scanner.dequeue : RuleScan Bool) scanner =
      .ok true ({ scanner with queue := rest }.setCurrentSpan span) := by
  show EStateM.Result.ok scanner.dequeue.1 scanner.dequeue.2 = _
  simp only [Scanner.dequeue, h]

theorem dequeue_of_nil (h : scanner.queue = []) :
    (modifyGet Scanner.dequeue : RuleScan Bool) scanner =
      .ok false { scanner with token := none, currentSpan := none } := by
  show EStateM.Result.ok scanner.dequeue.1 scanner.dequeue.2 = _
  simp only [Scanner.dequeue, h]

theorem startToken_of_nil (h : scanner.queue = []) :
    ({ scanner with token := none, currentSpan := none } : Scanner Region).startToken =
      scanner.tokenStarted := by
  simp only [Scanner.startToken, Scanner.tokenStarted, ← h]

/-- A span that is queued is the next token. -/
theorem nextToken_queued {span : Span} {rest : List Span} (h : scanner.queue = span :: rest) :
    grammar.nextToken scanner =
      .ok span.token ({ scanner with queue := rest }.setCurrentSpan span) := by
  unfold Grammar.nextToken Grammar.nextTokenBy
  rw [Scan.bind_of_ok (dequeue_of_cons h)]
  rfl

section

variable {left : Nat} {tried read : Scanner Region} (hqueue : scanner.queue = [])

include hqueue

/-- Where nothing is queued the rules are tried, and what they claim is handed out. -/
theorem nextToken_of_nil :
    grammar.nextToken scanner =
      (grammar.tryAll scanner.mark >>= fun found => grammar.handOut found.1)
        scanner.tokenStarted := by
  unfold Grammar.nextToken Grammar.nextTokenBy
  rw [Scan.bind_of_ok (dequeue_of_nil hqueue)]
  simp only [Bool.false_eq_true, if_false]
  rw [Scan.modify_bind, startToken_of_nil hqueue, Scan.get_bind]
  -- The two sides differ only in where the cases of what is claimed are told apart.
  refine congrFun (congrArg (grammar.tryAll scanner.mark >>= ·) ?_) scanner.tokenStarted
  funext ⟨claimed, _⟩
  cases claimed <;> rfl

/-- The first span of what a rule has claimed is the next token. -/
theorem nextToken_claimed {token : Token} {span : Span} {rest : List Span}
    (htry : grammar.tryAll scanner.mark scanner.tokenStarted = .ok (some token, left) tried)
    (htried : tried.queue = span :: rest) :
    grammar.nextToken scanner =
      .ok span.token ({ tried.unpark with queue := rest }.setCurrentSpan span) := by
  have hunparked : tried.unpark.queue = span :: rest := htried
  rw [nextToken_of_nil hqueue, Scan.bind_of_ok htry, Grammar.handOut, Scan.modify_bind,
    Scan.bind_of_ok (dequeue_of_cons hunparked)]
  rfl

/-- A character that no rule claims is the next token. -/
theorem nextToken_char {c : Char}
    (htry : grammar.tryAll scanner.mark scanner.tokenStarted = .ok (none, left) tried)
    (hread : Scanner.read tried = .ok (some c) read) :
    grammar.nextToken scanner = .ok grammar.defaultToken (read.setToken grammar.defaultToken) := by
  rw [nextToken_of_nil hqueue, Scan.bind_of_ok htry, Grammar.handOut, Scan.get_bind,
    Scan.bind_of_ok hread]
  rfl

/-- Where there is no character, the range has come to its end or cannot be read. -/
theorem nextToken_none
    (htry : grammar.tryAll scanner.mark scanner.tokenStarted = .ok (none, left) tried)
    (hread : Scanner.read tried = .ok none read) :
    grammar.nextToken scanner = if tried.mark < read.stepBack.rangeEnd then
      .error (.failed (.unreadable tried.mark)) read.stepBack
    else .ok .eof (read.stepBack.setToken .eof) := by
  rw [nextToken_of_nil hqueue, Scan.bind_of_ok htry, Grammar.handOut, Scan.get_bind,
    Scan.bind_of_ok hread]
  simp only [Option.isSome_none, Bool.false_eq_true, if_false]
  rw [Scan.modify_bind, Scan.get_bind]
  split <;> rfl

end

/-- A token is a span, or `eof` at the end of the range, or there is none because no rule claims
the character at the mark and it cannot be read. -/
theorem nextToken_cases (hcustoms : grammar.customs = []) (hbegins : grammar.BeginsDefined)
    (hs : scanner.Sees text sight) (hparked : scanner.parked = none) :
    (∃ span after, grammar.nextToken scanner = .ok span.token after ∧
      after.tokenOffset = span.offset ∧ after.tokenLength = span.length ∧
      scanner.Passed grammar text sight after [span]) ∨
    (∃ after, grammar.nextToken scanner = .ok .eof after ∧ scanner.mark = scanner.rangeEnd ∧
      scanner.queue = [] ∧ scanner.Passed grammar text sight after [] ∧
      after.mark = scanner.mark ∧ after.queue = [] ∧ after.tokenLength = 0) ∨
    (∃ after, grammar.nextToken scanner = .error (.failed (.unreadable scanner.mark)) after ∧
      scanner.mark < scanner.rangeEnd ∧ sight.withholds scanner.mark ∧ scanner.queue = [] ∧
      ∃ started, Tries grammar text sight (Enters grammar text sight) scanner.openRegions
        scanner.rangeEnd scanner.mark grammar.rules started none) := by
  have hle := hs.mark_le
  rcases hqueue : scanner.queue with _ | ⟨span, rest⟩
  · -- Nothing is queued, so the rules get their turn.
    have hsfirst := hs.tokenStarted
    have hdepth : scanner.rangeEnd - scanner.mark < turnsLeft scanner.tokenStarted :=
      turnsLeft_enough scanner.tokenStarted
    obtain ⟨⟨claimed, left⟩, tried, htry, started, found, htries, hsome, -, hafter⟩ :=
      tryRules_leads hcustoms hbegins Enters.fits Enters.queues
        (attempt_leads hcustoms hbegins (turnsLeft scanner.tokenStarted)) none grammar.rules hsfirst
        hparked rfl hdepth (Nat.le_refl _)
    rcases found with _ | passage
    · -- No rule claims anything: one character, the end of the range, or neither.
      replace hafter : scanner.tokenStarted.Walked tried [] scanner.mark none := hafter
      obtain rfl : claimed = none := by simpa using hsome
      obtain ⟨char, read, hread, hsome, hnone⟩ := read_leads (hafter.sees hsfirst hle)
      rw [hafter.mark_eq, hafter.rangeEnd_eq, hafter.parked_eq] at hsome hnone
      rcases char with _ | c
      · right
        obtain ⟨hover, hback⟩ := hnone rfl
        have hall := hafter.still hback
        have hsall := hall.sees hsfirst hle
        have hnext := nextToken_none hqueue htry hread
        have hrange : read.stepBack.rangeEnd = scanner.rangeEnd := hall.rangeEnd_eq
        rw [hafter.mark_eq, hrange] at hnext
        by_cases hlt : scanner.mark < scanner.rangeEnd
        · right
          rw [if_pos hlt] at hnext
          exact ⟨_, hnext, hlt, hover.resolve_left (Nat.not_le_of_lt hlt), rfl, started, htries⟩
        · left
          rw [if_neg hlt] at hnext
          have hstay : (read.stepBack.setToken .eof).mark = scanner.mark := hall.mark_eq
          have hstart : read.stepBack.tokenStart = scanner.mark := hall.token_eq.1
          have hcurrent : read.stepBack.currentSpan = none := hall.token_eq.2
          have hlength : (read.stepBack.setToken .eof).tokenLength =
              min (read.stepBack.setToken .eof).mark (read.stepBack.setToken .eof).rangeEnd -
                scanner.mark := by
            simp only [Scanner.tokenLength, Scanner.setToken, hcurrent, hstart]
          refine ⟨_, hnext, by omega, rfl, ⟨⟨⟨hsall.current.1, hsall.current.2⟩, hsall.shows,
            hsall.mark_le, hsall.end_le⟩, hall.parked_eq, hall.rangeEnd_eq, hall.openRegions_eq,
            [], ?_, ?_⟩, hstay, hall.queue_eq, by rw [hlength, hstay]; omega⟩
          · rw [hqueue, List.nil_append, List.nil_append]
            exact hall.queue_eq.symm
          · rw [hstay]
            exact .stay
      · left
        obtain ⟨hlt, hgrants, hstep⟩ := hsome rfl
        replace hlt : scanner.mark < scanner.rangeEnd := hlt
        have hall := hafter.still hstep
        have hsall := hall.sees hsfirst hlt
        have hstart : read.tokenStart = scanner.mark := hall.token_eq.1
        have hcurrent : read.currentSpan = none := hall.token_eq.2
        have hmark : (read.setToken grammar.defaultToken).mark = scanner.mark + 1 := hall.mark_eq
        have hrange : (read.setToken grammar.defaultToken).rangeEnd = scanner.rangeEnd :=
          hall.rangeEnd_eq
        refine ⟨⟨grammar.defaultToken, scanner.mark, 1⟩, _, nextToken_char hqueue htry hread, ?_,
          ?_, ⟨⟨⟨hsall.current.1, hsall.current.2⟩, hsall.shows, hsall.mark_le, hsall.end_le⟩,
            hall.parked_eq, hrange, hall.openRegions_eq, [⟨grammar.defaultToken, scanner.mark, 1⟩],
            ?_, ?_⟩⟩
        · simp only [Scanner.tokenOffset, Scanner.setToken, hcurrent, hstart]
        · have hlength : (read.setToken grammar.defaultToken).tokenLength =
              min (read.setToken grammar.defaultToken).mark
                (read.setToken grammar.defaultToken).rangeEnd - scanner.mark := by
            simp only [Scanner.tokenLength, Scanner.setToken, hcurrent, hstart]
          rw [hlength, hmark, hrange]
          dsimp only
          omega
        · have hempty : (read.setToken grammar.defaultToken).queue = [] := hall.queue_eq
          rw [hempty, hqueue, List.nil_append, List.append_nil]
        · rw [hmark]
          exact .char htries hlt hgrants .stay
    · -- A rule claims text, and the first of its spans is handed out.
      left
      obtain ⟨token, rfl⟩ := Option.isSome_iff_exists.mp (show claimed.isSome = true from hsome)
      replace hafter : scanner.tokenStarted.Walked tried passage.spans passage.stop
        passage.parked := hafter
      have hstried := hafter.sees hsfirst (htries.fits Enters.fits).2.stop_le
      obtain ⟨span, rest, hspans⟩ := List.exists_cons_of_ne_nil (htries.queues Enters.queues)
      have hqueued : tried.queue = span :: rest := by rw [← hspans]; exact hafter.queue_eq
      refine ⟨span, _, nextToken_claimed hqueue htry hqueued, rfl, rfl,
        ⟨⟨⟨hstried.current.1, hstried.current.2⟩, hstried.shows, hstried.mark_le, hstried.end_le⟩,
          rfl, hafter.rangeEnd_eq, hafter.openRegions_eq, passage.spans, ?_, ?_⟩⟩
      · rw [hqueue, hspans]
        rfl
      · have hmark :
            ({ tried.unpark with queue := rest }.setCurrentSpan span).mark = passage.stop :=
          hafter.mark_eq
        have hone := Strides.claim htries .stay
        rw [List.append_nil] at hone
        rw [hmark]
        exact hone
  · left
    exact ⟨span, _, nextToken_queued hqueue, rfl, rfl, ⟨⟨hs.current.1, hs.current.2⟩, hs.shows,
      hs.mark_le, hs.end_le⟩, hparked, rfl, rfl, [],
      by simp [hqueue, Scanner.setCurrentSpan], .stay⟩

/-! ## Traces -/

/-- The stretch of text that a record is about. -/
def TokenRecord.span (record : TokenRecord) : Span := ⟨record.token, record.offset, record.length⟩

/-- How the records of a trace come to their end: there are as many as were asked for, or a rule
itself gives `eof`, or the range is used up, or the character at the mark cannot be read. -/
inductive TraceEnd (grammar : Grammar) (text : Text) (sight : Sight) (after : Scanner Region)
    (count : Nat) (handed : List Span) : List Span → Prop
  | full : handed.length = count → TraceEnd grammar text sight after count handed handed
  | named {span : Span} : span ∈ handed → span.token = .eof →
    TraceEnd grammar text sight after count handed handed
  | eof {offset : Nat} : after.mark = after.rangeEnd → after.queue = [] →
    TraceEnd grammar text sight after count handed (handed ++ [⟨.eof, offset, 0⟩])
  | lost {started : Bool} : after.mark < after.rangeEnd → sight.withholds after.mark →
    after.queue = [] →
    Tries grammar text sight (Enters grammar text sight) after.openRegions after.rangeEnd
      after.mark grammar.rules started none →
    TraceEnd grammar text sight after count handed handed

/-- Every span that is handed out is recorded. -/
theorem TraceEnd.mem_records {count : Nat} {records : List Span} {span : Span}
    (h : TraceEnd grammar text sight after count handed records) (hmem : span ∈ handed) :
    span ∈ records := by
  cases h with
  | full | named | lost => exact hmem
  | eof => exact List.mem_append_left _ hmem

/-- What is recorded and not handed out is empty. -/
theorem TraceEnd.mem_handed {count : Nat} {records : List Span} {span : Span}
    (h : TraceEnd grammar text sight after count handed records) (hmem : span ∈ records)
    (hpos : 0 < span.length) : span ∈ handed := by
  cases h with
  | full | named | lost => exact hmem
  | eof =>
    rcases List.mem_append.mp hmem with hmem | hmem
    · exact hmem
    · rw [List.mem_singleton.mp hmem] at hpos
      exact absurd hpos (Nat.lt_irrefl 0)

/-- The records of a trace are the spans that were handed out, and one more at the end of the
range. -/
theorem trace_cases (hcustoms : grammar.customs = []) (hbegins : grammar.BeginsDefined)
    (count : Nat) (hs : scanner.Sees text sight) (hparked : scanner.parked = none) :
    ∃ handed after, scanner.Passed grammar text sight after handed ∧
      TraceEnd grammar text sight after count handed
        ((grammar.trace count scanner).1.map TokenRecord.span) := by
  induction count generalizing scanner with
  | zero => exact ⟨[], scanner, .refl hs hparked, .full rfl⟩
  | succ count ih =>
    unfold Grammar.trace
    rcases nextToken_cases hcustoms hbegins hs hparked with
      ⟨span, middle, hnext, hoffset, hlength, hpassed⟩ |
      ⟨middle, hnext, hmark, _, hpassed, hstay, hempty, hlength⟩ |
      ⟨_, hnext, hlt, hwithheld, hqueue, _, htries⟩
    · have hrecord : (TokenRecord.of middle span.token).span = span := by
        simp only [TokenRecord.of, TokenRecord.span, hoffset, hlength]
      rw [hnext]
      dsimp only
      split
      · rename_i htoken
        refine ⟨[span], middle, hpassed, ?_⟩
        simp only [List.map_cons, List.map_nil, hrecord]
        refine .named (List.mem_singleton.mpr rfl) ?_
        unfold Token.isEof at htoken
        split at htoken
        · assumption
        · cases htoken
      · obtain ⟨handed, after, hmore, hend⟩ := ih hpassed.sees hpassed.parked_eq
        refine ⟨span :: handed, after, hpassed.trans hmore, ?_⟩
        simp only [List.map_cons, hrecord]
        generalize (grammar.trace count middle).1.map TokenRecord.span = records at hend
        cases hend with
        | full hcount => exact .full (by rw [List.length_cons, hcount])
        | named hmem htoken => exact .named (List.mem_cons_of_mem _ hmem) htoken
        | eof hmark hempty => exact .eof hmark hempty
        | lost hlt hwithheld hempty htries => exact .lost hlt hwithheld hempty htries
    · rw [hnext]
      refine ⟨[], middle, hpassed, ?_⟩
      have hrecord : (TokenRecord.of middle .eof).span = ⟨.eof, middle.tokenOffset, 0⟩ := by
        simp only [TokenRecord.of, TokenRecord.span, hlength]
      simp only [Token.isEof, if_true, List.map_cons, List.map_nil, hrecord]
      exact .eof (hstay.trans (hmark.trans hpassed.rangeEnd_eq.symm)) hempty
    · rw [hnext]
      exact ⟨[], scanner, .refl hs hparked, .lost hlt hwithheld hqueue htries⟩

end RegionScan
