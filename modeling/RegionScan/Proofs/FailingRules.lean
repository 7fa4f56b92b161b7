-- Tokens that fail. A rule of the host that fails leaves the text before it tiled by spans in
-- the queue. The mark is behind them, unless the rule stood in a block: a block that is left puts
-- the mark behind its end, also where its inside has failed, and the rest of it is skipped.
import RegionScan.Proofs.RuleFailures
import RegionScan.Proofs.TokenBounds
import RegionScan.Proofs.WindowLaws

namespace RegionScan

variable {grammar : Grammar} {text : Text} {scanner after : Scanner Region} {error : ScanError}

/-! ## Tokens -/

/-- Over a text a token fails with a rule of the host only. -/
theorem nextToken_strands (hcustoms : grammar.FailsInPlace) (hbegins : grammar.BeginsDefined)
    (hs : scanner.Sees text .whole) (hparked : scanner.parked = none) (hqueue : scanner.queue = [])
    (h : grammar.nextToken scanner = .error (.failed error) after) :
    scanner.tokenStarted.StrandedFrom grammar scanner.mark error after := by
  have hsfirst := hs.tokenStarted
  have htries := tryRules_strands hcustoms (attempt_strands hcustoms hbegins) none
    grammar.rules hsfirst hparked rfl (Nat.le_refl scanner.mark) fun _ => rfl
  rcases htry : grammar.tryAll scanner.mark scanner.tokenStarted with
    ⟨⟨claimed, left⟩, tried⟩ | ⟨halt, tried⟩
  · have htried : scanner.tokenStarted.Tried scanner.mark scanner.mark (claimed, left) tried :=
      htries.ok htry
    cases htried with
    | claimed passage hafter _ hforward htiles =>
      obtain ⟨span, rest, hspans⟩ := List.exists_cons_of_ne_nil (htiles.ne_nil hforward)
      cases h.symm.trans (nextToken_claimed hqueue htry (hafter.queue_eq.trans hspans))
    | unclaimed hwalked =>
      obtain ⟨char, read, hread, -, hnone⟩ := read_leads (hwalked.sees hsfirst hs.mark_le)
      rcases char with _ | c
      · -- Over a text there is no character only at the end of the range.
        obtain ⟨hover, hback⟩ := hnone rfl
        have hnext := nextToken_none hqueue htry hread
        have hend : ¬ tried.mark < read.stepBack.rangeEnd := by
          rw [hback.rangeEnd_eq]
          exact Nat.not_lt_of_le (hover.resolve_right id)
        rw [if_neg hend] at hnext
        cases h.symm.trans hnext
      · cases h.symm.trans (nextToken_char hqueue htry hread)
  · cases h.symm.trans (nextToken_stopped hqueue htry)
    exact htries.failed htry

/-- So many tokens are handed out from the queue, and the mark stays where it is. -/
theorem behind_queued {count : Nat} (hcount : count ≤ scanner.queue.length) :
    (grammar.behind count scanner).queue = scanner.queue.drop count ∧
      (grammar.behind count scanner).mark = scanner.mark := by
  induction count generalizing scanner with
  | zero => exact ⟨rfl, rfl⟩
  | succ count ih =>
    rcases hqueue : scanner.queue with _ | ⟨span, rest⟩
    · rw [hqueue] at hcount
      exact absurd hcount (Nat.not_succ_le_zero _)
    · unfold Grammar.behind
      rw [Scan.after, nextToken_queued hqueue]
      rw [hqueue] at hcount
      exact ih (Nat.le_of_succ_le_succ hcount)

/-! ## The law -/

/-- Over a text, where nothing is queued and nothing parked, a token fails only with a rule of the
host, in the state `inner`. The spans that are queued then tile the text from the start of the token
to where that rule stood, and they are handed out before the scan goes on at the mark. They tile the
text up to the mark if and only if the mark is where the rule stood, and so it is wherever no block
was open around it. Else the mark is where the range begins that was saved for the outermost of the
blocks. -/
theorem a_failure_leaves_the_text_before_it_tiled {settings : Settings}
    (hreached : Reached IsText settings scanner) {doc : VersionedText}
    (hdocument : scanner.document = doc.toDocument) (hsmall : doc.text.length < maxOffset)
    (hmark : scanner.mark ≤ scanner.rangeEnd) (hend : scanner.rangeEnd ≤ doc.text.length)
    (hqueue : scanner.queue = []) (hparked : scanner.parked = none)
    (hcustoms : grammar.FailsInPlace) (hbegins : grammar.BeginsDefined)
    (h : grammar.nextToken scanner = .error (.failed error) after) :
    ∃ inner opened saved,
      scanner.tokenStarted.Stranded grammar scanner.mark error after inner opened saved ∧
      after.tokenStart = scanner.mark ∧ Tiles after.tokenStart inner.mark after.queue ∧
      (∀ count, count ≤ after.queue.length →
        (grammar.behind count after).queue = after.queue.drop count ∧
          (grammar.behind count after).mark = after.mark) ∧
      (Tiles after.tokenStart after.mark after.queue ↔ after.mark = inner.mark) ∧
      ((∀ region ∈ opened, region.embedded = false) → after.mark = inner.mark) := by
  have hs : scanner.Sees doc.text .whole :=
    ⟨hreached.onText.current, hdocument ▸ doc.toDocument_shows _ hsmall, hmark, hend⟩
  obtain ⟨inner, opened, saved, hstranded⟩ :=
    nextToken_strands hcustoms hbegins hs hparked hqueue h
  obtain ⟨spans, hwalked, htiles⟩ := hstranded.walked
  have hstart : after.tokenStart = scanner.mark := hwalked.token_eq.1
  have hspans : after.queue = spans := hwalked.queue_eq
  have htiled : Tiles after.tokenStart inner.mark after.queue := by
    rw [hstart, hspans]
    exact htiles
  refine ⟨inner, opened, saved, hstranded, hstart, htiled, fun _ => behind_queued, ?_, ?_⟩
  · constructor
    · exact fun hmarked => hmarked.stop_unique htiled
    · intro hplace
      rw [hplace]
      exact htiled
  · intro hopen
    have hnone : saved = [] := by
      rw [← List.length_eq_zero_iff, hstranded.saved_length, List.countP_eq_zero]
      exact fun region hregion => by simp [hopen region hregion]
    rw [hstranded.mark_eq, hnone]
    rfl

/-- A rule with fixed steps that fails does so where it stands. -/
theorem FixedRule.toCustom_failsInPlace {rule : FixedRule} (hfails : rule.fails = true) :
    rule.toCustom.FailsInPlace := by
  constructor
  · exact fun scanner hs => Scan.Leads.get (Scan.Leads.pure hs.stays)
  · intro scanner hs _ hparked
    apply Scan.Ensures.get
    rw [if_pos hfails]
    exact Scan.Ensures.bind (hparked ▸ hs.stays)

/-- Round brackets, as a region or as a block, in which a rule of the host fails. -/
def Grammar.stopping (embedded : Bool) : Grammar where
  regions := [{ Region.brackets 0 '(' ')' with rules := [.custom 0], embedded }]
  customs := [(FixedRule.mk .whitespace 1 true true).toCustom]
  rules := [.region 0]
  defaultToken := .other "outside"

theorem Grammar.stopping_fails (embedded : Bool) : (Grammar.stopping embedded).FailsInPlace := by
  intro custom hmem
  obtain rfl := List.mem_singleton.mp hmem
  exact FixedRule.toCustom_failsInPlace rfl

theorem Grammar.stopping_begins (embedded : Bool) :
    (Grammar.stopping embedded).BeginsDefined := by
  cases embedded <;> decide

/-- In brackets that are a region the spans end at the mark. -/
theorem a_failure_in_a_region_leaves_all_text_tiled :
    ∃ after, Reached IsText ⟨3, by decide⟩ .atBracket ∧
      (Grammar.stopping false).nextToken .atBracket = .error (.failed (.unreadable 1)) after ∧
      after.mark = 1 ∧ Tiles after.tokenStart after.mark after.queue := by
  have hresult : (Grammar.stopping false).nextToken.result .atBracket =
      .error (.failed (.unreadable 1)) := by decide +kernel
  obtain ⟨after, hfails, hmark⟩ : ∃ after, (Grammar.stopping false).nextToken .atBracket =
      .error (.failed (.unreadable 1)) after ∧ after.mark = 1 :=
    ⟨_, Scan.result_eq_error.mp hresult, by decide +kernel⟩
  obtain ⟨inner, opened, saved, hstranded, -, -, -, htiled, hopen⟩ :=
    a_failure_leaves_the_text_before_it_tiled Scanner.atBracket_reached
      (show _ = (VersionedText.ofText ['(', 'a', ')']).toDocument from rfl) (by decide) (by decide)
      (by decide) rfl rfl (Grammar.stopping_fails false) (Grammar.stopping_begins false) hfails
  have hopened : ∀ region ∈ opened, region.embedded = false := by
    intro region hregion
    rw [List.mem_singleton.mp (hstranded.opened_mem region hregion)]
  exact ⟨after, Scanner.atBracket_reached, hfails, hmark, htiled.mpr (hopen hopened)⟩

/-- In brackets that are a block the mark is behind them, while the spans end where the rule stood:
the rest of the block is never handed out. -/
theorem a_failure_in_a_block_leaves_text_untiled :
    ∃ after, Reached IsText ⟨3, by decide⟩ .atBracket ∧ Scanner.atBracket.mark = 0 ∧
      Scanner.atBracket.rangeEnd = 3 ∧ Scanner.atBracket.queue = [] ∧
      Scanner.atBracket.parked = none ∧
      (Grammar.stopping true).FailsInPlace ∧ (Grammar.stopping true).BeginsDefined ∧
      ¬ (Grammar.stopping true).Gives .eof ∧
      (Grammar.stopping true).nextToken .atBracket = .error (.failed (.unreadable 1)) after ∧
      after.tokenStart = 0 ∧ after.mark = 3 ∧ after.queue = [⟨.other "open", 0, 1⟩] ∧
      ¬ Tiles after.tokenStart after.mark after.queue := by
  have hresult : (Grammar.stopping true).nextToken.result .atBracket =
      .error (.failed (.unreadable 1)) := by decide +kernel
  obtain ⟨after, hfails, hstart, hmark, hqueue⟩ : ∃ after,
      (Grammar.stopping true).nextToken .atBracket = .error (.failed (.unreadable 1)) after ∧
      after.tokenStart = 0 ∧ after.mark = 3 ∧ after.queue = [⟨.other "open", 0, 1⟩] :=
    ⟨_, Scan.result_eq_error.mp hresult, by decide +kernel, by decide +kernel, by decide +kernel⟩
  refine ⟨after, Scanner.atBracket_reached, rfl, rfl, rfl, rfl, Grammar.stopping_fails true,
    Grammar.stopping_begins true, by decide, hfails, hstart, hmark, hqueue, ?_⟩
  rw [hstart, hmark, hqueue]
  rintro ⟨-, -, hrest⟩
  exact absurd (show 0 + 1 = 3 from hrest) (by decide)

end RegionScan
