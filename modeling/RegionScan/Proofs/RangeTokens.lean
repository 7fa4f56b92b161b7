-- Tokens and the range that was set last. A range can be set at any time, also while
-- spans of an earlier one are still queued; those are handed out all the same. The
-- law says when every token lies in the range that was set last.
import RegionScan.Proofs.Tilings

namespace RegionScan

/-! ## Sessions of ranges and tokens -/

/-- A grammar with rules of its own alone, which enters no region with the undefined token and
never reports the end of the range itself. -/
structure Grammar.Wellmade (grammar : Grammar) : Prop where
  plain : grammar.Plain
  begins : grammar.BeginsDefined
  lacks_eof : ¬ grammar.Gives .eof

/-- The states between tokens that follow on a state, whatever grammars the tokens are of. -/
inductive TokensFrom (first : Scanner Region) : Scanner Region → Prop
  | same : TokensFrom first first
  | token {scanner : Scanner Region} (grammar : Grammar) : grammar.Wellmade →
    TokensFrom first scanner → TokensFrom first (grammar.nextToken.after scanner)

/-- The states of a session that sets ranges of texts and takes tokens, in any order. -/
inductive RangesAndTokens : Scanner Region → Prop
  | fresh (doc : VersionedText) (settings : Settings) : doc.text.length < maxOffset →
    RangesAndTokens (Scanner.fresh doc.toDocument settings)
  | range {scanner after : Scanner Region} (doc : VersionedText) {offset length : Nat} :
    doc.text.length < maxOffset → RangesAndTokens scanner →
      scanner.assign doc.toDocument offset length = .ok () after → RangesAndTokens after
  | tokens {first scanner : Scanner Region} : RangesAndTokens first → TokensFrom first scanner →
    RangesAndTokens scanner

/-! ## Between two tokens -/

/-- A scanner between two tokens of a text, outside all regions. -/
structure Scanner.BetweenTokens (scanner : Scanner Region) : Prop where
  sees : ∃ text, scanner.Sees text Sight.whole
  parked_eq : scanner.parked = none
  openRegions_eq : scanner.openRegions = []
  lacks_eof : ∀ span ∈ scanner.queue, span.token ≠ .eof

variable {grammar : Grammar} {first scanner : Scanner Region}

namespace Scanner.BetweenTokens

/-- A token is a span that was queued or one of the rest of the range, or the range is used up. In
the queue come only spans of the rest of the range. -/
theorem nextToken (h : scanner.BetweenTokens) (hmade : grammar.Wellmade) :
    ∃ token after, grammar.nextToken scanner = .ok token after ∧ after.BetweenTokens ∧
      after.rangeEnd = scanner.rangeEnd ∧ scanner.mark ≤ after.mark ∧
      (∀ span ∈ after.queue,
        span ∈ scanner.queue ∨ span.Within scanner.mark scanner.rangeEnd) ∧
      (token = .eof ∨ ∃ span, after.tokenOffset = span.offset ∧ after.tokenLength = span.length ∧
        (span ∈ scanner.queue ∨ span.Within scanner.mark scanner.rangeEnd)) := by
  obtain ⟨text, hs⟩ := h.sees
  have howns : grammar.Owns scanner.openRegions := by
    rw [h.openRegions_eq]
    exact fun _ hopened => by cases hopened
  -- All spans there are from here on are queued ones, or those of strides over the range.
  have hpassed : ∀ {after handed}, scanner.Passed grammar text Sight.whole after handed →
      scanner.mark ≤ after.mark ∧ ∀ span ∈ handed ++ after.queue, span.token ≠ .eof ∧
        (span ∈ scanner.queue ∨ span.Within scanner.mark scanner.rangeEnd) := by
    intro after handed hpassed
    obtain ⟨spans, hqueue, hstrides⟩ := hpassed.spans_eq
    obtain ⟨hle, hlast, -⟩ := hstrides.fits hs.mark_le
    refine ⟨hle, fun span hmem => ?_⟩
    rw [← hqueue] at hmem
    rcases List.mem_append.mp hmem with hqueued | hnew
    · exact ⟨h.lacks_eof span hqueued, Or.inl hqueued⟩
    · refine ⟨fun heof => hmade.lacks_eof ?_, Or.inr ?_⟩
      · exact heof ▸ hstrides.gives hmade.plain howns span hnew
      · exact (hstrides.tiles.within hnew).mono (Nat.le_refl _) hlast
  rcases nextToken_cases hmade.plain.customs hmade.begins hs h.parked_eq with
    ⟨span, after, hnext, hoffset, hlength, hwalk⟩ | ⟨after, hnext, -, -, hwalk, -⟩ |
    ⟨-, -, -, hwithheld, -⟩
  · obtain ⟨hle, hspans⟩ := hpassed hwalk
    refine ⟨_, after, hnext, ⟨⟨text, hwalk.sees⟩, hwalk.parked_eq,
      hwalk.openRegions_eq.trans h.openRegions_eq, ?_⟩, hwalk.rangeEnd_eq, hle, ?_,
      Or.inr ⟨span, hoffset, hlength, (hspans span (by simp)).2⟩⟩
    · exact fun other hother => (hspans other (by simp [hother])).1
    · exact fun other hother => (hspans other (by simp [hother])).2
  · obtain ⟨hle, hspans⟩ := hpassed hwalk
    exact ⟨_, after, hnext, ⟨⟨text, hwalk.sees⟩, hwalk.parked_eq,
      hwalk.openRegions_eq.trans h.openRegions_eq, fun span hspan => (hspans span hspan).1⟩,
      hwalk.rangeEnd_eq, hle, fun span hspan => (hspans span hspan).2, Or.inl rfl⟩
  · exact hwithheld.elim

theorem assign {after : Scanner Region} {doc : VersionedText} {offset length : Nat}
    (h : scanner.BetweenTokens) (hsmall : doc.text.length < maxOffset)
    (hassign : scanner.assign doc.toDocument offset length = .ok () after) :
    after.BetweenTokens ∧ after.queue = scanner.queue ∧ after.mark = offset ∧
      after.rangeEnd = offset + length := by
  have hend := (Scanner.assign_eq_ok_iff.mp hassign).1
  obtain ⟨hcurrent, tally, rfl⟩ := Scanner.assign_text hassign
  exact ⟨⟨⟨doc.text, hcurrent, doc.toDocument_shows _ hsmall, Nat.le_add_right _ _, hend⟩,
    h.parked_eq, h.openRegions_eq, h.lacks_eof⟩, rfl, rfl, rfl⟩

theorem tokens (h : first.BetweenTokens) (hlater : TokensFrom first scanner) :
    scanner.BetweenTokens := by
  induction hlater with
  | same => exact h
  | token grammar hmade _ ih =>
    obtain ⟨token, after, hnext, hafter, -⟩ := ih.nextToken hmade
    rwa [Scan.after, hnext]

end Scanner.BetweenTokens

/-- In such a session the scanner is between two tokens all the time. -/
theorem RangesAndTokens.betweenTokens (h : RangesAndTokens scanner) : scanner.BetweenTokens := by
  induction h with
  | fresh doc settings hsmall =>
    exact ⟨⟨doc.text, (OnText.fresh ⟨doc, rfl⟩).current, doc.toDocument_shows _ hsmall,
      Nat.le_refl _, Nat.zero_le _⟩, rfl, rfl, fun _ hspan => by cases hspan⟩
  | range doc hsmall _ hassign ih => exact (ih.assign hsmall hassign).1
  | tokens _ hlater ih => exact ih.tokens hlater

/-! ## Queued spans -/

/-- A grammar without any rules. -/
def Grammar.bare : Grammar := ⟨[], [], [], .undefined⟩

theorem Grammar.bare_wellmade : Grammar.bare.Wellmade := ⟨.of_ids rfl rfl, by decide, by decide⟩

/-- A span that is queued is the next token at some time, if no range is set before. -/
theorem TokensFrom.queued (h : TokensFrom first scanner) {span : Span}
    (hspan : span ∈ scanner.queue) :
    ∃ later rest, TokensFrom first later ∧ later.queue = span :: rest := by
  induction hqueue : scanner.queue generalizing scanner with
  | nil =>
    rw [hqueue] at hspan
    cases hspan
  | cons head rest ih =>
    have hnext := h.token Grammar.bare Grammar.bare_wellmade
    rw [Scan.after, nextToken_queued hqueue] at hnext
    rw [hqueue] at hspan
    rcases List.mem_cons.mp hspan with rfl | hmore
    · exact ⟨scanner, rest, h, hqueue⟩
    · exact ih hnext hmore rfl

/-! ## The law -/

/-- Once a range of a text is set, in a session of ranges and tokens, each token up to the next
range is `eof` or lies in the range if and only if all spans do that are queued when the range is
set. -/
theorem tokens_stay_in_their_range_iff {before first : Scanner Region} {doc : VersionedText}
    {offset length : Nat} (hbefore : RangesAndTokens before) (hsmall : doc.text.length < maxOffset)
    (hassign : before.assign doc.toDocument offset length = .ok () first) :
    (∀ later, TokensFrom first later → ∀ grammar : Grammar, grammar.Wellmade →
      ∃ token after, grammar.nextToken later = .ok token after ∧
        (token = .eof ∨ offset ≤ after.tokenOffset ∧
          after.tokenOffset + after.tokenLength ≤ offset + length)) ↔
      ∀ span ∈ before.queue, span.Within offset (offset + length) := by
  obtain ⟨hfirst, hqueue, hmark, hend⟩ := hbefore.betweenTokens.assign hsmall hassign
  constructor
  · intro htokens span hspan
    obtain ⟨later, rest, hlater, hnext⟩ := TokensFrom.same.queued (hqueue ▸ hspan)
    obtain ⟨token, after, hgiven, hin⟩ := htokens later hlater _ Grammar.bare_wellmade
    cases hgiven.symm.trans (nextToken_queued hnext)
    exact hin.resolve_left ((hfirst.tokens hlater).lacks_eof span (by simp [hnext]))
  · intro hfit later hlater
    -- The mark stays behind the start of the range, and all that comes in the queue lies in it.
    have hrange : later.BetweenTokens ∧ later.rangeEnd = offset + length ∧ offset ≤ later.mark ∧
        ∀ span ∈ later.queue, span.Within offset (offset + length) := by
      induction hlater with
      | same => exact ⟨hfirst, hend, Nat.le_of_eq hmark.symm, hqueue ▸ hfit⟩
      | token grammar hmade _ ih =>
        obtain ⟨hbetween, hend, hmark, hin⟩ := ih
        obtain ⟨token, after, hnext, hafter, hrange, hle, hnew, -⟩ := hbetween.nextToken hmade
        rw [Scan.after, hnext]
        refine ⟨hafter, hrange.trans hend, Nat.le_trans hmark hle, fun span hspan => ?_⟩
        rcases hnew span hspan with hold | hwithin
        · exact hin span hold
        · exact hwithin.mono hmark (Nat.le_of_eq hend)
    intro grammar hmade
    obtain ⟨hbetween, hend, hmark, hin⟩ := hrange
    obtain ⟨token, after, hnext, -, -, -, -, hgiven⟩ := hbetween.nextToken hmade
    refine ⟨token, after, hnext, hgiven.imp_right ?_⟩
    rintro ⟨span, hoffset, hlength, hspan⟩
    rw [hoffset, hlength]
    rcases hspan with hold | hwithin
    · exact hin span hold
    · exact hwithin.mono hmark (Nat.le_of_eq hend)

/-- A scan over `(a)` that has handed out the first bracket. -/
def Scanner.insideBrackets : Scanner Region :=
  Grammar.brackets.nextToken.after .atBracket

theorem Scanner.insideBrackets_queue :
    insideBrackets.queue = [⟨.other "inside", 1, 1⟩, ⟨.other "close", 2, 1⟩] := by
  decide +kernel

theorem Scanner.insideBrackets_reached : RangesAndTokens .insideBrackets := by
  let doc : VersionedText := .ofText ['(', 'a', ')']
  let fresh : Scanner Region := Scanner.fresh doc.toDocument ⟨3, by decide⟩
  have hsmall : doc.text.length < maxOffset := by decide
  have hrange : 0 + 3 ≤ doc.toDocument.length := by decide
  exact .tokens
    (.range doc hsmall (.fresh doc ⟨3, by decide⟩ hsmall) (fresh.assign_withRange hrange))
    (.token _ ⟨Grammar.brackets_plain, Grammar.brackets_begin, Grammar.brackets_lack_eof⟩ .same)

/-- Over a text that is as long, the spans that are still queued lie in the new range. -/
theorem queued_brackets_stay_in_a_long_range :
    ∃ first, RangesAndTokens .insideBrackets ∧
      Scanner.insideBrackets.assign (VersionedText.ofText ['x', 'y', 'z']).toDocument 0 3 =
        .ok () first ∧
      ∀ later, TokensFrom first later → ∀ grammar : Grammar, grammar.Wellmade →
        ∃ token after, grammar.nextToken later = .ok token after ∧
          (token = .eof ∨ 0 ≤ after.tokenOffset ∧
            after.tokenOffset + after.tokenLength ≤ 0 + 3) := by
  let doc : VersionedText := .ofText ['x', 'y', 'z']
  have hrange : 0 + 3 ≤ doc.toDocument.length := by decide
  have hassign := Scanner.insideBrackets.assign_withRange hrange
  refine ⟨_, Scanner.insideBrackets_reached, hassign,
    (tokens_stay_in_their_range_iff Scanner.insideBrackets_reached (by decide) hassign).mpr ?_⟩
  rw [Scanner.insideBrackets_queue]
  simp [Span.Within]

/-- Over a text of one character, the next token is still the inside of the brackets, behind the
end of the range and of the text. -/
theorem a_queued_span_is_handed_out_behind_the_range :
    ∃ first after, RangesAndTokens .insideBrackets ∧
      Scanner.insideBrackets.assign (VersionedText.ofText ['b']).toDocument 0 1 = .ok () first ∧
      first.rangeEnd = 1 ∧
      Grammar.brackets.nextToken first = .ok (.other "inside") after ∧
      after.tokenOffset = 1 ∧ after.tokenLength = 1 := by
  let doc : VersionedText := .ofText ['b']
  have hrange : 0 + 1 ≤ doc.toDocument.length := by decide
  have hassign := Scanner.insideBrackets.assign_withRange hrange
  obtain ⟨-, hqueue, -, hend⟩ :=
    Scanner.insideBrackets_reached.betweenTokens.assign (by decide) hassign
  exact ⟨_, _, Scanner.insideBrackets_reached, hassign, hend,
    nextToken_queued (hqueue.trans Scanner.insideBrackets_queue), rfl, rfl⟩

end RegionScan
