-- What a scan leaves behind, whatever its document refuses. Rules go forward, and
-- where none of them claims text they leave the queue and the parked end as they
-- were. So a scan that has come to its end, or to a character that cannot be read,
-- leaves nothing queued and nothing parked.
import RegionScan.Proofs.Stacks
import RegionScan.Proofs.TokenBounds

namespace RegionScan

/-- The error is not that a character cannot be read. -/
def BesidesReading (error : ScanError) (_ : Scanner Region) : Prop :=
  ∀ offset, error ≠ .unreadable offset

/-! ## States further on -/

/-- The second state is further on: the mark has gone forward, spans with tokens of the grammar
were queued, and the stacks are the same. -/
structure Scanner.Onward (grammar : Grammar) (scanner after : Scanner Region) : Prop where
  same : scanner.SameStacks after
  mark_le : scanner.mark ≤ after.mark
  queue : ∃ spans, after.queue = scanner.queue ++ spans ∧ grammar.GivesAll spans

/-- An end that is parked is that of one of these regions, at the mark. -/
def Scanner.Waits (scanner : Scanner Region) (openRegions : List Region) : Prop :=
  ∀ waiting, scanner.parked = some waiting →
    waiting.Fits openRegions scanner.mark scanner.rangeEnd

variable {grammar : Grammar} {attempt : Rule → RuleScan Token} {region : Region}
  {outer : List Region} {scanner middle after : Scanner Region}

namespace Scanner.Onward

theorem refl (scanner : Scanner Region) : scanner.Onward grammar scanner :=
  ⟨⟨rfl, rfl, rfl⟩, Nat.le_refl _, [], by simp, by simp [Grammar.GivesAll]⟩

theorem trans (h : scanner.Onward grammar middle) (hmore : middle.Onward grammar after) :
    scanner.Onward grammar after := by
  obtain ⟨spans, hspans, hgive⟩ := h.queue
  obtain ⟨more, hmoreSpans, hmoreGive⟩ := hmore.queue
  refine ⟨h.same.trans hmore.same, Nat.le_trans h.mark_le hmore.mark_le, spans ++ more, ?_,
    givesAll_append.mpr ⟨hgive, hmoreGive⟩⟩
  rw [hmoreSpans, hspans, List.append_assoc]

/-- To a later mark, but for what lookups leave behind. -/
theorem moved {mark lastMatch : Nat} (hle : scanner.mark ≤ mark) (cache : Cache) :
    scanner.Onward grammar ({ scanner with mark, lastMatch }.withCache cache) :=
  ⟨⟨rfl, rfl, rfl⟩, hle, [], (List.append_nil _).symm, by simp [Grammar.GivesAll]⟩

theorem queued {spans : List Span} (h : grammar.GivesAll spans) :
    scanner.Onward grammar { scanner with queue := scanner.queue ++ spans } :=
  ⟨⟨rfl, rfl, rfl⟩, Nat.le_refl _, spans, rfl, h⟩

end Scanner.Onward

/-! ## Lookups -/

theorem matchAtMark_brings (pattern : Pattern) (scanner : Scanner Region) :
    (matchAtMark pattern).Ensures scanner (fun found after =>
      (∀ length, found = some length → scanner.mark + length ≤ scanner.rangeEnd) ∧
        ∃ cache, after = scanner.withCache cache) BesidesReading := by
  rcases matchAtMark_cached pattern scanner with ⟨found, cache, hmatch, hlength⟩ | ⟨after, hmatch⟩
  · exact .of_ok hmatch ⟨hlength, cache, rfl⟩
  · exact .of_fault hmatch

theorem claimAtMark_brings (pattern : Pattern) (scanner : Scanner Region) :
    (claimAtMark pattern).Ensures scanner (fun found after =>
      (∀ length, found = some length → 0 < length ∧ scanner.mark + length ≤ scanner.rangeEnd) ∧
        ∃ cache, after = scanner.withCache cache) BesidesReading := by
  apply Scan.Ensures.bind
  apply (matchAtMark_brings pattern scanner).weaken
  rintro found _ ⟨hlength, hcache⟩
  refine .pure ⟨fun length hfound => ?_, hcache⟩
  obtain ⟨hfound, hpos⟩ := Option.filter_eq_some_iff.mp hfound
  exact ⟨of_decide_eq_true hpos, hlength length hfound⟩

theorem firstEnd_brings (regions : List Region) (scanner : Scanner Region) :
    (firstEnd regions).Ensures scanner (fun found after =>
      (∀ region length, found = some (region, length) →
        region ∈ endable regions ∧ scanner.mark + length ≤ scanner.rangeEnd) ∧
        ∃ cache, after = scanner.withCache cache) BesidesReading := by
  have hstays : ∃ cache, scanner = scanner.withCache cache :=
    ⟨scanner.cache, rfl⟩
  induction regions generalizing scanner with
  | nil => exact .pure ⟨by simp, hstays⟩
  | cons region outer ih =>
    unfold firstEnd
    split
    · exact .pure ⟨by simp, hstays⟩
    · rename_i hopen
      simp only [Bool.not_eq_true] at hopen
      rw [endable_open hopen]
      apply Scan.Ensures.bind
      apply (matchAtMark_brings region.endPattern scanner).weaken
      rintro own _ ⟨hown, cache, rfl⟩
      rcases own with _ | length
      · apply (ih (scanner.withCache cache) ⟨cache, rfl⟩).weaken
        rintro found _ ⟨hfound, cache', rfl⟩
        refine ⟨fun outer length hsome => ?_, cache', rfl⟩
        obtain ⟨hmem, hle⟩ := hfound outer length hsome
        exact ⟨List.mem_cons_of_mem _ hmem, hle⟩
      · refine .pure ⟨fun other found hfound => ?_, cache, rfl⟩
        cases hfound
        exact ⟨List.mem_cons_self, hown length rfl⟩

/-! ## Moving and reporting -/

theorem endMatchAt_brings (stop : Nat) (scanner : Scanner Region) :
    (endMatchAt stop).Ensures scanner (fun _ after =>
      ∃ cache, after = { scanner with mark := stop, lastMatch := stop }.withCache cache)
      BesidesReading := by
  obtain ⟨cache, hmove⟩ := scanner.moveTo_cached stop
  apply Scan.Ensures.changed
  rw [hmove]
  exact ⟨cache, rfl⟩

theorem read_brings (scanner : Scanner Region) :
    Scanner.read.Ensures scanner (fun _ after =>
      ∃ cache, after = { scanner with mark := scanner.mark + 1 }.withCache cache)
      BesidesReading := by
  rcases scanner.read_cached with ⟨char, cache, hread⟩ | hread
  · exact .of_ok hread ⟨cache, rfl⟩
  · exact .of_fault hread

theorem stepBack_brings (scanner : Scanner Region) :
    (modify Scanner.stepBack : RuleScan Unit).Ensures scanner (fun _ after =>
      ∃ cache, after = { scanner with mark := scanner.mark - 1 }.withCache cache)
      BesidesReading := by
  obtain ⟨cache, hback⟩ := scanner.stepBack_cached
  exact .changed ⟨cache, hback⟩

theorem report_brings (token : Token) (offset length : Nat) (scanner : Scanner Region) :
    (report token offset length).Ensures scanner (fun _ after =>
      after = { scanner with queue := scanner.queue ++ piece ⟨token, offset, length⟩ })
      BesidesReading := by
  unfold report piece
  dsimp only
  split
  · exact .changed rfl
  · exact .pure (by rw [List.append_nil])

/-- Content is reported as one span at most, and nothing is where there is no region. -/
theorem reportContent_brings {content : Option Token}
    (hcontent : ∀ token, content = some token → grammar.Gives token) (pending here : Nat)
    (scanner : Scanner Region) :
    (reportContent content pending here).Ensures scanner (fun _ after => ∃ spans,
      after = { scanner with queue := scanner.queue ++ spans } ∧ grammar.GivesAll spans ∧
        (content = none → spans = [])) BesidesReading := by
  rcases content with _ | token
  · exact .pure ⟨[], by rw [List.append_nil], by simp [Grammar.GivesAll], fun _ => rfl⟩
  · refine .bind (.difference fun _ => .bind ((report_brings _ _ _ _).weaken ?_))
    rintro _ _ rfl
    exact .pure ⟨_, rfl, givesAll_piece (hcontent token rfl), by simp⟩

/-! ## Trying rules -/

/-- What one rule leaves behind. Where it claims nothing, that is nothing. -/
structure LeftByRule (grammar : Grammar) (scanner : Scanner Region) (token : Token)
    (after : Scanner Region) : Prop where
  onward : scanner.Onward grammar after
  waits : after.Waits scanner.openRegions
  rejected : token = .undefined → after.queue = scanner.queue ∧ after.parked = none
  claimed : token ≠ .undefined → scanner.mark < after.mark ∧ grammar.Gives token

/-- The ends of the open regions have tokens of the grammar. -/
def Grammar.Closes (grammar : Grammar) (openRegions : List Region) : Prop :=
  ∀ region ∈ openRegions, grammar.Gives region.endToken

/-- The rules have tokens of the grammar. -/
def Grammar.GivesRules (grammar : Grammar) (rules : List Rule) : Prop :=
  ∀ rule ∈ rules, ∀ token, rule.token? = some token → grammar.Gives token

/-- That is what any rule leaves behind where nothing is parked. -/
def RulesLeave (grammar : Grammar) (attempt : Rule → RuleScan Token) : Prop :=
  ∀ (rule : Rule) (scanner : Scanner Region),
    (∀ token, rule.token? = some token → grammar.Gives token) → scanner.parked = none →
      grammar.Closes scanner.openRegions →
        (attempt rule).Ensures scanner (LeftByRule grammar scanner) BesidesReading

/-- A rule that does not start here leaves nothing. -/
theorem LeftByRule.nothing (hparked : scanner.parked = none) (cache : Cache) :
    LeftByRule grammar scanner .undefined (scanner.withCache cache) where
  onward := .moved (Nat.le_refl _) cache
  waits := fun _ hwaiting => by cases hparked.symm.trans hwaiting
  rejected := fun _ => ⟨rfl, hparked⟩
  claimed := fun hdefined => absurd rfl hdefined

theorem mayStart_brings (hcustoms : grammar.customs = []) (rule : Rule)
    (scanner : Scanner Region) :
    (grammar.mayStart rule).Ensures scanner (fun _ after =>
      ∃ cache, after = scanner.withCache cache) BesidesReading := by
  have hstays : ∃ cache, scanner = scanner.withCache cache :=
    ⟨scanner.cache, rfl⟩
  have hclaim : ∀ pattern, (do return (← claimAtMark pattern).isSome : RuleScan Bool).Ensures
      scanner (fun _ after => ∃ cache, after = scanner.withCache cache)
      BesidesReading := fun pattern =>
    .bind ((claimAtMark_brings pattern scanner).weaken fun _ _ h => .pure h.2)
  unfold Grammar.mayStart
  rcases rule with ⟨pattern, token⟩ | id | index
  · exact hclaim pattern
  · dsimp only
    rcases grammar.regions[id]? with _ | region
    · exact .pure hstays
    · exact hclaim region.beginPattern
  · simp only [hcustoms, List.getElem?_nil]
    exact .pure hstays

/-- What rules tried in order at an offset leave behind. -/
structure LeftByRules (grammar : Grammar) (content : Option Token) (here : Nat)
    (scanner : Scanner Region) (result : Option Token × Nat) (after : Scanner Region) : Prop where
  onward : scanner.Onward grammar after
  unclaimed : result.1 = none → after.mark = here ∧ after.parked = none ∧
    (content = none → after.queue = scanner.queue)
  claimed : ∀ token, result.1 = some token →
    grammar.Gives token ∧ after.Waits scanner.openRegions

theorem tryRules_brings (hcustoms : grammar.customs = []) (hattempt : RulesLeave grammar attempt)
    {content : Option Token} (hcontent : ∀ token, content = some token → grammar.Gives token)
    {here : Nat} {rules : List Rule} (hrules : grammar.GivesRules rules) (pending : Nat)
    (scanner : Scanner Region) (hparked : scanner.parked = none) (hmark : scanner.mark = here)
    (hcloses : grammar.Closes scanner.openRegions) :
    (tryRules grammar.mayStart attempt content here rules pending).Ensures scanner
      (LeftByRules grammar content here scanner) BesidesReading := by
  induction rules generalizing scanner pending with
  | nil =>
    exact .pure ⟨.refl scanner, fun _ => ⟨hmark, hparked, fun _ => rfl⟩, by simp⟩
  | cons rule rest ih =>
    have hrest : grammar.GivesRules rest :=
      fun rule hmem => hrules rule (List.mem_cons_of_mem _ hmem)
    -- Behind steps that lead back to the offset with nothing parked the other rules are tried.
    have hgoOn : ∀ (back : Scanner Region) (left : Nat), scanner.Onward grammar back →
        back.parked = none → back.mark = here → (content = none → back.queue = scanner.queue) →
          (tryRules grammar.mayStart attempt content here rest left).Ensures back
            (LeftByRules grammar content here scanner) BesidesReading := by
      intro back left hback hbackParked hbackMark hbackQueue
      have hregions := hback.same.openRegions
      apply (ih hrest left back hbackParked hbackMark (hregions ▸ hcloses)).weaken
      intro result after h
      refine ⟨hback.trans h.onward, fun hnone => ?_, fun token htoken => ?_⟩
      · obtain ⟨hto, hnothing, hqueue⟩ := h.unclaimed hnone
        exact ⟨hto, hnothing, fun hcontent => (hqueue hcontent).trans (hbackQueue hcontent)⟩
      · rw [← hregions]
        exact h.claimed token htoken
    unfold tryRules
    apply Scan.Ensures.bind
    apply (mayStart_brings hcustoms rule scanner).weaken
    rintro starts _ ⟨cache, rfl⟩
    split
    · exact hgoOn _ _ (.moved (Nat.le_refl _) cache) hparked hmark fun _ => rfl
    · apply Scan.Ensures.bind
      apply (reportContent_brings hcontent pending here _).weaken
      rintro left _ ⟨spans, rfl, hgive, hnone⟩
      have hflushed : scanner.Onward grammar
          { scanner.withCache cache with queue := scanner.queue ++ spans } :=
        .trans (.moved (Nat.le_refl _) cache) (.queued hgive)
      have hflushedQueue : content = none → scanner.queue ++ spans = scanner.queue := fun h => by
        rw [hnone h, List.append_nil]
      have htried := hattempt rule { scanner.withCache cache with queue := scanner.queue ++ spans }
        (hrules rule List.mem_cons_self) hparked hcloses
      refine .get (.bind (htried.weaken fun token after h => .get ?_))
      have hall := hflushed.trans h.onward
      by_cases hreject : (token.isUndefined || decide (after.mark ≤ here)) = true
      · -- The rule comes to nothing, and the mark goes back.
        rw [if_pos hreject]
        have hundefined : token = .undefined := by
          by_contra hdefined
          have hforward : scanner.mark < after.mark := (h.claimed hdefined).1
          rw [hmark] at hforward
          rcases Bool.or_eq_true_iff.mp hreject with hundefined | hback
          · cases token <;> simp_all [Token.isUndefined]
          · exact absurd hforward (Nat.not_lt_of_le (of_decide_eq_true hback))
        obtain ⟨hqueue, hnothing⟩ := h.rejected hundefined
        obtain ⟨cache', hmove⟩ := after.moveTo_cached here
        refine .bind (.changed ?_)
        rw [hmove]
        refine hgoOn _ _ ⟨hall.same.trans ⟨rfl, rfl, rfl⟩, Nat.le_of_eq hmark, spans, hqueue,
          hgive⟩ hnothing rfl fun hcontent => hqueue.trans (hflushedQueue hcontent)
      · rw [if_neg hreject]
        have hgives : grammar.Gives token := by
          refine (h.claimed fun hundefined => hreject ?_).2
          rw [hundefined]
          rfl
        dsimp only
        split
        · refine .bind (.difference fun _ => .bind ((report_brings token here _ after).weaken ?_))
          rintro _ _ rfl
          refine .pure ⟨hall.trans (.queued (givesAll_piece hgives)), by simp,
            fun other hother => ?_⟩
          cases hother
          exact ⟨hgives, h.waits⟩
        · refine .pure ⟨hall, by simp, fun other hother => ?_⟩
          cases hother
          exact ⟨hgives, h.waits⟩

/-! ## Turns inside a region -/

theorem contentTurn_brings {token : Token} (htoken : grammar.Gives token) (pending : Nat)
    (scanner : Scanner Region) :
    (contentTurn token pending).Ensures scanner (fun _ after =>
      scanner.Onward grammar after ∧ after.parked = scanner.parked) BesidesReading := by
  apply Scan.Ensures.bind
  apply (read_brings scanner).weaken
  rintro char _ ⟨cache, rfl⟩
  rcases char with _ | c
  · apply Scan.Ensures.bind
    apply (stepBack_brings _).weaken
    rintro _ _ ⟨cache', rfl⟩
    refine .get (.bind ?_)
    have hgives : ∀ other, some token = some other → grammar.Gives other := by
      rintro other ⟨⟩
      exact htoken
    apply (reportContent_brings hgives pending _ _).weaken
    rintro _ _ ⟨spans, rfl, hgive, _⟩
    exact .pure ⟨⟨⟨rfl, rfl, rfl⟩, Nat.le_refl scanner.mark, spans, rfl, hgive⟩, rfl⟩
  · exact .pure ⟨.moved (Nat.le_succ _) cache, rfl⟩

theorem Grammar.GivesRules.of_region (hregion : region ∈ grammar.regions) :
    grammar.GivesRules region.rules := by
  intro rule hrule token htoken
  obtain ⟨pattern, rfl⟩ := Rule.token?_eq_some.mp htoken
  exact .inner hregion hrule

/-- An end that waits for this region is taken, and any other one is left. -/
theorem takeParked_brings {waiting : ParkedEnd Region} (hopen : region.embedded = false)
    (hparked : scanner.parked = some waiting) (hwaits : scanner.Waits (region :: outer))
    (hcloses : grammar.Closes (region :: outer)) :
    (takeParked region waiting).Ensures scanner (fun _ after =>
      scanner.Onward grammar after ∧ after.Waits outer) BesidesReading := by
  have hfits := hwaits waiting hparked
  unfold takeParked
  split
  · have hdelimiter : grammar.Gives waiting.delimiter.token := by
      rw [hfits.delimiter_eq]
      exact hcloses _ (List.takeWhile_subset _ hfits.mem)
    have hend : ∀ spans, grammar.GivesAll spans → (endMatchAt waiting.stop).Ensures
        { scanner.unpark with queue := scanner.queue ++ spans } (fun _ after =>
          scanner.Onward grammar after ∧ after.Waits outer) BesidesReading := by
      intro spans hgive
      apply (endMatchAt_brings waiting.stop _).weaken
      rintro _ _ ⟨cache, rfl⟩
      have hle : scanner.mark ≤ waiting.stop := hfits.start_eq ▸ hfits.start_le
      exact ⟨⟨⟨rfl, rfl, rfl⟩, hle, spans, rfl, hgive⟩, fun _ h => by cases h⟩
    refine .bind (.changed ?_)
    split
    · refine .bind (.changed (hend [waiting.delimiter] ?_))
      intro span hspan
      rw [List.mem_singleton.mp hspan]
      exact hdelimiter
    · have hsame := hend [] (by simp [Grammar.GivesAll])
      rwa [List.append_nil] at hsame
  · rename_i hid
    refine .pure ⟨.refl scanner, fun other hother => ?_⟩
    cases hparked.symm.trans hother
    exact hfits.further hopen hid

theorem park_brings (waiting : ParkedEnd Region) (hparked : scanner.parked = none) :
    (Scanner.park waiting).Ensures scanner (fun _ after =>
      after = { scanner with parked := some waiting }) BesidesReading := by
  apply Scan.Ensures.get
  rw [hparked]
  exact .changed rfl

theorem regionTurn_brings (hcustoms : grammar.customs = []) (hattempt : RulesLeave grammar attempt)
    (hregion : region ∈ grammar.regions) (hopen : region.embedded = false) (pending : Nat)
    (scanner : Scanner Region) (hparked : scanner.parked = none)
    (hregions : scanner.openRegions = region :: outer) (hcloses : grammar.Closes outer) :
    (regionTurn grammar attempt region pending).Ensures scanner (fun next after =>
      scanner.Onward grammar after ∧ (next ≠ none → after.parked = none) ∧
        (next = none → after.Waits outer)) BesidesReading := by
  have hcontent : ∀ token, some region.contentToken = some token → grammar.Gives token := by
    rintro token ⟨⟩
    exact .content hregion
  have hclosesAll : grammar.Closes (region :: outer) := by
    intro opened hopened
    rcases List.mem_cons.mp hopened with rfl | hopened
    · exact .ends hregion
    · exact hcloses opened hopened
  refine .get (.bind ((matchAtMark_brings region.endPattern scanner).weaken ?_))
  rintro own _ ⟨hown, cache, rfl⟩
  rcases own with _ | length
  · apply Scan.Ensures.bind
    unfold outerEnd
    apply Scan.Ensures.get
    rw [show (scanner.withCache cache).openRegions = region :: outer from hregions]
    apply (firstEnd_brings outer _).weaken
    rintro found _ ⟨hfound, cache', rfl⟩
    rcases found with _ | ⟨found, length⟩
    · -- Nothing ends here, so the rules have their turn.
      apply Scan.Ensures.bind
      have hregions' : ((scanner.withCache cache).withCache cache').openRegions =
        region :: outer := hregions
      apply (tryRules_brings hcustoms hattempt hcontent (.of_region hregion) pending
        ((scanner.withCache cache).withCache cache') hparked rfl (hregions' ▸ hclosesAll)).weaken
      rintro ⟨claimed, left⟩ tried htried
      have hall : scanner.Onward grammar tried :=
        .trans (.moved (Nat.le_refl _) cache') htried.onward
      rcases claimed with _ | token
      · obtain ⟨_, hnothing, _⟩ := htried.unclaimed rfl
        dsimp only
        rw [Option.isSome_none, if_neg (by decide)]
        apply (contentTurn_brings (.content hregion) left tried).weaken
        intro next after h
        have hcalm := h.2.trans hnothing
        exact ⟨hall.trans h.1, fun _ => hcalm, fun _ _ hwaiting => by
          cases hcalm.symm.trans hwaiting⟩
      · obtain ⟨_, hwaits⟩ := htried.claimed token rfl
        rw [hregions'] at hwaits
        dsimp only
        rw [Option.isSome_some, if_pos rfl]
        apply Scan.Ensures.get
        rcases htriedParked : tried.parked with _ | waiting
        · exact .get (.pure ⟨hall, fun _ => htriedParked, by simp⟩)
        · apply Scan.Ensures.bind
          apply (takeParked_brings hopen htriedParked hwaits hclosesAll).weaken
          intro _ after h
          exact .pure ⟨hall.trans h.1, by simp, fun _ => h.2⟩
    · -- The end of a region around it is parked.
      obtain ⟨hmem, hlength⟩ := hfound found length rfl
      apply Scan.Ensures.bind
      apply (reportContent_brings hcontent pending scanner.mark _).weaken
      rintro _ _ ⟨spans, rfl, hgive, _⟩
      refine .bind (.sum (.bind (.weaken (park_brings _ ?_) ?_)))
      · exact hparked
      rintro _ _ rfl
      refine .pure ⟨⟨⟨rfl, rfl, rfl⟩, Nat.le_refl _, spans, rfl, hgive⟩, by simp, fun _ => ?_⟩
      rintro waiting ⟨⟩
      exact ⟨rfl, Nat.le_add_right _ _, hlength, hmem, by simp⟩
  · -- The region itself ends here.
    apply Scan.Ensures.bind
    apply (reportContent_brings hcontent pending scanner.mark _).weaken
    rintro _ _ ⟨spans, rfl, hgive, _⟩
    apply Scan.Ensures.bind
    apply (report_brings region.endToken scanner.mark length _).weaken
    rintro _ _ rfl
    refine .bind (.sum (.bind ((endMatchAt_brings _ _).weaken ?_)))
    rintro _ _ ⟨cache', rfl⟩
    refine .pure ⟨⟨⟨rfl, rfl, rfl⟩, Nat.le_add_right _ _, _, List.append_assoc _ _ _,
      givesAll_append.mpr ⟨hgive, givesAll_piece (.ends hregion)⟩⟩, by simp, fun _ _ h => ?_⟩
    cases hparked.symm.trans h

theorem scanRegion_brings (hcustoms : grammar.customs = []) (hattempt : RulesLeave grammar attempt)
    (hregion : region ∈ grammar.regions) (hopen : region.embedded = false) (turns pending : Nat)
    (scanner : Scanner Region) (hparked : scanner.parked = none)
    (hregions : scanner.openRegions = region :: outer) (hcloses : grammar.Closes outer) :
    (scanRegion grammar attempt region turns pending).Ensures scanner (fun _ after =>
      scanner.Onward grammar after ∧ after.Waits outer) BesidesReading := by
  induction turns generalizing scanner pending with
  | zero => exact .fault _
  | succ turns ih =>
    rw [scanRegion_succ]
    apply Scan.Ensures.bind
    apply (regionTurn_brings hcustoms hattempt hregion hopen pending scanner hparked hregions
      hcloses).weaken
    intro next after h
    rcases next with _ | left
    · exact .pure ⟨h.1, h.2.2 rfl⟩
    · apply (ih left after (h.2.1 (by simp)) (h.1.same.openRegions.trans hregions)).weaken
      intro _ final hfinal
      exact ⟨h.1.trans hfinal.1, hfinal.2⟩

/-! ## Turns inside a block -/

theorem findBlockEnd_brings (region : Region) (turns : Nat) (scanner : Scanner Region) :
    (findBlockEnd region turns).Ensures scanner (fun result after => scanner.mark ≤ result.1 ∧
      ∃ mark cache, after = { scanner with mark }.withCache cache) BesidesReading := by
  induction turns generalizing scanner with
  | zero => exact .fault _
  | succ turns ih =>
    refine .get (.bind ((matchAtMark_brings region.endPattern scanner).weaken ?_))
    rintro own _ ⟨_, cache, rfl⟩
    rcases own with _ | length
    · apply Scan.Ensures.bind
      apply (read_brings _).weaken
      rintro char _ ⟨cache', rfl⟩
      rcases char with _ | c
      · apply Scan.Ensures.bind
        apply (stepBack_brings _).weaken
        rintro _ _ ⟨cache'', rfl⟩
        exact .get (.pure ⟨Nat.le_refl scanner.mark, scanner.mark, cache'', rfl⟩)
      · dsimp only
        apply (ih _).weaken
        rintro result _ ⟨hle, mark, cache'', rfl⟩
        exact ⟨Nat.le_of_succ_le hle, mark, cache'', rfl⟩
    · exact .pure ⟨Nat.le_refl _, scanner.mark, cache, rfl⟩

theorem blockTurn_brings (hcustoms : grammar.customs = []) (hattempt : RulesLeave grammar attempt)
    (hregion : region ∈ grammar.regions) (hsealed : region.embedded = true) (pending : Nat)
    (scanner : Scanner Region) (hparked : scanner.parked = none)
    (hregions : scanner.openRegions = region :: outer) (hcloses : grammar.Closes outer) :
    (blockTurn grammar attempt region pending).Ensures scanner (fun _ after =>
      scanner.Onward grammar after ∧ after.parked = none) BesidesReading := by
  have hcontent : ∀ token, some region.contentToken = some token → grammar.Gives token := by
    rintro token ⟨⟩
    exact .content hregion
  have hclosesAll : grammar.Closes (region :: outer) := by
    intro opened hopened
    rcases List.mem_cons.mp hopened with rfl | hopened
    · exact .ends hregion
    · exact hcloses opened hopened
  refine .get (.bind ((tryRules_brings hcustoms hattempt hcontent (.of_region hregion) pending
    scanner hparked rfl (hregions ▸ hclosesAll)).weaken ?_))
  rintro ⟨claimed, left⟩ tried htried
  rcases claimed with _ | token
  · obtain ⟨_, hnothing, _⟩ := htried.unclaimed rfl
    dsimp only
    rw [Option.isSome_none, if_neg (by decide)]
    apply (contentTurn_brings (.content hregion) left tried).weaken
    intro next after h
    exact ⟨htried.onward.trans h.1, h.2.trans hnothing⟩
  · obtain ⟨_, hwaits⟩ := htried.claimed token rfl
    rw [hregions] at hwaits
    dsimp only
    rw [Option.isSome_some, if_pos rfl]
    refine .get (.pure ⟨htried.onward, ?_⟩)
    -- Nothing that is open around a block can end inside it.
    rcases htriedParked : tried.parked with _ | waiting
    · rfl
    · have hmem := (hwaits waiting htriedParked).mem
      rw [endable_sealed hsealed] at hmem
      cases hmem

theorem scanBlock_brings (hcustoms : grammar.customs = []) (hattempt : RulesLeave grammar attempt)
    (hregion : region ∈ grammar.regions) (hsealed : region.embedded = true) (turns pending : Nat)
    (scanner : Scanner Region) (hparked : scanner.parked = none)
    (hregions : scanner.openRegions = region :: outer) (hcloses : grammar.Closes outer) :
    (scanBlock grammar attempt region turns pending).Ensures scanner (fun _ after =>
      scanner.Onward grammar after ∧ after.parked = none) BesidesReading := by
  induction turns generalizing scanner pending with
  | zero => exact .fault _
  | succ turns ih =>
    rw [scanBlock_succ]
    apply Scan.Ensures.bind
    apply (blockTurn_brings hcustoms hattempt hregion hsealed pending scanner hparked hregions
      hcloses).weaken
    intro next after h
    rcases next with _ | left
    · exact .pure h
    · apply (ih left after h.2 (h.1.same.openRegions.trans hregions)).weaken
      intro _ final hfinal
      exact ⟨h.1.trans hfinal.1, hfinal.2⟩

/-! ## Entering -/

theorem closeRegion_brings {opened : Region} (h : scanner.openRegions = opened :: outer) :
    Scanner.closeRegion.Ensures scanner (fun popped after =>
      popped = opened ∧ after = { scanner with openRegions := outer }) BesidesReading :=
  .of_ok (Scanner.closeRegion_of_cons h) ⟨rfl, rfl⟩

theorem closeRegion_any (scanner : Scanner Region) :
    Scanner.closeRegion.Ensures scanner (fun _ _ => True) BesidesReading := by
  rcases hregions : scanner.openRegions with _ | ⟨region, outer⟩
  · unfold Scanner.closeRegion
    apply Scan.Ensures.get
    rw [hregions]
    exact .fail (by simp [BesidesReading])
  · exact (closeRegion_brings hregions).weaken fun _ _ _ => trivial

theorem leaveRange_brings {saved : Frame} {frames : List Frame}
    (h : scanner.frames = saved :: frames) :
    Scanner.leaveRange.Ensures scanner (fun _ after => ∃ cache,
      after = { scanner with
        frames, rangeEnd := saved.rangeEnd, lastMatch := saved.lastMatch,
        mark := saved.offset }.withCache cache) BesidesReading := by
  obtain ⟨cache, hmove⟩ := ({ scanner with
    frames, rangeEnd := saved.rangeEnd, lastMatch := saved.lastMatch } :
      Scanner Region).moveTo_cached saved.offset
  refine .of_ok (Scanner.leaveRange_of_cons h) ⟨cache, ?_⟩
  rw [hmove]

theorem leaveRange_any (scanner : Scanner Region) :
    Scanner.leaveRange.Ensures scanner (fun _ _ => True) BesidesReading := by
  rcases hframes : scanner.frames with _ | ⟨saved, frames⟩
  · unfold Scanner.leaveRange
    apply Scan.Ensures.get
    rw [hframes]
    exact .fail (by simp [BesidesReading])
  · exact (leaveRange_brings hframes).weaken fun _ _ _ => trivial

/-- From where a region is opened up to where it is closed. -/
theorem insideRegion_brings (hcustoms : grammar.customs = [])
    (hattempt : RulesLeave grammar attempt) (hregion : region ∈ grammar.regions)
    (hopen : region.embedded = false) (start : Nat) (first : Scanner Region)
    (hparked : first.parked = none) (hcloses : grammar.Closes first.openRegions) :
    (do
      modify (·.openRegion region)
      let scanned ← Scan.outcome
        (do scanRegion grammar attempt region (turnsLeft (← get)) start)
      let popped ← Scanner.closeRegion
      if popped.id ≠ region.id then Scan.fault .wrongRegionClosed
      Scan.rethrow scanned
      return region.beginToken : RuleScan Token).Ensures first (fun token after =>
        token = region.beginToken ∧ first.Onward grammar after ∧
          after.Waits first.openRegions) BesidesReading := by
  refine .bind (.changed (.bind ?_))
  have hscan : (do scanRegion grammar attempt region (turnsLeft (← get)) start).Ensures
      (first.openRegion region) (fun _ inner =>
        (first.openRegion region).Onward grammar inner ∧ inner.Waits first.openRegions)
      BesidesReading :=
    .get (scanRegion_brings hcustoms hattempt hregion hopen _ start (first.openRegion region)
      hparked rfl hcloses)
  apply (hscan.outcome BesidesReading).weaken
  rintro (error | _) inner hinner
  · -- The region is closed, and the error goes on.
    refine .bind ((closeRegion_any inner).weaken fun popped closed _ => ?_)
    dsimp only
    split
    · exact .bind (.fault _)
    · exact .bind (.fail hinner)
  · obtain ⟨honward, hwaits⟩ := hinner
    refine .bind ((closeRegion_brings honward.same.openRegions).weaken ?_)
    rintro _ _ ⟨rfl, rfl⟩
    rw [if_neg (fun hne => hne rfl)]
    exact .bind (.pure (.pure ⟨rfl, ⟨⟨rfl, honward.same.frames, honward.same.rangeEnd⟩,
      honward.mark_le, honward.queue⟩, hwaits⟩))

theorem attemptRegion_brings (hcustoms : grammar.customs = [])
    (hattempt : RulesLeave grammar attempt) (hregion : region ∈ grammar.regions)
    (hopen : region.embedded = false) (hbegin : region.beginToken ≠ .undefined)
    (scanner : Scanner Region) (hparked : scanner.parked = none)
    (hcloses : grammar.Closes scanner.openRegions) :
    (attemptRegion grammar turnsLeft attempt region).Ensures scanner
      (LeftByRule grammar scanner) BesidesReading := by
  refine .get (.bind ((claimAtMark_brings region.beginPattern scanner).weaken ?_))
  rintro found _ ⟨hclaim, cache, rfl⟩
  rcases found with _ | length
  · exact .pure (.nothing hparked cache)
  · obtain ⟨hpos, _⟩ := hclaim length rfl
    apply Scan.Ensures.bind
    apply (report_brings region.beginToken scanner.mark length _).weaken
    rintro _ _ rfl
    refine .bind (.sum (.bind ((endMatchAt_brings _ _).weaken ?_)))
    rintro _ first ⟨cache', hfirst⟩
    have hentered : scanner.Onward grammar first := by
      subst hfirst
      exact ⟨⟨rfl, rfl, rfl⟩, Nat.le_add_right _ _, _, rfl, givesAll_piece (.begins hregion)⟩
    have hmark : first.mark = scanner.mark + length := by subst hfirst; rfl
    have hcalm : first.parked = none := by subst hfirst; exact hparked
    have hregions := hentered.same.openRegions
    apply (insideRegion_brings hcustoms hattempt hregion hopen _ first hcalm
      (hregions ▸ hcloses)).weaken
    rintro _ after ⟨rfl, honward, hwaits⟩
    have hforward := honward.mark_le
    exact {
      onward := hentered.trans honward
      waits := hregions ▸ hwaits
      rejected := fun hundefined => absurd hundefined hbegin
      claimed := fun _ => ⟨by omega, .begins hregion⟩ }

/-- A range is entered, or it is not one of the document. -/
theorem enterRange_brings (offset length : Nat) (scanner : Scanner Region) :
    (Scanner.enterRange offset length).Ensures scanner (fun _ after => ∃ rangeEnd cache,
      after = { scanner with
        frames := scanner.frame :: scanner.frames, rangeEnd, mark := offset }.withCache cache)
      BesidesReading := by
  unfold Scanner.enterRange
  apply Scan.Ensures.get
  rcases hrange : Scanner.rangeEndIn scanner.document offset length with error | rangeEnd
  · refine .fail fun refused hrefused => ?_
    unfold Scanner.rangeEndIn at hrange
    split at hrange
    · cases hrange
    · cases hrange
      cases hrefused
  · obtain ⟨cache, hmove⟩ := ({ scanner with
      frames := scanner.frame :: scanner.frames, rangeEnd } : Scanner Region).moveTo_cached offset
    refine .of_ok rfl ⟨rangeEnd, cache, ?_⟩
    rw [← hmove]

/-- From where the range of a block is entered up to where it is left. -/
theorem insideBlock_brings (hcustoms : grammar.customs = [])
    (hattempt : RulesLeave grammar attempt) (hregion : region ∈ grammar.regions)
    (hsealed : region.embedded = true) (start length stop stopLength resume : Nat)
    (first : Scanner Region) (hparked : first.parked = none)
    (hcloses : grammar.Closes first.openRegions) :
    (do
      Scanner.enterRange start length
      modify (·.openRegion region)
      let scanned ← Scan.outcome
        (do scanBlock grammar attempt region (turnsLeft (← get)) start)
      let _ ← Scanner.closeRegion
      Scanner.leaveRange
      Scan.rethrow scanned
      report region.endToken stop stopLength
      modify fun scanner => { scanner with lastMatch := resume }
      return region.beginToken : RuleScan Token).Ensures first (fun token after =>
        token = region.beginToken ∧ first.Onward grammar after ∧ after.mark = first.mark ∧
          after.parked = none) BesidesReading := by
  refine .bind ((enterRange_brings start length first).weaken ?_)
  rintro _ _ ⟨rangeEnd, cache, rfl⟩
  refine .bind (.changed (.bind ?_))
  have hscan : (do scanBlock grammar attempt region (turnsLeft (← get)) start).Ensures
      (({ first with frames := first.frame :: first.frames, rangeEnd, mark := start }.withCache
        cache).openRegion region) (fun _ inner =>
        (({ first with frames := first.frame :: first.frames, rangeEnd, mark := start }.withCache
          cache).openRegion region).Onward grammar inner ∧ inner.parked = none) BesidesReading :=
    .get (scanBlock_brings hcustoms hattempt hregion hsealed _ start _ hparked rfl hcloses)
  apply (hscan.outcome BesidesReading).weaken
  rintro (error | _) inner hinner
  · -- The block is left, and the error goes on.
    refine .bind ((closeRegion_any inner).weaken fun _ closed _ => ?_)
    refine .bind ((leaveRange_any closed).weaken fun _ left _ => ?_)
    exact .bind (.fail hinner)
  · obtain ⟨honward, hcalm⟩ := hinner
    refine .bind ((closeRegion_brings honward.same.openRegions).weaken ?_)
    rintro _ closed ⟨-, hclosed⟩
    have hframes : closed.frames = first.frame :: first.frames := by
      rw [hclosed]
      exact honward.same.frames
    refine .bind ((leaveRange_brings hframes).weaken ?_)
    rintro _ _ ⟨cache', rfl⟩
    subst hclosed
    refine .bind (.pure (.bind ((report_brings region.endToken stop stopLength _).weaken ?_)))
    rintro _ _ rfl
    obtain ⟨spans, hspans, hgive⟩ := honward.queue
    refine .bind (.changed (.pure ⟨rfl, ⟨⟨rfl, rfl, rfl⟩, Nat.le_refl first.mark,
      spans ++ piece ⟨region.endToken, stop, stopLength⟩, ?_,
      givesAll_append.mpr ⟨hgive, givesAll_piece (.ends hregion)⟩⟩, rfl, hcalm⟩))
    show inner.queue ++ _ = _
    rw [hspans]
    exact List.append_assoc _ _ _

theorem attemptBlock_brings (hcustoms : grammar.customs = [])
    (hattempt : RulesLeave grammar attempt) (hregion : region ∈ grammar.regions)
    (hsealed : region.embedded = true) (hbegin : region.beginToken ≠ .undefined)
    (scanner : Scanner Region) (hparked : scanner.parked = none)
    (hcloses : grammar.Closes scanner.openRegions) :
    (attemptBlock grammar turnsLeft attempt region).Ensures scanner
      (LeftByRule grammar scanner) BesidesReading := by
  refine .get (.bind ((claimAtMark_brings region.beginPattern scanner).weaken ?_))
  rintro found _ ⟨hclaim, cache, rfl⟩
  rcases found with _ | length
  · exact .pure (.nothing hparked cache)
  · obtain ⟨hpos, _⟩ := hclaim length rfl
    refine .bind (.sum (.bind (.changed ?_)))
    obtain ⟨cache', hmove⟩ := (scanner.withCache cache).moveTo_cached (scanner.mark + length)
    rw [hmove]
    refine .get (.bind ((findBlockEnd_brings region _ _).weaken ?_))
    rintro ⟨stop, stopLength⟩ _ ⟨hstop, mark, cache'', rfl⟩
    replace hstop : scanner.mark + length ≤ stop := hstop
    refine .bind (.sum (.bind ((report_brings region.beginToken scanner.mark length _).weaken ?_)))
    rintro _ reported hreported
    refine .bind (.changed (.bind (.difference fun _ => ?_)))
    obtain ⟨back, hresume⟩ := reported.moveTo_cached (stop + stopLength)
    have hentered : scanner.Onward grammar (reported.moveTo (stop + stopLength)) := by
      rw [hresume, hreported]
      exact ⟨⟨rfl, rfl, rfl⟩, show scanner.mark ≤ stop + stopLength by omega, _, rfl,
        givesAll_piece (.begins hregion)⟩
    have hcalm : (reported.moveTo (stop + stopLength)).parked = none := by
      rw [hresume, hreported]
      exact hparked
    have hregions := hentered.same.openRegions
    apply (insideBlock_brings hcustoms hattempt hregion hsealed _ _ _ _ _
      (reported.moveTo (stop + stopLength)) hcalm (hregions ▸ hcloses)).weaken
    rintro _ after ⟨rfl, honward, hmark, hafter⟩
    rw [Scanner.moveTo_mark] at hmark
    exact {
      onward := hentered.trans honward
      waits := fun _ hwaiting => by cases hafter.symm.trans hwaiting
      rejected := fun hundefined => absurd hundefined hbegin
      claimed := fun _ => ⟨by omega, .begins hregion⟩ }

/-- Rules leave that at every depth to which they are nested. -/
theorem attemptWithin_brings (hcustoms : grammar.customs = []) (hbegins : grammar.BeginsDefined)
    (depth : Nat) : RulesLeave grammar (grammar.attemptWithin turnsLeft depth) := by
  induction depth with
  | zero => exact fun _ _ _ _ _ => .fault _
  | succ depth ih =>
    intro rule scanner hrule hparked hcloses
    unfold Grammar.attemptWithin
    rcases rule with ⟨pattern, token⟩ | id | index
    · apply Scan.Ensures.bind
      apply (claimAtMark_brings pattern scanner).weaken
      rintro found _ ⟨hclaim, cache, rfl⟩
      rcases found with _ | length
      · exact .pure (.nothing hparked cache)
      · obtain ⟨hpos, _⟩ := hclaim length rfl
        refine .get (.bind (.sum (.bind ((endMatchAt_brings _ _).weaken ?_))))
        rintro _ _ ⟨cache', rfl⟩
        exact .pure {
          onward := ⟨⟨rfl, rfl, rfl⟩, Nat.le_add_right _ _, [], (List.append_nil _).symm,
            by simp [Grammar.GivesAll]⟩
          waits := fun _ hwaiting => by cases hparked.symm.trans hwaiting
          rejected := fun _ => ⟨rfl, hparked⟩
          claimed := fun _ => ⟨Nat.lt_add_of_pos_right hpos, hrule token rfl⟩ }
    · dsimp only
      rcases hid : grammar.regions[id]? with _ | region
      · exact .pure (.nothing hparked scanner.cache)
      · have hregion := List.mem_of_getElem? hid
        have hbegin := hbegins region hregion
        dsimp only
        split
        · rename_i hsealed
          exact attemptBlock_brings hcustoms ih hregion hsealed hbegin scanner hparked hcloses
        · rename_i hopen
          exact attemptRegion_brings hcustoms ih hregion (eq_false_of_ne_true hopen) hbegin scanner
            hparked hcloses
    · simp only [hcustoms, List.getElem?_nil]
      exact .pure (.nothing hparked scanner.cache)

theorem attempt_brings (hcustoms : grammar.customs = []) (hbegins : grammar.BeginsDefined) :
    RulesLeave grammar grammar.attempt := fun rule scanner hrule hparked hcloses =>
  .get (attemptWithin_brings hcustoms hbegins _ rule scanner hrule hparked hcloses)

/-! ## Tokens -/

/-- Between tokens nothing is parked, and what is queued has tokens of the grammar, as the ends of
the open regions have. -/
structure Scanner.AtRest (grammar : Grammar) (scanner : Scanner Region) : Prop where
  parked_eq : scanner.parked = none
  gives : grammar.GivesAll scanner.queue
  closes : grammar.Closes scanner.openRegions

/-- So it is where nothing is queued or parked and no region is open. -/
theorem Scanner.AtRest.of_nothing (hqueue : scanner.queue = []) (hparked : scanner.parked = none)
    (hopen : scanner.openRegions = []) : scanner.AtRest grammar := by
  refine ⟨hparked, ?_, ?_⟩
  · rw [hqueue]
    exact fun _ hspan => by cases hspan
  · rw [hopen]
    exact fun _ hregion => by cases hregion

/-- Nothing is queued and nothing is parked. -/
structure Scanner.Clear (scanner : Scanner Region) : Prop where
  queue_eq : scanner.queue = []
  parked_eq : scanner.parked = none

/-- At a character that cannot be read a scan stops with nothing queued and nothing parked. -/
def Scanner.StopsClear (error : ScanError) (after : Scanner Region) : Prop :=
  ∀ offset, error = .unreadable offset → after.mark = offset ∧ after.Clear

/-- A token is one of the grammar, or `eof` behind the range. -/
def Grammar.Hands (grammar : Grammar) (scanner : Scanner Region) (token : Token)
    (after : Scanner Region) : Prop :=
  grammar.Gives token ∨ token = .eof ∧ after.queue = [] ∧ scanner.rangeEnd ≤ scanner.mark

/-- What is left behind a token, or behind a character that cannot be read. -/
def LeftByToken (grammar : Grammar) (scanner : Scanner Region) :
    Except ScanError Token → Scanner Region → Prop
  | .ok token, after => after.AtRest grammar ∧ grammar.Hands scanner token after
  | .error error, after => after.StopsClear error

section

variable {left : Nat} {tried : Scanner Region}

/-- What a rule has claimed is handed out or stays queued, and nothing stays parked. -/
theorem handOut_claimed {token : Token} (hcloses : grammar.Closes tried.openRegions)
    (hleft : LeftByRules grammar none scanner.mark scanner.tokenStarted (some token, left) tried) :
    (grammar.handOut (some token)).Yields tried (LeftByToken grammar scanner) := by
  obtain ⟨spans, hspans, hgives⟩ := hleft.onward.queue
  obtain rfl : tried.queue = spans := hspans
  refine .bind (.of_ok rfl (.bind ?_))
  rcases hclaimed : tried.queue with _ | ⟨span, rest⟩
  · exact .of_ok (dequeue_of_nil hclaimed) (.bind (.of_ok rfl (.of_ok rfl
      ⟨⟨rfl, hgives, hcloses⟩, Or.inl (hleft.claimed token rfl).1⟩)))
  · rw [hclaimed] at hgives
    obtain ⟨hfirst, hrest⟩ := List.forall_mem_cons.mp hgives
    exact .of_ok (dequeue_of_cons hclaimed) (.bind (.of_ok rfl (.of_ok rfl
      ⟨⟨rfl, hrest, hcloses⟩, Or.inl hfirst⟩)))

/-- Where no rule claims anything nothing is queued or parked, and so it stays. -/
theorem handOut_unclaimed (hcloses : grammar.Closes tried.openRegions)
    (hleft : LeftByRules grammar none scanner.mark scanner.tokenStarted (none, left) tried) :
    (grammar.handOut none).Yields tried (LeftByToken grammar scanner) := by
  obtain ⟨hmark, hparked, hstill⟩ := hleft.unclaimed rfl
  have hrange : tried.rangeEnd = scanner.rangeEnd := hleft.onward.same.rangeEnd
  have hempty : tried.queue = [] := hstill rfl
  have hnothing : grammar.GivesAll tried.queue := by simp [hempty, Grammar.GivesAll]
  refine .bind (.of_ok rfl (.bind ?_))
  rcases tried.read_cached with ⟨char, cache, hread⟩ | hread
  · refine .of_ok hread ?_
    rcases char with _ | c
    · obtain ⟨cache', hback⟩ :=
        ({ tried with mark := tried.mark + 1 }.withCache cache).stepBack_cached
      refine .bind (.of_ok rfl (.bind (.of_ok rfl ?_)))
      rw [hback]
      dsimp only
      split
      · refine .bind ?_
        rintro offset ⟨⟩
        exact ⟨rfl, hempty, hparked⟩
      · rename_i hend
        replace hend : ¬ tried.mark < tried.rangeEnd := hend
        rw [hmark, hrange] at hend
        exact .bind (.of_ok rfl (.of_ok rfl ⟨⟨hparked, hnothing, hcloses⟩,
          Or.inr ⟨rfl, hempty, Nat.le_of_not_lt hend⟩⟩))
    · exact .bind (.of_ok rfl (.of_ok rfl ⟨⟨hparked, hnothing, hcloses⟩, Or.inl .default⟩))
  · exact .of_fault hread

end

/-- A token leaves nothing parked, and nothing queued either where it is refused. -/
theorem nextToken_leaves (hcustoms : grammar.customs = []) (hbegins : grammar.BeginsDefined)
    (h : scanner.AtRest grammar) :
    grammar.nextToken.Yields scanner (LeftByToken grammar scanner) := by
  rcases hqueue : scanner.queue with _ | ⟨span, rest⟩
  · -- Nothing is queued, so the rules get their turn.
    have hrules : grammar.GivesRules grammar.rules := by
      intro rule hrule token htoken
      obtain ⟨pattern, rfl⟩ := Rule.token?_eq_some.mp htoken
      exact .rule hrule
    have htried : (grammar.tryAll scanner.mark).Ensures scanner.tokenStarted
        (LeftByRules grammar none scanner.mark scanner.tokenStarted) BesidesReading :=
      tryRules_brings hcustoms (attempt_brings hcustoms hbegins) (fun _ hnone => by cases hnone)
        hrules scanner.mark scanner.tokenStarted h.parked_eq rfl h.closes
    apply Scan.Yields.of_eq (nextToken_of_nil hqueue)
    apply Scan.Yields.bind
    apply Scan.Yields.mono htried
    rintro (error | ⟨claimed, left⟩) tried hleft
    · exact fun offset hunreadable => absurd hunreadable (hleft offset)
    · have hcloses : grammar.Closes tried.openRegions :=
        hleft.onward.same.openRegions ▸ h.closes
      rcases claimed with _ | token
      · exact handOut_unclaimed hcloses hleft
      · exact handOut_claimed hcloses hleft
  · obtain ⟨hfirst, hrest⟩ := List.forall_mem_cons.mp (hqueue ▸ h.gives)
    exact .of_ok (nextToken_queued hqueue) ⟨⟨h.parked_eq, hrest, h.closes⟩, Or.inl hfirst⟩

/-! ## Whole runs -/

theorem addToken_brings (spans : List Span) (span : Span) (scanner : Scanner Region) :
    (addToken spans span).Ensures scanner (fun _ after => after = scanner) BesidesReading := by
  unfold addToken
  split
  · exact .pure rfl
  · split
    · split
      · split
        · exact .fault _
        · split
          · dsimp only
            split
            · exact .bind (.fault _)
            · exact .pure rfl
          · exact .pure rfl
      · exact .pure rfl
    · exact .pure rfl

section

variable (hcustoms : grammar.customs = []) (hbegins : grammar.BeginsDefined)
  (heof : ¬ grammar.Gives .eof)

include hcustoms hbegins heof

theorem addNext_leaves (spans : List Span) (h : scanner.AtRest grammar) :
    (grammar.addNext spans).Yields scanner fun result after =>
      match result with
      | .ok none => after.Clear
      | .ok (some _) => after.AtRest grammar
      | .error error => after.StopsClear error := by
  apply Scan.Yields.bind
  apply (nextToken_leaves hcustoms hbegins h).mono
  rintro (error | token) after hafter
  · exact hafter
  · obtain ⟨hrest, hhands⟩ := hafter
    dsimp only
    split
    · rename_i hend
      obtain rfl : token = .eof := by cases token <;> simp_all [Token.isEof]
      obtain ⟨_, hempty, _⟩ := hhands.resolve_left heof
      exact .of_ok rfl ⟨hempty, hrest.parked_eq⟩
    · refine .bind (.of_ok rfl (.bind (Scan.Yields.mono (addToken_brings spans _ after) ?_)))
      rintro (error | added) final hfinal
      · exact fun offset hunreadable => absurd hunreadable (hfinal offset)
      · refine .of_ok rfl ?_
        rw [show final = after from hfinal]
        exact hrest

theorem addTokens_leaves (count : Nat) (spans : List Span) (h : scanner.AtRest grammar) :
    (grammar.addTokens count spans).Yields scanner fun result after =>
      match result with
      | .ok (_, true) => after.Clear
      | .ok (_, false) => after.AtRest grammar
      | .error error => after.StopsClear error := by
  induction count generalizing scanner spans with
  | zero => exact .of_ok rfl h
  | succ count ih =>
    unfold Grammar.addTokens
    apply Scan.Yields.bind
    apply (addNext_leaves hcustoms hbegins heof spans h).mono
    rintro (error | _ | added) after hafter
    · exact hafter
    · exact .of_ok rfl hafter
    · exact ih added hafter

theorem addAll_leaves (turns : Nat) (spans : List Span) (h : scanner.AtRest grammar) :
    (grammar.addAll turns spans).Yields scanner fun result after =>
      match result with
      | .ok _ => after.Clear
      | .error error => after.StopsClear error := by
  induction turns generalizing scanner spans with
  | zero => exact .of_fault rfl
  | succ turns ih =>
    unfold Grammar.addAll
    refine .bind (.of_ok rfl (.bind ?_))
    apply (addTokens_leaves hcustoms hbegins heof _ spans h).mono
    rintro (error | ⟨added, _ | _⟩) after hafter
    · exact hafter
    · exact ih added hafter
    · exact .of_ok rfl hafter

/-- A scan that has come to the end of its range leaves nothing queued and nothing parked, and so
does one that has come to a character that cannot be read. -/
theorem tokenize_leaves (h : scanner.AtRest grammar) :
    grammar.tokenize.Yields scanner fun result after =>
      match result with
      | .ok _ => after.Clear
      | .error error => after.StopsClear error := by
  refine .bind (.of_ok rfl (.bind ?_))
  apply (addAll_leaves hcustoms hbegins heof _ [] h).mono
  rintro (error | spans) after hafter
  · exact hafter
  · exact .of_ok rfl hafter

end

end RegionScan
