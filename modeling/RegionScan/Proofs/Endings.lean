-- Every scan comes to an end. A region claims a character before the regions inside it
-- are tried, a turn inside it claims some more or is the last one, and so does a token.
-- What no grammar is safe from, unless its regions are all entered with a token, is that
-- an end is parked behind a rule that is rejected: a turn that finds it there goes past
-- the range it is in.
import RegionScan.Proofs.Depths
import RegionScan.Proofs.TokenBounds
import RegionScan.Proofs.Tilings
import RegionScan.Proofs.WindowLaws

namespace RegionScan

variable {grammar : Grammar} {text : Text} {limit : Nat} {settings : Settings}
  {scanner : Scanner Region} {doc : VersionedText}

/-! ## Tokens to the end -/

/-- The next token is the last one, or the scan stops because an end is parked twice. -/
def Grammar.Stops (grammar : Grammar) (scanner : Scanner Region) : Prop :=
  (∃ after, grammar.nextToken scanner = .ok .eof after) ∨
    ∃ after, grammar.nextToken scanner = .error (.faulted .endAlreadyParked) after

/-- So many tokens come through, and none of them is `eof`; then the scan stops. -/
def Grammar.StopsBehind (grammar : Grammar) (count : Nat) (scanner : Scanner Region) : Prop :=
  (∀ earlier < count, ∃ token after,
    grammar.nextToken (grammar.behind earlier scanner) = .ok token after ∧ token ≠ .eof) ∧
  grammar.Stops (grammar.behind count scanner)

theorem Grammar.StopsBehind.succ {token : Token} {after : Scanner Region} {count : Nat}
    (hnext : grammar.nextToken scanner = .ok token after) (htoken : token ≠ .eof)
    (h : grammar.StopsBehind count after) : grammar.StopsBehind (count + 1) scanner := by
  have hbehind : ∀ more, grammar.behind (more + 1) scanner = grammar.behind more after := by
    intro more
    rw [Grammar.behind, Scan.after, hnext]
  refine ⟨fun earlier hlt => ?_, ?_⟩
  · cases earlier with
    | zero => exact ⟨token, after, hnext, htoken⟩
    | succ earlier =>
      rw [hbehind]
      exact h.1 earlier (Nat.lt_of_succ_lt_succ hlt)
  · rw [hbehind]
    exact h.2

/-- A token leaves less of the range, or as much of it and less of the queue. -/
theorem stops_behind_some {scanner : Scanner Region} (hcustoms : grammar.customs = [])
    (hs : scanner.Within text limit) (hserved : ∀ offset, offset < text.length →
      ¬ scanner.document.Withholds scanner.window.capacity offset) :
    ∃ count, grammar.StopsBehind count scanner := by
  rcases nextToken_bounded hcustoms (Or.inl trivial) hs (Or.inl trivial) with
    ⟨token, after, hnext, hhanded, hprogress⟩ | ⟨after, _, _, hlt, hwithheld⟩ | ⟨_, after, hnext⟩
  · by_cases htoken : token = .eof
    · subst htoken
      exact ⟨0, fun _ hlt => absurd hlt (Nat.not_lt_zero _), Or.inl ⟨after, hnext⟩⟩
    · have hrange := hhanded.rangeEnd_eq
      have hless : Prod.Lex (· < ·) (· < ·) (after.rangeEnd - after.mark, after.queue.length)
          (scanner.rangeEnd - scanner.mark, scanner.queue.length) := by
        rw [hrange]
        rcases hprogress with ⟨hmark, hqueue⟩ | ⟨hlt, hforward⟩ | heof
        · rw [hmark]
          exact .right _ hqueue
        · exact .left _ _ (by omega)
        · exact absurd heof htoken
      obtain ⟨count, hcount⟩ := stops_behind_some hcustoms hhanded.within (by
        rw [hhanded.document_eq, hhanded.capacity_eq]
        exact hserved)
      exact ⟨count + 1, hcount.succ hnext htoken⟩
  · have hend := hs.end_le
    have hlimit := hs.limit_le
    exact absurd hwithheld (hserved _ (by omega))
  · exact ⟨0, fun _ hlt => absurd hlt (Nat.not_lt_zero _), Or.inr ⟨after, hnext⟩⟩
termination_by (scanner.rangeEnd - scanner.mark, scanner.queue.length)
decreasing_by exact hless

/-! ## Turns inside regions and blocks -/

/-- One turn of the scan of a region or of a block. -/
def insideTurn (grammar : Grammar) (attempt : Rule → RuleScan Token) (region : Region)
    (pending : Nat) : RuleScan (Option Nat) :=
  if region.embedded then blockTurn grammar attempt region pending
  else regionTurn grammar attempt region pending

theorem insideTurn_bounded {clash : Prop} {turns : Turns} (hturns : turns.Enough)
    {depth pending : Nat} {region : Region} {outer : List Region} (hcustoms : grammar.customs = [])
    (hbegins : clash ∨ grammar.BeginsDefined) (hs : scanner.Within text limit)
    (hcalm : clash ∨ scanner.Calm) (hregions : scanner.openRegions = region :: outer)
    (hdepth : scanner.rangeEnd - scanner.mark < depth) (hpending : pending ≤ scanner.mark) :
    (insideTurn grammar (grammar.attemptWithin turns depth) region pending).Ends clash scanner
      (TurnWithin clash text limit (if region.embedded then [] else outer) scanner) := by
  have hattempt : AttemptBounded clash text depth (grammar.attemptWithin turns depth) :=
    attemptWithin_bounded hturns hcustoms hbegins depth
  unfold insideTurn
  rcases hsealed : region.embedded with _ | _
  · simp only [Bool.false_eq_true, if_false]
    exact regionTurn_bounded hcustoms hattempt hsealed hs hcalm hregions hdepth hpending
  · simp only [if_true]
    exact blockTurn_bounded hcustoms hattempt hsealed hs hcalm hregions hdepth hpending

/-! ## The law -/

/-- The step comes through, or stops because an end is parked twice. -/
def Scan.Returns {α : Type} (step : RuleScan α) (scanner : Scanner Region) : Prop :=
  step.Ends True scanner fun _ _ => True

/-- How a scan comes to an end that stays within a limit. -/
structure Grammar.ComesToEnd (grammar : Grammar) (scanner : Scanner Region) (limit : Nat) :
    Prop where
  rule : ∀ rule, (grammar.attempt rule).Returns scanner
  /-- Inside a region or a block there are no more turns than characters left in the range, and
  regions nest no deeper: with so many turns, at so great a depth a rule does the same. -/
  nested : ∀ (turns : Turns) depth rule, turns.Enough → scanner.rangeEnd - scanner.mark < depth →
    grammar.attemptWithin turns depth rule scanner = grammar.attempt rule scanner
  /-- For a character at least is claimed where a region is entered. -/
  entered : ∀ region ∈ grammar.regions, (claimAtMark region.beginPattern).Leads scanner
    fun found _ => ∀ length, found = some length →
      0 < length ∧ scanner.mark + length ≤ scanner.rangeEnd
  /-- A turn inside a region or a block is the last one, or it moves the mark forward. -/
  turn : ∀ (turns : Turns) depth region outer pending, turns.Enough →
    scanner.openRegions = region :: outer →
    scanner.rangeEnd - scanner.mark < depth → pending ≤ scanner.mark →
      (insideTurn grammar (grammar.attemptWithin turns depth) region pending).Ends True scanner
        fun next after => after.mark ≤ limit ∧ (next ≠ none → scanner.mark < after.mark)
  /-- So is a turn of the search for the end of a block. -/
  search : ∀ region, (seekTurn region).Leads scanner fun found after => after.mark ≤ limit ∧
    (found = none → scanner.mark < after.mark ∧ after.mark ≤ scanner.rangeEnd)
  /-- Where nothing is parked and nothing is rejected that could park an end, a turn stays in the
  range. -/
  calm : grammar.BeginsDefined → scanner.Calm →
    ∀ (turns : Turns) depth region outer pending, turns.Enough →
      scanner.openRegions = region :: outer →
      scanner.rangeEnd - scanner.mark < depth → pending ≤ scanner.mark →
        (insideTurn grammar (grammar.attemptWithin turns depth) region pending).Leads scanner
          fun next after => after.mark ≤ scanner.rangeEnd ∧ (next ≠ none → after.Calm)
  token : grammar.nextToken.Returns scanner
  run : ∃ count, grammar.StopsBehind count scanner

/-- In every state of a session over a text a scan comes to an end, within every limit that the
mark, the range and the end that is parked are within. -/
theorem every_scan_comes_to_an_end (hreached : Reached IsText settings scanner)
    (hdoc : scanner.document = doc.toDocument) (hsmall : doc.text.length < maxOffset)
    (hcustoms : grammar.customs = []) (hlimit : limit ≤ doc.text.length)
    (hmark : scanner.mark ≤ limit) (hend : scanner.rangeEnd ≤ limit)
    (hparked : ∀ waiting, scanner.parked = some waiting → waiting.stop ≤ limit) :
    grammar.ComesToEnd scanner limit := by
  have hs : scanner.Within doc.text limit :=
    ⟨hreached.onText.current, hdoc ▸ doc.toDocument_over, hsmall, hlimit, hmark, hend, hparked⟩
  have hserved : ∀ offset, offset < doc.text.length →
      ¬ scanner.document.Withholds scanner.window.capacity offset := by
    intro offset hlt hwithheld
    rw [hdoc] at hwithheld
    exact (doc.toDocument_shows scanner.window.capacity hsmall).withholds offset hlt hwithheld
  have hany : True ∨ grammar.BeginsDefined := Or.inl trivial
  have hanywhere : True ∨ scanner.Calm := Or.inl trivial
  have hrule : ∀ rule, (grammar.attempt rule).Returns scanner := fun rule =>
    (attempt_bounded hcustoms hany _ rule hs hanywhere (Nat.lt_succ_self _)).mono
      fun _ _ _ => trivial
  constructor
  case rule => exact hrule
  case nested =>
    intro turns depth rule hturns hdepth
    have hends : ∀ {step : RuleScan Token}, step.Returns scanner →
        ∀ after, step scanner ≠ .error (.faulted .runaway) after := by
      rintro step (⟨_, _, hreturns, _⟩ | ⟨_, _, hreturns⟩) after hrunaway
      · cases hrunaway.symm.trans hreturns
      · cases hrunaway.symm.trans hreturns
    have hwithin : (grammar.attemptWithin turns depth rule).Returns scanner :=
      (attemptWithin_bounded hturns hcustoms hany depth rule hs hanywhere hdepth).mono
        fun _ _ _ => trivial
    have hattempt := hends (hrule rule)
    rw [attempt_eq] at hattempt ⊢
    exact attemptWithin_agrees (hends hwithin) hattempt
  case entered =>
    intro region _
    exact (claimAtMark_bounded hs region.beginPattern).mono fun _ _ h => h.1
  case turn =>
    intro turns depth region outer pending hturns hregions hdepth hpending
    apply (insideTurn_bounded hturns hcustoms hany hs hanywhere hregions hdepth hpending).mono
    intro next after h
    refine ⟨h.moved.within.mark_le, fun hnext => ?_⟩
    obtain ⟨left, rfl⟩ := Option.ne_none_iff_exists'.mp hnext
    exact (h.onward left rfl).2.1
  case search =>
    intro region
    apply (seekTurn_bounded hs region).mono
    intro found after h
    exact ⟨h.moved.within.mark_le, h.onward⟩
  case calm =>
    intro hbegins hcalm turns depth region outer pending hturns hregions hdepth hpending
    have hdefined : False ∨ grammar.BeginsDefined := Or.inr hbegins
    have hturn :=
      insideTurn_bounded hturns hcustoms hdefined hs (Or.inr hcalm) hregions hdepth hpending
    refine (hturn.resolve_right fun h => h.1).mono fun next after h => ?_
    have hrange := h.moved.rangeEnd_eq
    rcases next with _ | left
    · have hle := ((h.last rfl).resolve_left id).1.mark_le
      exact ⟨by omega, by simp⟩
    · have hafter := (h.onward left rfl).2.2.2.resolve_left id
      have hle := hafter.mark_le
      exact ⟨by omega, fun _ => hafter⟩
  case token =>
    rcases nextToken_bounded hcustoms hany hs hanywhere with
      ⟨token, after, hnext, _⟩ | ⟨after, _, _, hlt, hwithheld⟩ | hclash
    · exact Or.inl ⟨token, after, hnext, trivial⟩
    · exact absurd hwithheld (hserved _ (by omega))
    · exact Or.inr hclash
  case run => exact stops_behind_some hcustoms hs hserved

/-! ## Behind the range -/

/-- Text between two characters, all of it of one token. -/
def Region.between (id : Nat) (first last : Char) (token : Token) (rules : List Rule) : Region where
  id
  name := "between"
  beginPattern := .char first
  endPattern := .char last
  beginToken := token
  contentToken := token
  endToken := token
  rules
  embedded := false

/-- A region that can hold itself in a block. Before the block another region is tried, which is
entered with the undefined token. -/
def Grammar.crossing : Grammar where
  regions := [
    .between 0 'a' 'z' (.other "a") [.region 1, .region 2, .pattern (.char 'x') (.other "x")],
    { Region.between 1 'b' 'q' (.other "b") [] with beginToken := .undefined },
    { Region.between 2 'b' 'e' (.other "e") [.region 0] with embedded := true }]
  customs := []
  rules := [.region 0]
  defaultToken := .undefined

/-- Also in that grammar a scan comes to an end. -/
theorem a_scan_of_crossing_regions_comes_to_an_end :
    ∃ scanner : Scanner Region, Reached IsText .standard scanner ∧ scanner.rangeEnd = 6 ∧
      Grammar.crossing.ComesToEnd scanner 6 := by
  let doc : VersionedText := .ofText ['a', 'b', 'a', 'x', 'e', 'z']
  have h0 : Reached IsText .standard (Scanner.fresh doc.toDocument .standard) := .fresh _ ⟨doc, rfl⟩
  have h1 := h0.call (.assign doc.toDocument 0 6) fun _ hbrought => ⟨doc, by cases hbrought; rfl⟩
  refine ⟨_, h1, rfl, ?_⟩
  exact every_scan_comes_to_an_end h1 (show _ = doc.toDocument from rfl) (by decide) rfl
    (by decide) (Nat.zero_le _) (Nat.le_refl _) (fun _ hparked => by cases hparked)

/-- The region that was tried before the block is rejected, and the end of the outer region stays
parked. Inside the block the region opens once more, and takes that end: a turn inside the block
leads from its start to the end of the text, past the end of the block. In the whole scan the last
character is handed out as a part of the inside, before the end of the block is. -/
theorem a_turn_in_a_block_passes_its_end :
    ∃ (start scanner : Scanner Region) (block : Region) (outer : List Region),
      (Scanner.fresh (VersionedText.ofText ['a', 'b', 'a', 'x', 'e', 'z']).toDocument
        .standard).assign (VersionedText.ofText ['a', 'b', 'a', 'x', 'e', 'z']).toDocument 0 6 =
          .ok () start ∧
      (((Grammar.crossing.trace 10 start).1.map TokenRecord.span).drop 6).take 2 =
        [⟨.other "a", 5, 1⟩, ⟨.other "e", 4, 1⟩] ∧
      Reached IsText .standard scanner ∧ scanner.openRegions = block :: outer ∧
      block ∈ Grammar.crossing.regions ∧ block.embedded = true ∧
      scanner.mark = 2 ∧ scanner.rangeEnd = 4 ∧
      (match insideTurn Grammar.crossing Grammar.crossing.attempt block 2 scanner with
        | .ok next after => some (next, after.mark)
        | .error _ _ => none) = some (some 6, 6) := by
  let doc : VersionedText := .ofText ['a', 'b', 'a', 'x', 'e', 'z']
  let block : Region := { Region.between 2 'b' 'e' (.other "e") [.region 0] with embedded := true }
  have h0 : Reached IsText .standard (Scanner.fresh doc.toDocument .standard) := .fresh _ ⟨doc, rfl⟩
  have h1 := h0.call (.assign doc.toDocument 0 6) fun _ hbrought => ⟨doc, by cases hbrought; rfl⟩
  have hentered := (h1.call (.moveTo 1) (by simp [Call.document?])).call
    (.openRegion (Grammar.crossing.regions.get ⟨0, by decide⟩)) (by simp [Call.document?])
  have hrejected := hentered.attempt Grammar.crossing (.region 1) (by simp [Grammar.crossing])
  have hblock := ((hrejected.call (.moveTo 5) (by simp [Call.document?])).call (.enterRange 2 2)
    (by simp [Call.document?])).call (.openRegion block) (by simp [Call.document?])
  exact ⟨_, _, block, _, rfl, by decide +kernel, hblock, rfl, by simp [Grammar.crossing, block],
    rfl, by decide +kernel, by decide +kernel, by decide +kernel⟩

end RegionScan
