-- Rules keep to the bounds. Each loop inside a region is taken apart into turns: a turn
-- is the last one, or it moves the mark forward and stays within the limit. So the
-- characters left bound the turns, and how deep regions nest.
import RegionScan.Proofs.Bounds

namespace RegionScan

variable {grammar : Grammar} {attempt : Rule → RuleScan Token} {clash : Prop} {text : Text}
  {limit depth : Nat} {scanner : Scanner Region} {region : Region} {outer : List Region}

/-! ## Trying rules -/

/-- What comes of one rule. An end that is parked behind it belongs to an open region, and then
the rule has claimed text. -/
structure AttemptedWithin (clash : Prop) (text : Text) (limit : Nat) (scanner : Scanner Region)
    (token : Token) (after : Scanner Region) : Prop where
  moved : scanner.Moved after text limit
  settled : clash ∨ after.Settled scanner.openRegions ∧
    (after.parked ≠ none → token ≠ .undefined ∧ scanner.mark < after.mark)

/-- A rule that is rejected leaves nothing parked. -/
theorem AttemptedWithin.rejected {token : Token} {after : Scanner Region}
    (h : AttemptedWithin clash text limit scanner token after)
    (hreject : (token.isUndefined || decide (after.mark ≤ scanner.mark)) = true) :
    clash ∨ after.parked = none := by
  refine h.settled.imp_right fun hsettled => ?_
  by_cases hnone : after.parked = none
  · exact hnone
  · obtain ⟨hdefined, hforward⟩ := hsettled.2 hnone
    rcases Bool.or_eq_true_iff.mp hreject with hundefined | hback
    · cases token <;> simp_all [Token.isUndefined]
    · exact absurd hforward (Nat.not_lt_of_le (of_decide_eq_true hback))

/-- Rules come to an end within the limit wherever the range is not longer than the depth. -/
def AttemptBounded (clash : Prop) (text : Text) (depth : Nat) (attempt : Rule → RuleScan Token) :
    Prop :=
  ∀ {scanner : Scanner Region} {limit : Nat} (rule : Rule), scanner.Within text limit →
    (clash ∨ scanner.Calm) → scanner.rangeEnd - scanner.mark < depth →
      (attempt rule).Ends clash scanner (AttemptedWithin clash text limit scanner)

theorem mayStart_bounded (hcustoms : grammar.customs = []) (hs : scanner.Within text limit)
    (rule : Rule) :
    (grammar.mayStart rule).Leads scanner fun starts after =>
      (starts = true → scanner.mark < scanner.rangeEnd) ∧
        scanner.Walked after [] scanner.mark scanner.parked := by
  have hclaim : ∀ pattern, (do return (← claimAtMark pattern).isSome : RuleScan Bool).Leads scanner
      fun starts after => (starts = true → scanner.mark < scanner.rangeEnd) ∧
        scanner.Walked after [] scanner.mark scanner.parked := by
    intro pattern
    apply Scan.Leads.bind
    apply (claimAtMark_bounded hs pattern).mono
    intro found after h
    refine Scan.Leads.pure ⟨fun hstarts => ?_, h.2⟩
    obtain ⟨length, rfl⟩ := Option.isSome_iff_exists.mp hstarts
    have := h.1 length rfl
    omega
  unfold Grammar.mayStart
  rcases rule with ⟨pattern, token⟩ | id | index
  · exact hclaim pattern
  · dsimp only
    rcases grammar.regions[id]? with _ | region
    · exact Scan.Leads.pure ⟨by simp, hs.current.stays⟩
    · exact hclaim region.beginPattern
  · simp only [hcustoms, List.getElem?_nil]
    exact Scan.Leads.pure ⟨by simp, hs.current.stays⟩

/-- What comes of rules tried in order at an offset: either the mark is back and nothing is
parked that was not before, or some text was claimed and spans were queued for it. -/
structure TriedWithin (clash : Prop) (text : Text) (limit here : Nat) (scanner : Scanner Region)
    (result : Option Token × Nat) (after : Scanner Region) : Prop where
  moved : scanner.Moved after text limit
  pending_le : result.2 ≤ here
  unclaimed : result.1 = none → after.mark = here ∧ (clash ∨ after.parked = none)
  claimed : ∀ token, result.1 = some token → here < after.mark ∧ here < scanner.rangeEnd ∧
    (clash ∨ after.Settled scanner.openRegions)
  queued : ∀ token, result.1 = some token → after.queue ≠ []

theorem tryRules_bounded (hcustoms : grammar.customs = [])
    (hattempt : AttemptBounded clash text depth attempt) (content : Option Token)
    {here pending : Nat} (rules : List Rule) (hs : scanner.Within text limit)
    (hcalm : clash ∨ scanner.Calm) (hmark : scanner.mark = here)
    (hdepth : scanner.rangeEnd - here < depth) (hpending : pending ≤ here) :
    (tryRules grammar.mayStart attempt content here rules pending).Ends clash scanner
      (TriedWithin clash text limit here scanner) := by
  induction rules generalizing scanner pending with
  | nil =>
    refine Scan.Ends.pure ⟨hs.current.stays.moved hs, hpending, fun _ => ⟨hmark, ?_⟩, by simp,
      by simp⟩
    exact hcalm.imp_right Scanner.Calm.parked_eq
  | cons rule rest ih =>
    have hhere : here ≤ limit := hmark ▸ hs.mark_le
    -- After steps that lead back to the same offset the other rules are tried.
    have hgoOn : ∀ {back : Scanner Region} {left : Nat}, scanner.Moved back text limit →
        back.mark = here → (clash ∨ back.Calm) → left ≤ here →
        (tryRules grammar.mayStart attempt content here rest left).Ends clash back
          (TriedWithin clash text limit here scanner) := by
      intro back left hback hbackMark hbackCalm hleft
      apply (ih hback.within hbackCalm hbackMark (by rw [hback.rangeEnd_eq]; exact hdepth)
        hleft).mono
      intro result after h
      refine ⟨hback.trans h.moved, h.pending_le, h.unclaimed, fun token htoken => ?_, h.queued⟩
      have hclaimed := h.claimed token htoken
      rwa [hback.rangeEnd_eq, hback.openRegions_eq] at hclaimed
    unfold tryRules
    apply Scan.Leads.then
    apply (mayStart_bounded hcustoms hs rule).mono
    intro starts middle h
    obtain ⟨hstarts, hwalked⟩ := h
    have hmiddle := hwalked.moved (hwalked.keeps hs hs.mark_le)
    have hmiddleCalm : clash ∨ middle.Calm := hcalm.imp_right fun h => by
      rw [h.parked_eq] at hwalked
      exact hwalked.calm h.mark_le
    rcases starts with _ | _
    · exact hgoOn hmiddle (hwalked.mark_eq.trans hmark) hmiddleCalm hpending
    · have hlt : here < scanner.rangeEnd := hmark ▸ hstarts rfl
      apply Scan.Leads.then
      apply (reportContent_leads hmiddle.within.current content hpending).mono
      intro left flushed h
      obtain ⟨rfl, hflushed⟩ := h
      have hleft : leadTo content true pending here ≤ here := by
        cases content <;> simp [leadTo, hpending]
      have hto := hmiddle.trans (hflushed.moved
        (hflushed.keeps hmiddle.within hmiddle.within.mark_le))
      have htoMark : flushed.mark = here := hflushed.mark_eq.trans (hwalked.mark_eq.trans hmark)
      have htoCalm : clash ∨ flushed.Calm := hmiddleCalm.imp_right fun h => by
        rw [h.parked_eq] at hflushed
        exact hflushed.calm h.mark_le
      apply Scan.Ends.get
      apply Scan.Ends.bind
      apply (hattempt rule hto.within htoCalm
        (by rw [hto.rangeEnd_eq, htoMark]; exact hdepth)).mono
      intro token after h
      have hall := hto.trans h.moved
      apply Scan.Ends.get
      by_cases hreject : (token.isUndefined || decide (after.mark ≤ here)) = true
      · -- The rule comes to nothing, and the mark goes back.
        rw [if_pos hreject]
        have hback := moveTo_walks hall.within.current here
        refine Scan.Leads.then (Scan.Leads.changed ?_)
        refine hgoOn (hall.trans (hback.moved (hback.keeps hall.within hhere))) hback.mark_eq ?_
          hleft
        rw [← htoMark] at hreject
        refine (h.rejected hreject).imp_right fun hnone => ?_
        rw [hnone] at hback
        exact hback.calm (by rw [hall.rangeEnd_eq]; omega)
      · rw [if_neg hreject]
        have hforward : here < after.mark := by
          simp only [Bool.or_eq_true, decide_eq_true_eq, not_or, Nat.not_le] at hreject
          exact hreject.2
        have hsettled : clash ∨ after.Settled scanner.openRegions := by
          refine h.settled.imp_right fun h => ?_
          rw [← hto.openRegions_eq]
          exact h.1
        dsimp only
        split
        · refine Scan.Leads.then (Scan.Leads.difference (Nat.le_of_lt hforward) ?_)
          apply Scan.Leads.then
          apply (report_leads hall.within.current token here _).mono
          intro _ final h
          have hqueue : final.queue ≠ [] := by
            rw [h.queue_eq, piece, if_pos (by dsimp only; omega)]
            simp
          refine Scan.Ends.pure ⟨hall.trans (h.moved (h.keeps hall.within hall.within.mark_le)),
            hleft, by simp, fun _ _ => ⟨h.mark_eq ▸ hforward, hlt, ?_⟩, fun _ _ => hqueue⟩
          refine hsettled.imp_right fun hsettled => ⟨?_, ?_⟩
          · rw [h.mark_eq, h.rangeEnd_eq]
            exact hsettled.mark_le
          · rw [h.mark_eq, h.rangeEnd_eq, h.parked_eq]
            exact hsettled.parked
        · rename_i hqueued
          refine Scan.Ends.pure ⟨hall, hleft, by simp, fun _ _ => ⟨hforward, hlt, hsettled⟩,
            fun _ _ hempty => ?_⟩
          obtain ⟨spans, hspans⟩ := h.moved.walked
          rw [hspans.queue_eq, List.append_eq_nil_iff] at hempty
          exact hqueued (by rw [hspans.queue_eq, hempty.1, hempty.2]; rfl)

/-- Where no rule claims anything, the scan is as calm as it was. -/
theorem TriedWithin.calm {here left : Nat} {after : Scanner Region}
    (h : TriedWithin clash text limit here scanner (none, left) after)
    (hcalm : clash ∨ scanner.Calm) (hmark : scanner.mark = here) : clash ∨ after.Calm := by
  obtain ⟨hback, hparked⟩ := h.unclaimed rfl
  rcases hcalm with hclash | hcalm
  · exact Or.inl hclash
  · refine hparked.imp_right fun hparked => ⟨?_, hparked⟩
    rw [hback, h.moved.rangeEnd_eq, ← hmark]
    exact hcalm.mark_le

/-! ## Turns inside a region -/

/-- One character of content. It gives the place from which content is pending, or nothing if
there is no character to read; then all content is reported. -/
def contentTurn (token : Token) (pending : Nat) : RuleScan (Option Nat) := do
  match ← Scanner.read with
  | some _ => return some pending
  | none =>
    modify Scanner.stepBack
    let _ ← reportContent (some token) pending (← get).mark
    return none

/-- One turn of the scan of a region. It gives the place from which content is pending then, or
nothing if the scan of the region is over. -/
def regionTurn (grammar : Grammar) (attempt : Rule → RuleScan Token) (region : Region)
    (pending : Nat) : RuleScan (Option Nat) := do
  let here := (← get).mark
  match ← matchAtMark region.endPattern with
  | some length =>
    let _ ← reportContent (some region.contentToken) pending here
    report region.endToken here length
    endMatchAt (← Scan.sum here length)
    return none
  | none =>
    match ← outerEnd with
    | some (outer, length) =>
      let _ ← reportContent (some region.contentToken) pending here
      let stop ← Scan.sum here length
      Scanner.park ⟨here, stop, outer, ⟨outer.endToken, here, length⟩⟩
      return none
    | none =>
      let (claimed, pending) ←
        tryRules grammar.mayStart attempt (some region.contentToken) here region.rules pending
      if claimed.isSome then
        match (← get).parked with
        | some waiting =>
          takeParked region waiting
          return none
        | none => return some (← get).mark
      else contentTurn region.contentToken pending

/-- A region is scanned turn by turn. -/
theorem scanRegion_succ (grammar : Grammar) (attempt : Rule → RuleScan Token) (region : Region)
    (turns pending : Nat) :
    scanRegion grammar attempt region (turns + 1) pending = (do
      match ← regionTurn grammar attempt region pending with
      | some pending => scanRegion grammar attempt region turns pending
      | none => return ()) := by
  rw [scanRegion, regionTurn]
  simp only [bind_assoc]
  refine bind_congr fun scanner => bind_congr fun own => ?_
  rcases own with _ | length
  · simp only [bind_assoc]
    refine bind_congr fun found => ?_
    rcases found with _ | ⟨outer, length⟩
    · simp only [bind_assoc]
      refine bind_congr fun result => ?_
      split
      · simp only [bind_assoc]
        refine bind_congr fun tried => ?_
        rcases tried.parked with _ | waiting <;> simp
      · unfold contentTurn
        simp only [bind_assoc]
        refine bind_congr fun char => ?_
        rcases char with _ | c <;> simp
    · simp
  · simp

/-- What comes of a turn: the mark has gone forward, or the scan of the region is over. -/
structure TurnWithin (clash : Prop) (text : Text) (limit : Nat) (outer : List Region)
    (scanner : Scanner Region) (next : Option Nat) (after : Scanner Region) : Prop where
  moved : scanner.Moved after text limit
  onward : ∀ pending, next = some pending → pending ≤ after.mark ∧ scanner.mark < after.mark ∧
    scanner.mark < scanner.rangeEnd ∧ (clash ∨ after.Calm)
  last : next = none → clash ∨ after.Settled outer ∧ scanner.mark ≤ after.mark

theorem TurnWithin.behind {middle after : Scanner Region} {next : Option Nat}
    (hmoved : scanner.Moved middle text limit) (hmark : middle.mark = scanner.mark)
    (h : TurnWithin clash text limit outer middle next after) :
    TurnWithin clash text limit outer scanner next after := by
  refine ⟨hmoved.trans h.moved, fun pending hnext => ?_, fun hnext => ?_⟩
  · have honward := h.onward pending hnext
    rwa [hmark, hmoved.rangeEnd_eq] at honward
  · have hlast := h.last hnext
    rwa [hmark] at hlast

theorem contentTurn_bounded (hs : scanner.Within text limit) (hcalm : clash ∨ scanner.Calm)
    (token : Token) {pending : Nat} (hpending : pending ≤ scanner.mark) :
    (contentTurn token pending).Leads scanner (TurnWithin clash text limit outer scanner) := by
  have hend := hs.end_le
  apply Scan.Leads.bind
  apply (read_bounded hs).mono
  intro char read h
  rcases char with _ | c
  · obtain ⟨_, hback⟩ := h.2 rfl
    have hsback := hback.keeps hs hs.mark_le
    refine Scan.Leads.bind (Scan.Leads.changed (Scan.Leads.get ?_))
    apply Scan.Leads.bind
    apply (reportContent_leads hsback.current (some token) (hback.mark_eq ▸ hpending)).mono
    intro _ after h
    have hall := hback.trans h.2
    rw [hback.mark_eq, hback.parked_eq] at hall
    refine Scan.Leads.pure ⟨hall.moved (hall.keeps hs hs.mark_le), by simp, fun _ => ?_⟩
    refine hcalm.imp_right fun hcalm => ⟨?_, Nat.le_of_eq hall.mark_eq.symm⟩
    rw [hcalm.parked_eq] at hall
    exact (hall.calm hcalm.mark_le).settled outer
  · obtain ⟨hlt, hstep⟩ := h.1 rfl
    refine Scan.Leads.pure ⟨hstep.moved (hstep.keeps hs (by omega)), fun left hleft => ?_, by simp⟩
    cases hleft
    refine ⟨by rw [hstep.mark_eq]; omega, by rw [hstep.mark_eq]; omega, hlt, ?_⟩
    refine hcalm.imp_right fun hcalm => ?_
    rw [hcalm.parked_eq] at hstep
    exact hstep.calm hlt

/-- An end that waits for this region is taken, and any other one is left. -/
theorem takeParked_bounded (outer : List Region) (hs : scanner.Within text limit)
    {waiting : ParkedEnd Region} (hparked : scanner.parked = some waiting)
    (hopen : region.embedded = false) :
    (takeParked region waiting).Leads scanner fun _ after => scanner.Moved after text limit ∧
      (scanner.Settled (region :: outer) → after.Settled outer ∧ scanner.mark ≤ after.mark) := by
  by_cases hid : waiting.region.id = region.id
  · apply (takeParked_leads hs.current hid).mono
    intro _ after hafter
    refine ⟨hafter.moved (hafter.within hs (hs.parked_le waiting hparked) (by simp)), ?_⟩
    intro hsettled
    obtain ⟨hstart, hle, hmost, _⟩ := hsettled.parked waiting hparked
    refine ⟨(hafter.calm hmost).settled outer, ?_⟩
    rw [hafter.mark_eq]
    omega
  · have hleave : takeParked region waiting = pure () := by
      unfold takeParked
      exact if_neg hid
    rw [hleave]
    refine Scan.Leads.pure ⟨hs.current.stays.moved hs, fun hsettled => ⟨⟨hsettled.mark_le, ?_⟩,
      Nat.le_refl _⟩⟩
    intro other hother
    cases hparked.symm.trans hother
    exact (hsettled.parked waiting hparked).further hopen hid

theorem regionTurn_bounded (hcustoms : grammar.customs = [])
    (hattempt : AttemptBounded clash text depth attempt) (hopen : region.embedded = false)
    {pending : Nat} (hs : scanner.Within text limit) (hcalm : clash ∨ scanner.Calm)
    (hregions : scanner.openRegions = region :: outer)
    (hdepth : scanner.rangeEnd - scanner.mark < depth) (hpending : pending ≤ scanner.mark) :
    (regionTurn grammar attempt region pending).Ends clash scanner
      (TurnWithin clash text limit outer scanner) := by
  have hmark := hs.mark_le
  have hend := hs.end_le
  have hlimit := hs.limit_le
  have hsmall := hs.small
  apply Scan.Ends.get
  apply Scan.Leads.then
  apply (matchAtMark_bounded hs region.endPattern).mono
  intro own middle h
  obtain ⟨hown, hwalked⟩ := h
  have hmiddle := hwalked.keeps hs hmark
  rcases own with _ | length
  · apply Scan.Leads.then
    unfold outerEnd
    apply Scan.Leads.get
    rw [hwalked.openRegions_eq, hregions]
    apply (firstEnd_bounded hmiddle outer).mono
    intro found middle' h
    obtain ⟨hfound, hwalked'⟩ := h
    rw [hwalked.mark_eq, hwalked.rangeEnd_eq] at hfound
    rw [hwalked.mark_eq, hwalked.parked_eq] at hwalked'
    have hto := hwalked.trans hwalked'
    have hsto := hto.keeps hs hmark
    have hcalmTo : clash ∨ middle'.Calm := hcalm.imp_right fun h => by
      rw [h.parked_eq] at hto
      exact hto.calm h.mark_le
    rcases found with _ | ⟨found, length⟩
    · -- Nothing ends here, so the rules have their turn.
      apply Scan.Ends.bind
      apply (tryRules_bounded hcustoms hattempt (some region.contentToken) region.rules hsto
        hcalmTo hto.mark_eq (by rw [hto.rangeEnd_eq]; exact hdepth) hpending).mono
      rintro ⟨claimed, left⟩ tried htried
      have hall := (hto.moved hsto).trans htried.moved
      rcases claimed with _ | token
      · obtain ⟨hback, _⟩ := htried.unclaimed rfl
        dsimp only
        rw [Option.isSome_none, if_neg (by decide)]
        have hcalmTried := htried.calm hcalmTo hto.mark_eq
        refine Or.inl ((contentTurn_bounded hall.within hcalmTried region.contentToken
          (hback ▸ htried.pending_le)).mono fun _ _ h => h.behind hall hback)
      · obtain ⟨hforward, hlt, hsettled⟩ := htried.claimed token rfl
        rw [hto.rangeEnd_eq] at hlt
        rw [hto.openRegions_eq, hregions] at hsettled
        dsimp only
        rw [Option.isSome_some, if_pos rfl]
        apply Scan.Ends.get
        rcases hparked : tried.parked with _ | waiting
        · refine Scan.Ends.get (Scan.Ends.pure ⟨hall, fun pending hnext => ?_, by simp⟩)
          cases hnext
          exact ⟨Nat.le_refl _, hforward, hlt, hsettled.imp_right fun h => ⟨h.mark_le, hparked⟩⟩
        · apply Scan.Leads.then
          apply (takeParked_bounded outer hall.within hparked hopen).mono
          intro _ after h
          refine Scan.Ends.pure ⟨hall.trans h.1, by simp, fun _ => ?_⟩
          refine hsettled.imp_right fun hset => ?_
          obtain ⟨hafter, hle⟩ := h.2 hset
          exact ⟨hafter, by omega⟩
    · -- The end of a region around it is parked.
      obtain ⟨hmem, hlength⟩ := hfound found length rfl
      apply Scan.Leads.then
      apply (reportContent_leads hto.current (some region.contentToken)
        (hto.mark_eq.symm ▸ hpending : pending ≤ scanner.mark)).mono
      intro _ reported h
      have hreported := hto.trans h.2
      rw [hto.mark_eq, hto.parked_eq] at hreported
      refine Scan.Leads.then (Scan.Leads.sum (by omega) ?_)
      apply Scan.Ends.bind
      apply (park_bounded hreported.current (hcalm.imp_right fun h => by
        rw [hreported.parked_eq, h.parked_eq]) _).mono
      intro _ after h
      rw [hreported.mark_eq] at h
      have hafter := hreported.trans h
      refine Scan.Ends.pure ⟨hafter.moved (hafter.within hs hmark ?_), by simp, fun _ => ?_⟩
      · intro waiting hwaiting
        cases hwaiting
        exact Nat.le_trans hlength hend
      · refine hcalm.imp_right fun hcalm => ⟨⟨?_, ?_⟩, Nat.le_of_eq hafter.mark_eq.symm⟩
        · rw [hafter.mark_eq, hafter.rangeEnd_eq]
          exact hcalm.mark_le
        · intro waiting hwaiting
          rw [hafter.parked_eq] at hwaiting
          cases hwaiting
          rw [hafter.mark_eq, hafter.rangeEnd_eq]
          exact ⟨rfl, Nat.le_add_right _ _, hlength, hmem, by simp⟩
  · -- The region itself ends here.
    have hlength := hown length rfl
    apply Scan.Leads.then
    apply (reportContent_leads hwalked.current (some region.contentToken) hpending).mono
    intro _ reported h
    have hreported := hwalked.trans h.2
    apply Scan.Leads.then
    apply (report_leads hreported.current region.endToken scanner.mark length).mono
    intro _ ended h
    have hended := hreported.trans h
    refine Scan.Leads.then (Scan.Leads.sum (by omega) ?_)
    apply Scan.Leads.then
    apply (endMatchAt_leads hended.current _).mono
    intro _ after h
    have hafter := hended.trans h
    rw [hended.parked_eq, hreported.parked_eq, hwalked.parked_eq] at hafter
    refine Scan.Ends.pure ⟨hafter.moved (hafter.keeps hs (by omega)), by simp, fun _ => ?_⟩
    refine hcalm.imp_right fun hcalm => ?_
    rw [hcalm.parked_eq] at hafter
    exact ⟨(hafter.calm hlength).settled outer, by rw [hafter.mark_eq]; omega⟩

/-- Each turn but the last one moves the mark forward in the range, so the turns are enough. -/
theorem scanRegion_bounded (hcustoms : grammar.customs = [])
    (hattempt : AttemptBounded clash text depth attempt) (hopen : region.embedded = false)
    {turns pending : Nat} (hs : scanner.Within text limit) (hcalm : clash ∨ scanner.Calm)
    (hregions : scanner.openRegions = region :: outer)
    (hdepth : scanner.rangeEnd - scanner.mark < depth)
    (hturns : scanner.rangeEnd - scanner.mark < turns) (hpending : pending ≤ scanner.mark) :
    (scanRegion grammar attempt region turns pending).Ends clash scanner fun _ after =>
      scanner.Moved after text limit ∧
        (clash ∨ after.Settled outer ∧ scanner.mark ≤ after.mark) := by
  induction turns generalizing scanner pending with
  | zero => omega
  | succ turns ih =>
    rw [scanRegion_succ]
    apply Scan.Ends.bind
    apply (regionTurn_bounded hcustoms hattempt hopen hs hcalm hregions hdepth hpending).mono
    intro next after h
    rcases next with _ | left
    · exact Scan.Ends.pure ⟨h.moved, h.last rfl⟩
    · obtain ⟨hleft, hforward, hlt, hcalm'⟩ := h.onward left rfl
      have hrange := h.moved.rangeEnd_eq
      apply (ih h.moved.within hcalm' (h.moved.openRegions_eq.trans hregions) (by omega) (by omega)
        hleft).mono
      intro _ final hfinal
      refine ⟨h.moved.trans hfinal.1, hfinal.2.imp_right fun hsettled => ⟨hsettled.1, ?_⟩⟩
      have := hsettled.2
      omega

/-! ## Turns inside a block -/

/-- One turn of the search for the end of a block. It gives the end once it is found. -/
def seekTurn (region : Region) : RuleScan (Option (Nat × Nat)) := do
  let here := (← get).mark
  match ← matchAtMark region.endPattern with
  | some length => return some (here, length)
  | none =>
    match ← Scanner.read with
    | some _ => return none
    | none =>
      modify Scanner.stepBack
      return some ((← get).mark, 0)

theorem findBlockEnd_succ (region : Region) (turns : Nat) :
    findBlockEnd region (turns + 1) = (do
      match ← seekTurn region with
      | some found => return found
      | none => findBlockEnd region turns) := by
  rw [findBlockEnd, seekTurn]
  simp only [bind_assoc]
  refine bind_congr fun scanner => bind_congr fun own => ?_
  rcases own with _ | length
  · simp only [bind_assoc]
    refine bind_congr fun char => ?_
    rcases char with _ | c <;> simp
  · simp

/-- What comes of a turn: the mark has gone forward in the range, or the end is found. -/
structure SoughtWithin (text : Text) (limit : Nat) (scanner : Scanner Region)
    (found : Option (Nat × Nat)) (after : Scanner Region) : Prop where
  moved : scanner.Moved after text limit
  parked_eq : after.parked = scanner.parked
  onward : found = none → scanner.mark < after.mark ∧ after.mark ≤ scanner.rangeEnd
  found : ∀ start length, found = some (start, length) → scanner.mark ≤ start ∧
    (scanner.mark ≤ scanner.rangeEnd → start + length ≤ scanner.rangeEnd)

theorem seekTurn_bounded (hs : scanner.Within text limit) (region : Region) :
    (seekTurn region).Leads scanner (SoughtWithin text limit scanner) := by
  have hend := hs.end_le
  apply Scan.Leads.get
  apply Scan.Leads.bind
  apply (matchAtMark_bounded hs region.endPattern).mono
  intro own middle h
  obtain ⟨hown, hwalked⟩ := h
  have hmiddle := hwalked.keeps hs hs.mark_le
  rcases own with _ | length
  · apply Scan.Leads.bind
    apply (read_bounded hmiddle).mono
    intro char read h
    rw [hwalked.mark_eq, hwalked.rangeEnd_eq, hwalked.parked_eq] at h
    rcases char with _ | c
    · have hback := hwalked.trans (h.2 rfl).2
      refine Scan.Leads.bind (Scan.Leads.changed (Scan.Leads.get (Scan.Leads.pure
        ⟨hback.moved (hback.keeps hs hs.mark_le), hback.parked_eq, by simp, ?_⟩)))
      intro start length hfound
      cases hfound
      rw [hback.mark_eq]
      exact ⟨Nat.le_refl _, fun hle => by omega⟩
    · obtain ⟨hlt, hstep⟩ := h.1 rfl
      have hforward := hwalked.trans hstep
      refine Scan.Leads.pure ⟨hforward.moved (hforward.keeps hs (by omega)), hforward.parked_eq,
        fun _ => ?_, by simp⟩
      rw [hforward.mark_eq]
      omega
  · refine Scan.Leads.pure ⟨hwalked.moved hmiddle, hwalked.parked_eq, by simp, ?_⟩
    intro start found hfound
    cases hfound
    exact ⟨Nat.le_refl _, fun _ => hown length rfl⟩

theorem findBlockEnd_bounded {turns : Nat} (hs : scanner.Within text limit)
    (hle : scanner.mark ≤ scanner.rangeEnd) (hturns : scanner.rangeEnd - scanner.mark < turns) :
    (findBlockEnd region turns).Leads scanner fun result after =>
      scanner.Moved after text limit ∧ after.parked = scanner.parked ∧
        scanner.mark ≤ result.1 ∧ result.1 + result.2 ≤ scanner.rangeEnd := by
  induction turns generalizing scanner with
  | zero => omega
  | succ turns ih =>
    rw [findBlockEnd_succ]
    apply Scan.Leads.bind
    apply (seekTurn_bounded hs region).mono
    intro found after h
    rcases found with _ | ⟨start, length⟩
    · obtain ⟨hforward, hin⟩ := h.onward rfl
      have hrange := h.moved.rangeEnd_eq
      apply (ih h.moved.within (by omega) (by omega)).mono
      intro result final hfinal
      obtain ⟨hmoved, hparked, hstart, hstop⟩ := hfinal
      exact ⟨h.moved.trans hmoved, hparked.trans h.parked_eq, by omega, by omega⟩
    · obtain ⟨hstart, hstop⟩ := h.found start length rfl
      exact Scan.Leads.pure ⟨h.moved, h.parked_eq, hstart, hstop hle⟩

/-- One turn of the scan of a block, as `regionTurn`. -/
def blockTurn (grammar : Grammar) (attempt : Rule → RuleScan Token) (region : Region)
    (pending : Nat) : RuleScan (Option Nat) := do
  let here := (← get).mark
  let (claimed, pending) ←
    tryRules grammar.mayStart attempt (some region.contentToken) here region.rules pending
  if claimed.isSome then return some (← get).mark
  else contentTurn region.contentToken pending

/-- A block is scanned turn by turn. -/
theorem scanBlock_succ (grammar : Grammar) (attempt : Rule → RuleScan Token) (region : Region)
    (turns pending : Nat) :
    scanBlock grammar attempt region (turns + 1) pending = (do
      match ← blockTurn grammar attempt region pending with
      | some pending => scanBlock grammar attempt region turns pending
      | none => return ()) := by
  rw [scanBlock, blockTurn]
  simp only [bind_assoc]
  refine bind_congr fun scanner => bind_congr fun result => ?_
  split
  · simp
  · unfold contentTurn
    simp only [bind_assoc]
    refine bind_congr fun char => ?_
    rcases char with _ | c <;> simp

/-- Nothing that is open around a block can end inside it. -/
theorem Scanner.Settled.calm {openRegions : List Region} (h : scanner.Settled openRegions)
    (hsealed : endable openRegions = []) : scanner.Calm := by
  refine ⟨h.mark_le, ?_⟩
  rcases hparked : scanner.parked with _ | waiting
  · rfl
  · have hmem := (h.parked waiting hparked).mem
    rw [hsealed] at hmem
    cases hmem

theorem blockTurn_bounded (hcustoms : grammar.customs = [])
    (hattempt : AttemptBounded clash text depth attempt) (hsealed : region.embedded = true)
    {pending : Nat} (hs : scanner.Within text limit) (hcalm : clash ∨ scanner.Calm)
    (hregions : scanner.openRegions = region :: outer)
    (hdepth : scanner.rangeEnd - scanner.mark < depth) (hpending : pending ≤ scanner.mark) :
    (blockTurn grammar attempt region pending).Ends clash scanner
      (TurnWithin clash text limit [] scanner) := by
  apply Scan.Ends.get
  apply Scan.Ends.bind
  apply (tryRules_bounded hcustoms hattempt (some region.contentToken) region.rules hs hcalm rfl
    hdepth hpending).mono
  rintro ⟨claimed, left⟩ tried htried
  rcases claimed with _ | token
  · obtain ⟨hback, _⟩ := htried.unclaimed rfl
    dsimp only
    rw [Option.isSome_none, if_neg (by decide)]
    have hcalmTried := htried.calm hcalm rfl
    exact Or.inl ((contentTurn_bounded htried.moved.within hcalmTried region.contentToken
      (hback ▸ htried.pending_le)).mono fun _ _ h => h.behind htried.moved hback)
  · obtain ⟨hforward, hlt, hsettled⟩ := htried.claimed token rfl
    rw [hregions] at hsettled
    dsimp only
    rw [Option.isSome_some, if_pos rfl]
    refine Scan.Ends.get (Scan.Ends.pure ⟨htried.moved, fun pending hnext => ?_, by simp⟩)
    cases hnext
    have hnone : endable (region :: outer) = [] := endable_sealed hsealed
    exact ⟨Nat.le_refl _, hforward, hlt, hsettled.imp_right fun h => h.calm hnone⟩

theorem scanBlock_bounded (hcustoms : grammar.customs = [])
    (hattempt : AttemptBounded clash text depth attempt) (hsealed : region.embedded = true)
    {turns pending : Nat} (hs : scanner.Within text limit) (hcalm : clash ∨ scanner.Calm)
    (hregions : scanner.openRegions = region :: outer)
    (hdepth : scanner.rangeEnd - scanner.mark < depth)
    (hturns : scanner.rangeEnd - scanner.mark < turns) (hpending : pending ≤ scanner.mark) :
    (scanBlock grammar attempt region turns pending).Ends clash scanner fun _ after =>
      scanner.Moved after text limit ∧ (clash ∨ after.Calm) := by
  induction turns generalizing scanner pending with
  | zero => omega
  | succ turns ih =>
    rw [scanBlock_succ]
    apply Scan.Ends.bind
    apply (blockTurn_bounded hcustoms hattempt hsealed hs hcalm hregions hdepth hpending).mono
    intro next after h
    rcases next with _ | left
    · exact Scan.Ends.pure ⟨h.moved, (h.last rfl).imp_right fun hlast => hlast.1.calm rfl⟩
    · obtain ⟨hleft, hforward, hlt, hcalm'⟩ := h.onward left rfl
      have hrange := h.moved.rangeEnd_eq
      apply (ih h.moved.within hcalm' (h.moved.openRegions_eq.trans hregions) (by omega) (by omega)
        hleft).mono
      intro _ final hfinal
      exact ⟨h.moved.trans hfinal.1, hfinal.2⟩

/-! ## Entering -/

/-- The state in which the inside of a region or of a block is scanned: from `start` up to `stop`,
with the region open inside all regions that were open before it. -/
structure Scanner.Opened (scanner : Scanner Region) (region : Region) (start stop : Nat)
    (inside : Scanner Region) (text : Text) (limit : Nat) : Prop where
  within : inside.Within text limit
  mark_eq : inside.mark = start
  rangeEnd_eq : inside.rangeEnd = stop
  parked_eq : inside.parked = scanner.parked
  openRegions_eq : inside.openRegions = region :: scanner.openRegions

/-- A region is scanned in the range that is active. -/
theorem Scanner.Walked.opened {first : Scanner Region} {spans : List Span} {start : Nat}
    (h : scanner.Walked first spans start scanner.parked) (hs : scanner.Within text limit)
    (hstart : start ≤ limit) (region : Region) :
    scanner.Opened region start scanner.rangeEnd (first.openRegion region) text limit := by
  have hcurrent := h.current
  obtain ⟨cache, lastMatch, rfl⟩ := h.eq
  exact ⟨⟨⟨hcurrent.1, hcurrent.2⟩, hs.holds, hs.small, hs.limit_le, hstart, hs.end_le,
    hs.parked_le⟩, rfl, rfl, rfl, rfl⟩

/-- A block is scanned in a range of its own. -/
theorem Scanner.Walked.openedIn {first entered : Scanner Region} {spans : List Span}
    {mark start stop : Nat} (h : scanner.Walked first spans mark scanner.parked)
    (hentered : (first.inRange stop).Walked entered [] start scanner.parked)
    (hs : scanner.Within text limit) (hstart : start ≤ limit) (hstop : stop ≤ limit)
    (region : Region) :
    scanner.Opened region start stop (entered.openRegion region) text limit := by
  have hcurrent := hentered.current
  obtain ⟨cache, lastMatch, rfl⟩ := h.eq
  obtain ⟨cache', lastMatch', rfl⟩ := hentered.eq
  exact ⟨⟨⟨hcurrent.1, hcurrent.2⟩, hs.holds, hs.small, hs.limit_le, hstart, hstop, hs.parked_le⟩,
    rfl, rfl, rfl, rfl⟩

theorem Scanner.Opened.calm {inside : Scanner Region} {start stop : Nat}
    (h : scanner.Opened region start stop inside text limit) (hle : start ≤ stop)
    (hcalm : clash ∨ scanner.Calm) : clash ∨ inside.Calm :=
  hcalm.imp_right fun hcalm =>
    ⟨by rw [h.mark_eq, h.rangeEnd_eq]; exact hle, h.parked_eq.trans hcalm.parked_eq⟩

/-- A region whose begin pattern does not match claims nothing. -/
theorem AttemptedWithin.nothing {after : Scanner Region} (hs : scanner.Within text limit)
    (hcalm : clash ∨ scanner.Calm)
    (hwalked : scanner.Walked after [] scanner.mark scanner.parked) :
    AttemptedWithin clash text limit scanner .undefined after := by
  refine ⟨hwalked.moved (hwalked.keeps hs hs.mark_le), hcalm.imp_right fun hcalm => ?_⟩
  rw [hcalm.parked_eq] at hwalked
  exact ⟨(hwalked.calm hcalm.mark_le).settled _, fun hparked => absurd hwalked.parked_eq hparked⟩

variable {turns : Turns}

theorem attemptRegion_bounded (hturns : turns.Enough) (hcustoms : grammar.customs = [])
    (hattempt : AttemptBounded clash text depth attempt) (hopen : region.embedded = false)
    (hbegin : clash ∨ region.beginToken ≠ .undefined) (hs : scanner.Within text limit)
    (hcalm : clash ∨ scanner.Calm) (hdepth : scanner.rangeEnd - scanner.mark < depth + 1) :
    (attemptRegion grammar turns attempt region).Ends clash scanner
      (AttemptedWithin clash text limit scanner) := by
  have hend := hs.end_le
  have hlimit := hs.limit_le
  have hsmall := hs.small
  obtain ⟨found, middle, hclaim, hlimits, hwalked⟩ := claimAtMark_bounded hs region.beginPattern
  rcases found with _ | length
  · exact Or.inl ⟨_, middle, attemptRegion_nothing hclaim, .nothing hs hcalm hwalked⟩
  · obtain ⟨hpos, hlength⟩ := hlimits length rfl
    obtain ⟨first, hfirst, hopens⟩ := attemptRegion_opens hclaim hwalked hpos (by omega)
    refine Scan.Ends.of_eq hopens ?_
    -- The region is open while its inside is scanned.
    have hin := hfirst.opened hs (by omega) region
    have hinMark := hin.mark_eq
    have hinRange := hin.rangeEnd_eq
    apply Scan.Ends.bind
    refine (Scan.Ends.outcome (Scan.Ends.get (scanRegion_bounded hcustoms hattempt hopen
      hin.within (hin.calm hlength hcalm) hin.openRegions_eq (by omega) (hturns _)
      (Nat.le_of_eq hinMark.symm)))).mono fun result inside h => ?_
    obtain ⟨_, rfl, hmoved, hsettled⟩ := h
    obtain ⟨spans, hspans⟩ := hmoved.walked
    refine Or.inl ((closeOpened_leads hspans).mono ?_)
    rintro _ after ⟨rfl, hclosed⟩
    have hall := hfirst.trans hclosed
    refine ⟨hall.moved (hall.within hs hmoved.within.mark_le hmoved.within.parked_le), ?_⟩
    rcases hbegin with hclash | hdefined
    · exact Or.inl hclash
    · refine hsettled.imp_right fun h => ⟨⟨?_, ?_⟩, fun _ => ⟨hdefined, ?_⟩⟩
      · rw [hclosed.mark_eq, hclosed.rangeEnd_eq]
        exact hmoved.rangeEnd_eq ▸ h.1.mark_le
      · rw [hclosed.mark_eq, hclosed.rangeEnd_eq, hclosed.parked_eq]
        exact hmoved.rangeEnd_eq ▸ h.1.parked
      · have hforward := h.2
        rw [hclosed.mark_eq]
        omega

theorem attemptBlock_bounded (hturns : turns.Enough) (hcustoms : grammar.customs = [])
    (hattempt : AttemptBounded clash text depth attempt) (hsealed : region.embedded = true)
    (hs : scanner.Within text limit) (hcalm : clash ∨ scanner.Calm)
    (hdepth : scanner.rangeEnd - scanner.mark < depth + 1) :
    (attemptBlock grammar turns attempt region).Ends clash scanner
      (AttemptedWithin clash text limit scanner) := by
  have hend := hs.end_le
  have hlimit := hs.limit_le
  have hsmall := hs.small
  have hdocument : scanner.document.length = text.length := hs.holds.length_eq
  obtain ⟨found, middle, hclaim, hlimits, hwalked⟩ := claimAtMark_bounded hs region.beginPattern
  rcases found with _ | length
  · exact Or.inl ⟨_, middle, attemptBlock_nothing hclaim, .nothing hs hcalm hwalked⟩
  · obtain ⟨hpos, hlength⟩ := hlimits length rfl
    have hmoved := hwalked.still (moveTo_walks hwalked.current (scanner.mark + length))
    rw [hwalked.parked_eq] at hmoved
    have hmark := hmoved.mark_eq
    have hrange := hmoved.rangeEnd_eq
    obtain ⟨⟨start, endLength⟩, sought, hseek, hsought, hparked, hstart, hstop⟩ :=
      findBlockEnd_bounded (hmoved.keeps hs (by omega)) (by omega) (hturns _)
    rw [hmark] at hstart
    rw [hrange] at hstop
    rw [hmoved.parked_eq] at hparked
    obtain ⟨more, hmore⟩ := hsought.walked
    have hto := hmoved.trans hmore
    rw [hparked] at hto
    dsimp only at hstart hstop
    obtain ⟨first, entered, hresume, h, henters⟩ := attemptBlock_enters hclaim hpos (by omega) hseek
      hto hstart (by omega) (by omega)
    refine Scan.Ends.of_eq henters ?_
    have hin := hresume.openedIn h hs (by omega) (by omega) region
    have hinMark := hin.mark_eq
    have hinRange := hin.rangeEnd_eq
    apply Scan.Ends.bind
    refine (Scan.Ends.outcome (Scan.Ends.get (scanBlock_bounded hcustoms hattempt hsealed
      hin.within (hin.calm hstart hcalm) hin.openRegions_eq (by omega) (hturns _)
      (Nat.le_of_eq hinMark.symm)))).mono fun result inside hresult => ?_
    obtain ⟨_, rfl, hscanned, hquiet⟩ := hresult
    obtain ⟨spans, hspans⟩ := hscanned.walked
    refine Or.inl ((closeEntered_leads h hspans).mono ?_)
    rintro _ after ⟨rfl, hclosed⟩
    rw [hresume.mark_eq] at hclosed
    have hlast := hresume.trans hclosed
    refine ⟨hlast.moved (hlast.within hs (by omega) hscanned.within.parked_le), ?_⟩
    refine hquiet.imp_right fun hquiet => ?_
    rw [hquiet.parked_eq] at hlast
    exact ⟨(hlast.calm hstop).settled _, fun hparked => absurd hlast.parked_eq hparked⟩

/-! ## Rules at any depth -/

theorem attemptWithin_bounded (hturns : turns.Enough) (hcustoms : grammar.customs = [])
    (hbegins : clash ∨ grammar.BeginsDefined) (depth : Nat) :
    AttemptBounded clash text depth (grammar.attemptWithin turns depth) := by
  induction depth with
  | zero => exact fun _ _ _ hdepth => absurd hdepth (Nat.not_lt_zero _)
  | succ depth ih =>
    intro scanner limit rule hs hcalm hdepth
    have hend := hs.end_le
    have hlimit := hs.limit_le
    have hsmall := hs.small
    unfold Grammar.attemptWithin
    rcases rule with ⟨pattern, token⟩ | id | index
    · apply Scan.Leads.then
      apply (claimAtMark_bounded hs pattern).mono
      intro found middle h
      obtain ⟨hclaim, hwalked⟩ := h
      rcases found with _ | length
      · exact Scan.Ends.pure (.nothing hs hcalm hwalked)
      · obtain ⟨_, hlength⟩ := hclaim length rfl
        apply Scan.Ends.get
        rw [hwalked.mark_eq]
        refine Scan.Leads.then (Scan.Leads.sum (by omega) (Scan.Leads.then
          ((endMatchAt_leads hwalked.current _).mono fun _ after h => Scan.Ends.pure ?_)))
        have hafter := hwalked.trans h
        rw [hwalked.parked_eq] at hafter
        refine ⟨hafter.moved (hafter.keeps hs (by omega)), hcalm.imp_right fun hcalm => ?_⟩
        rw [hcalm.parked_eq] at hafter
        exact ⟨(hafter.calm hlength).settled _, fun hparked => absurd hafter.parked_eq hparked⟩
    · dsimp only
      rcases hregion : grammar.regions[id]? with _ | region
      · exact Scan.Ends.pure (.nothing hs hcalm hs.current.stays)
      · have hbegin := hbegins.imp_right fun h => h region (List.mem_of_getElem? hregion)
        dsimp only
        rcases hsealed : region.embedded with _ | _
        · rw [if_neg (by decide)]
          exact attemptRegion_bounded hturns hcustoms ih hsealed hbegin hs hcalm hdepth
        · rw [if_pos rfl]
          exact attemptBlock_bounded hturns hcustoms ih hsealed hs hcalm hdepth
    · simp only [hcustoms, List.getElem?_nil]
      exact Scan.Ends.pure (.nothing hs hcalm hs.current.stays)

/-- The characters that are left are depth enough. -/
theorem attempt_bounded (hcustoms : grammar.customs = [])
    (hbegins : clash ∨ grammar.BeginsDefined) (depth : Nat) :
    AttemptBounded clash text depth grammar.attempt := by
  intro scanner limit rule hs hcalm _
  exact Scan.Ends.get (attemptWithin_bounded turnsLeft_enough hcustoms hbegins _ rule hs hcalm
    (turnsLeft_enough scanner))

end RegionScan
