-- The turns and the depth that a scan is given are enough. Each turn that goes on raises the mark,
-- each region claims a character before it tries the rules inside it, and no mark passes the
-- largest offset. So a scan never runs away, unless a rule of the host does or moves marks
-- where it must not, and the bounds are no part of what a scan does.
import RegionScan.Proofs.Calls
import RegionScan.Proofs.Depths
import RegionScan.Proofs.Yields

namespace RegionScan

/-! ## Steps that do not run away -/

/-- The step does not run away, and where it comes through, `post` holds of what it gives and of
the state behind it. -/
def Scan.InTime {ρ α : Type} (step : Scan ρ α) (scanner : Scanner ρ)
    (post : α → Scanner ρ → Prop) : Prop :=
  step.Meets scanner post fun halt _ => halt ≠ .faulted .runaway

namespace Scan.InTime

variable {ρ α β : Type} {scanner : Scanner ρ} {step : Scan ρ α} {next : α → Scan ρ β}
  {post : β → Scanner ρ → Prop}

theorem bind (h : step.InTime scanner fun value after => (next value).InTime after post) :
    (step >>= next).InTime scanner post := Meets.bind h

theorem get {next : Scanner ρ → Scan ρ β} (h : (next scanner).InTime scanner post) :
    (MonadState.get >>= next).InTime scanner post := Meets.get h

theorem fail (error : ScanError) : (Scan.fail error : Scan ρ β).InTime scanner post :=
  Meets.of_error rfl nofun

theorem fault {fault : Fault} (h : fault ≠ .runaway) :
    (Scan.fault fault : Scan ρ β).InTime scanner post :=
  Meets.of_error rfl fun heq => h (Halt.faulted.inj heq)

theorem sum {offset length : Nat} {post : Nat → Scanner ρ → Prop}
    (h : offset + length ≤ maxOffset → post (offset + length) scanner) :
    (Scan.sum offset length : Scan ρ Nat).InTime scanner post := Meets.sum nofun h

theorem difference {stop start : Nat} {post : Nat → Scanner ρ → Prop}
    (h : start ≤ stop → post (stop - start) scanner) :
    (Scan.difference stop start : Scan ρ Nat).InTime scanner post := Meets.difference nofun h

/-- An error that comes back as a value says nothing of the state. -/
theorem outcome {post : α → Scanner ρ → Prop} (h : step.InTime scanner post) :
    (Scan.outcome step).InTime scanner fun result after =>
      ∀ value, result = .ok value → post value after := by
  refine Meets.outcome (Meets.mono h (fun value after hpost => ?_) fun halt after hhalt => ?_)
  · rintro _ ⟨⟩
    exact hpost
  · rcases halt with error | fault
    · exact nofun
    · exact hhalt

end Scan.InTime

/-! ## Marks that can be offsets -/

/-- Wherever the scan may go on from there, it is at an offset. -/
structure Scanner.InOffsets (scanner : Scanner Region) : Prop where
  mark : scanner.mark ≤ maxOffset
  rangeEnd : scanner.rangeEnd ≤ maxOffset
  parked : ∀ waiting, scanner.parked = some waiting → waiting.stop ≤ maxOffset
  frames : ∀ saved ∈ scanner.frames, saved.offset ≤ maxOffset ∧ saved.rangeEnd ≤ maxOffset

/-- Two states that may go on from the same places. -/
structure Scanner.SamePlaces (scanner after : Scanner Region) : Prop where
  mark : after.mark = scanner.mark
  rangeEnd : after.rangeEnd = scanner.rangeEnd
  parked : after.parked = scanner.parked
  frames : after.frames = scanner.frames

namespace Scanner

variable {scanner middle after : Scanner Region} {offset : Nat}

theorem SamePlaces.refl (scanner : Scanner Region) : scanner.SamePlaces scanner :=
  ⟨rfl, rfl, rfl, rfl⟩

theorem SamePlaces.trans (h : scanner.SamePlaces middle) (hmore : middle.SamePlaces after) :
    scanner.SamePlaces after :=
  ⟨hmore.mark.trans h.mark, hmore.rangeEnd.trans h.rangeEnd, hmore.parked.trans h.parked,
    hmore.frames.trans h.frames⟩

theorem samePlaces_withCache (scanner : Scanner Region) (cache : Cache) :
    scanner.SamePlaces (scanner.withCache cache) := ⟨rfl, rfl, rfl, rfl⟩

theorem InOffsets.same (h : scanner.InOffsets) (hsame : scanner.SamePlaces after) :
    after.InOffsets where
  mark := hsame.mark ▸ h.mark
  rangeEnd := hsame.rangeEnd ▸ h.rangeEnd
  parked := hsame.parked ▸ h.parked
  frames := hsame.frames ▸ h.frames

theorem InOffsets.atMark (h : scanner.InOffsets) (hle : offset ≤ maxOffset) :
    ({ scanner with mark := offset } : Scanner Region).InOffsets :=
  ⟨hle, h.rangeEnd, h.parked, h.frames⟩

theorem InOffsets.moveTo (h : scanner.InOffsets) (hle : offset ≤ maxOffset) :
    (scanner.moveTo offset).InOffsets := by
  obtain ⟨cache, hmove⟩ := scanner.moveTo_cached offset
  rw [hmove]
  exact (h.atMark hle).same (samePlaces_withCache _ cache)

theorem InOffsets.stepBack (h : scanner.InOffsets) : scanner.stepBack.InOffsets := by
  obtain ⟨cache, hback⟩ := scanner.stepBack_cached
  rw [hback]
  exact (h.atMark (Nat.le_trans (Nat.sub_le _ _) h.mark)).same (samePlaces_withCache _ cache)

/-- The turns that are left are those up to the largest offset. -/
theorem InOffsets.turnsLeft_eq (h : scanner.InOffsets) :
    turnsLeft scanner = maxOffset - scanner.mark + 1 := by
  rw [turnsLeft, Nat.max_eq_right h.rangeEnd]

end Scanner

/-! ## Steps of rules -/

variable {grammar : Grammar} {attempt : Rule → RuleScan Token} {scanner : Scanner Region}
  {region : Region} {depth : Nat}

theorem matchAtMark_inTime (pattern : Pattern) (scanner : Scanner Region) :
    (matchAtMark pattern).InTime scanner fun _ after => scanner.SamePlaces after := by
  rcases matchAtMark_cached pattern scanner with ⟨found, cache, hmatch, -⟩ | ⟨after, hmatch⟩
  · exact .of_ok hmatch (Scanner.samePlaces_withCache scanner cache)
  · exact .of_error hmatch nofun

theorem claimAtMark_inTime (pattern : Pattern) (scanner : Scanner Region) :
    (claimAtMark pattern).InTime scanner fun found after =>
      (∀ length, found = some length → 0 < length) ∧ scanner.SamePlaces after := by
  apply Scan.InTime.bind
  apply (matchAtMark_inTime pattern scanner).weaken
  intro found after hsame
  refine .pure ⟨fun length hfound => ?_, hsame⟩
  exact of_decide_eq_true (Option.filter_eq_some_iff.mp hfound).2

theorem firstEnd_inTime (regions : List Region) (scanner : Scanner Region) :
    (firstEnd regions).InTime scanner fun _ after => scanner.SamePlaces after := by
  induction regions generalizing scanner with
  | nil => exact .pure (.refl scanner)
  | cons region outer ih =>
    unfold firstEnd
    split
    · exact .pure (.refl scanner)
    · apply Scan.InTime.bind
      apply (matchAtMark_inTime region.endPattern scanner).weaken
      intro found after hsame
      rcases found with _ | length
      · exact (ih after).weaken fun _ last hlast => hsame.trans hlast
      · exact .pure hsame

theorem report_inTime (token : Token) (offset length : Nat) (scanner : Scanner Region) :
    (report token offset length).InTime scanner fun _ after => scanner.SamePlaces after := by
  unfold report
  split
  · exact .changed ⟨rfl, rfl, rfl, rfl⟩
  · exact .pure (.refl scanner)

theorem reportContent_inTime (content : Option Token) (pending here : Nat)
    (scanner : Scanner Region) :
    (reportContent content pending here).InTime scanner fun _ after =>
      scanner.SamePlaces after := by
  unfold reportContent
  rcases content with _ | token
  · exact .pure (.refl scanner)
  · exact .bind (.difference fun _ =>
      .bind ((report_inTime token _ _ scanner).weaken fun _ _ hsame => .pure hsame))

theorem endMatchAt_inTime (hs : scanner.InOffsets) {stop : Nat} (hle : stop ≤ maxOffset) :
    (endMatchAt stop).InTime scanner fun _ after => after.InOffsets ∧ after.mark = stop := by
  obtain ⟨cache, hmove⟩ := scanner.moveTo_cached stop
  refine .changed ⟨(hs.moveTo hle).same ⟨rfl, rfl, rfl, rfl⟩, ?_⟩
  rw [hmove]
  rfl

/-- A read moves the mark on, also where there is no character. -/
theorem read_inTime (hs : scanner.InOffsets) :
    Scanner.read.InTime scanner fun _ after =>
      after.InOffsets ∧ after.mark = scanner.mark + 1 := by
  rcases scanner.read_cached with ⟨char, cache, hread⟩ | hread
  · have hlt : scanner.mark < maxOffset := by
      refine Nat.lt_of_not_le fun hfar => ?_
      unfold Scanner.read at hread
      rw [Scan.get_bind, if_pos hfar] at hread
      cases hread
    exact .of_ok hread ⟨(hs.atMark hlt).same (Scanner.samePlaces_withCache _ cache), rfl⟩
  · exact .of_error hread nofun

theorem park_inTime (hs : scanner.InOffsets) {waiting : ParkedEnd Region}
    (hle : waiting.stop ≤ maxOffset) :
    (Scanner.park waiting).InTime scanner fun _ after => after.InOffsets := by
  have hparked : ({ scanner with parked := some waiting } : Scanner Region).InOffsets :=
    ⟨hs.mark, hs.rangeEnd, by rintro _ ⟨⟩; exact hle, hs.frames⟩
  unfold Scanner.park
  apply Scan.InTime.get
  split
  · exact .bind (.fault nofun)
  · exact .changed hparked

/-- An end match that is taken leads to an offset. -/
theorem takeParked_inTime (hs : scanner.InOffsets) {waiting : ParkedEnd Region}
    (hparked : scanner.parked = some waiting) (region : Region) :
    (takeParked region waiting).InTime scanner fun _ after => after.InOffsets := by
  have hfree : scanner.unpark.InOffsets := ⟨hs.mark, hs.rangeEnd, nofun, hs.frames⟩
  have hend : ∀ {middle : Scanner Region}, middle.InOffsets →
      (endMatchAt waiting.stop).InTime middle fun _ after => after.InOffsets := fun hmiddle =>
    (endMatchAt_inTime hmiddle (hs.parked waiting hparked)).weaken fun _ _ h => h.1
  unfold takeParked
  split
  · apply Scan.InTime.bind
    apply Scan.Meets.changed
    split
    · exact .bind (.changed (hend (hfree.same ⟨rfl, rfl, rfl, rfl⟩)))
    · exact hend hfree
  · exact .pure hs

/-! ## Trying rules -/

/-- A rule of the host that does not run away, whose marks are offsets, and that leaves the mark
alone when it is asked whether it may start. -/
structure CustomRule.InTime (custom : CustomRule) : Prop where
  mayStart : ∀ scanner : Scanner Region, scanner.InOffsets →
    custom.mayStart.InTime scanner fun _ after => after.InOffsets ∧ after.mark = scanner.mark
  attempt : ∀ scanner : Scanner Region, scanner.InOffsets →
    custom.attempt.InTime scanner fun _ after => after.InOffsets

/-- A rule with fixed steps moves the mark within the offsets. -/
theorem FixedRule.toCustom_inTime (rule : FixedRule) : rule.toCustom.InTime where
  mayStart := fun _ hs => .get (.pure ⟨hs, rfl⟩)
  attempt := fun scanner hs => by
    have hmoves : ∀ offset : Int, (do
        modify (·.moveTo (min offset.toNat maxOffset))
        return rule.token : RuleScan Token).InTime scanner fun _ after => after.InOffsets :=
      fun offset => .bind (.changed (.pure (hs.moveTo (Nat.min_le_right _ _))))
    apply Scan.InTime.get
    split
    · exact .bind (.fail _)
    · exact hmoves _

/-- A rule that claims one character after the other up to an offset, also where there are none. -/
def CustomRule.upTo (limit : Nat) : CustomRule where
  mayStart := do return decide ((← get).mark < limit)
  attempt := do
    let mark := (← get).mark
    modify (·.moveTo (min (mark + 1) maxOffset))
    return .other "step"

theorem CustomRule.upTo_inTime (limit : Nat) : (CustomRule.upTo limit).InTime where
  mayStart := fun _ hs => .get (.pure ⟨hs, rfl⟩)
  attempt := fun _ hs => .get (.bind (.changed (.pure (hs.moveTo (Nat.min_le_right _ _)))))

/-- Rules are tried in time wherever fewer offsets than the depth lie behind the mark. -/
def AttemptInTime (depth : Nat) (attempt : Rule → RuleScan Token) : Prop :=
  ∀ {scanner : Scanner Region} (rule : Rule), scanner.InOffsets →
    maxOffset - scanner.mark < depth → (attempt rule).InTime scanner fun _ after => after.InOffsets

theorem mayStart_inTime (hcustoms : ∀ custom ∈ grammar.customs, custom.InTime)
    (hs : scanner.InOffsets) (rule : Rule) :
    (grammar.mayStart rule).InTime scanner fun _ after =>
      after.InOffsets ∧ after.mark = scanner.mark := by
  have hclaim : ∀ pattern, (do return (← claimAtMark pattern).isSome : RuleScan Bool).InTime scanner
      fun _ after => after.InOffsets ∧ after.mark = scanner.mark := fun pattern =>
    .bind ((claimAtMark_inTime pattern scanner).weaken fun _ _ h =>
      .pure ⟨hs.same h.2, h.2.mark⟩)
  unfold Grammar.mayStart
  rcases rule with ⟨pattern, token⟩ | id | index
  · exact hclaim pattern
  · dsimp only
    rcases grammar.regions[id]? with _ | region
    · exact .pure ⟨hs, rfl⟩
    · exact hclaim region.beginPattern
  · dsimp only
    rcases hcustom : grammar.customs[index]? with _ | custom
    · exact .pure ⟨hs, rfl⟩
    · exact (hcustoms custom (List.mem_of_getElem? hcustom)).mayStart scanner hs

/-- Behind rules the mark has been raised by a claim, or it is back. -/
theorem tryRules_inTime (hcustoms : ∀ custom ∈ grammar.customs, custom.InTime)
    (hattempt : AttemptInTime depth attempt) (content : Option Token) (rules : List Rule)
    (pending : Nat) (hs : scanner.InOffsets) (hdepth : maxOffset - scanner.mark < depth) :
    (tryRules grammar.mayStart attempt content scanner.mark rules pending).InTime scanner
      fun result after => after.InOffsets ∧
        (result.1.isSome = true → scanner.mark < after.mark) ∧
        (result.1 = none → after.mark = scanner.mark) := by
  generalize hhere : scanner.mark = here at hdepth ⊢
  induction rules generalizing scanner pending with
  | nil => exact .pure ⟨hs, by simp, fun _ => hhere⟩
  | cons rule rest ih =>
    unfold tryRules
    apply Scan.InTime.bind
    apply (mayStart_inTime hcustoms hs rule).weaken
    rintro starts asked ⟨hasked, hmark⟩
    split
    · exact ih pending hasked (hmark.trans hhere)
    · apply Scan.InTime.bind
      apply (reportContent_inTime content pending here asked).weaken
      intro pending reported hsame
      apply Scan.InTime.get
      have hreported : reported.mark = here := hsame.mark.trans (hmark.trans hhere)
      apply Scan.InTime.bind
      apply (hattempt rule (hasked.same hsame) (hreported ▸ hdepth)).weaken
      intro token tried htried
      apply Scan.InTime.get
      split
      · have hback : here ≤ maxOffset := hhere ▸ hs.mark
        exact .bind (.changed (ih pending (htried.moveTo hback) (tried.moveTo_mark here)))
      · rename_i hclaims
        have hraised : here < tried.mark := by
          simp only [Bool.or_eq_true, decide_eq_true_eq, not_or, Nat.not_le] at hclaims
          exact hclaims.2
        split
        · refine .bind (.difference fun _ => .bind ((report_inTime token here _ tried).weaken ?_))
          intro _ last hlast
          exact .pure ⟨htried.same hlast, fun _ => hlast.mark ▸ hraised, by simp⟩
        · exact .pure ⟨htried, fun _ => hraised, by simp⟩

/-! ## Loops -/

/-- Where no rule claims anything, the loop goes on behind the next character, or it is over. -/
theorem unclaimed_inTime {again : RuleScan Unit} (hs : scanner.InOffsets) (content : Option Token)
    (pending : Nat)
    (hagain : ∀ read : Scanner Region, read.InOffsets → scanner.mark < read.mark →
      again.InTime read fun _ after => after.InOffsets) :
    Scan.InTime (do
      match ← Scanner.read with
      | some _ => again
      | none =>
        modify Scanner.stepBack
        let _ ← reportContent content pending (← get).mark) scanner
      fun _ after => after.InOffsets := by
  apply Scan.InTime.bind
  apply (read_inTime hs).weaken
  rintro char read ⟨hread, hmark⟩
  rcases char with _ | char
  · refine .bind (.changed (.get (.bind ?_)))
    exact (reportContent_inTime content pending _ _).weaken fun _ last hlast =>
      .pure (hread.stepBack.same hlast)
  · exact hagain read hread (hmark ▸ Nat.lt_succ_self _)

theorem scanRegion_inTime (hcustoms : ∀ custom ∈ grammar.customs, custom.InTime)
    (hattempt : AttemptInTime depth attempt) (region : Region) {turns : Nat} (pending : Nat)
    (hs : scanner.InOffsets) (hdepth : maxOffset - scanner.mark < depth)
    (hturns : maxOffset - scanner.mark < turns) :
    (scanRegion grammar attempt region turns pending).InTime scanner fun _ after =>
      after.InOffsets := by
  induction turns generalizing scanner pending with
  | zero => exact absurd hturns (Nat.not_lt_zero _)
  | succ turns ih =>
    -- A turn that goes on leaves one offset less behind the mark.
    have hnext : ∀ {after : Scanner Region} (pending : Nat), after.InOffsets →
        scanner.mark < after.mark →
          (scanRegion grammar attempt region turns pending).InTime after fun _ last =>
            last.InOffsets := by
      intro after pending hafter hraised
      have hle := hafter.mark
      exact ih pending hafter (by omega) (by omega)
    unfold scanRegion
    apply Scan.InTime.get
    apply Scan.InTime.bind
    apply (matchAtMark_inTime region.endPattern scanner).weaken
    intro own looked hsame
    rcases own with _ | length
    · apply Scan.InTime.bind
      apply Scan.InTime.get
      apply (firstEnd_inTime _ looked).weaken
      intro found sought hsought
      have hplaces := hsame.trans hsought
      have hsoughtOffsets := hs.same hplaces
      rcases found with _ | ⟨outer, length⟩
      · dsimp only
        rw [← hplaces.mark]
        apply Scan.InTime.bind
        apply (tryRules_inTime hcustoms hattempt _ _ pending hsoughtOffsets
          (hplaces.mark ▸ hdepth)).weaken
        rintro ⟨claimed, pending⟩ tried ⟨htried, hclaimed, hback⟩
        dsimp only at hclaimed hback ⊢
        rw [hplaces.mark] at hclaimed hback
        split
        · rename_i hsome
          apply Scan.InTime.get
          rcases hparked : tried.parked with _ | waiting
          · exact .get (hnext tried.mark htried (hclaimed hsome))
          · exact takeParked_inTime htried hparked region
        · rename_i hnone
          have hmark := hback (by simpa using hnone)
          exact unclaimed_inTime htried _ pending fun read hread hraised =>
            hnext pending hread (hmark ▸ hraised)
      · apply Scan.InTime.bind
        apply (reportContent_inTime _ pending scanner.mark sought).weaken
        intro _ reported hreported
        refine .bind (.sum fun hle => ?_)
        exact park_inTime (hsoughtOffsets.same hreported) hle
    · apply Scan.InTime.bind
      apply (reportContent_inTime _ pending scanner.mark looked).weaken
      intro _ reported hreported
      apply Scan.InTime.bind
      apply (report_inTime region.endToken scanner.mark length reported).weaken
      intro _ ended hended
      refine .bind (.sum fun hle => ?_)
      exact (endMatchAt_inTime (hs.same (hsame.trans (hreported.trans hended))) hle).weaken
        fun _ _ h => h.1

theorem findBlockEnd_inTime (region : Region) {turns : Nat} (hs : scanner.InOffsets)
    (hturns : maxOffset - scanner.mark < turns) :
    (findBlockEnd region turns).InTime scanner fun _ after => after.InOffsets := by
  induction turns generalizing scanner with
  | zero => exact absurd hturns (Nat.not_lt_zero _)
  | succ turns ih =>
    unfold findBlockEnd
    apply Scan.InTime.get
    apply Scan.InTime.bind
    apply (matchAtMark_inTime region.endPattern scanner).weaken
    intro own looked hsame
    have hlooked := hs.same hsame
    rcases own with _ | length
    · apply Scan.InTime.bind
      apply (read_inTime hlooked).weaken
      rintro char read ⟨hread, hmark⟩
      rw [hsame.mark] at hmark
      rcases char with _ | char
      · exact .bind (.changed (.get (.pure hread.stepBack)))
      · have hle := hread.mark
        exact ih hread (by omega)
    · exact .pure hlooked

theorem scanBlock_inTime (hcustoms : ∀ custom ∈ grammar.customs, custom.InTime)
    (hattempt : AttemptInTime depth attempt) (region : Region) {turns : Nat} (pending : Nat)
    (hs : scanner.InOffsets) (hdepth : maxOffset - scanner.mark < depth)
    (hturns : maxOffset - scanner.mark < turns) :
    (scanBlock grammar attempt region turns pending).InTime scanner fun _ after =>
      after.InOffsets := by
  induction turns generalizing scanner pending with
  | zero => exact absurd hturns (Nat.not_lt_zero _)
  | succ turns ih =>
    have hnext : ∀ {after : Scanner Region} (pending : Nat), after.InOffsets →
        scanner.mark < after.mark →
          (scanBlock grammar attempt region turns pending).InTime after fun _ last =>
            last.InOffsets := by
      intro after pending hafter hraised
      have hle := hafter.mark
      exact ih pending hafter (by omega) (by omega)
    unfold scanBlock
    apply Scan.InTime.get
    apply Scan.InTime.bind
    apply (tryRules_inTime hcustoms hattempt _ _ pending hs hdepth).weaken
    rintro ⟨claimed, pending⟩ tried ⟨htried, hclaimed, hback⟩
    dsimp only at hclaimed hback ⊢
    split
    · rename_i hsome
      exact .get (hnext tried.mark htried (hclaimed hsome))
    · rename_i hnone
      have hmark := hback (by simpa using hnone)
      exact unclaimed_inTime htried _ pending fun read hread hraised =>
        hnext pending hread (hmark ▸ hraised)

/-! ## Regions and blocks -/

/-- The turns are enough to come to the largest offset. -/
def Turns.Cover (turns : Turns) : Prop :=
  ∀ scanner : Scanner Region, scanner.InOffsets → maxOffset - scanner.mark < turns scanner

theorem turnsLeft_cover : Turns.Cover turnsLeft := fun scanner hs => by
  rw [hs.turnsLeft_eq]
  exact Nat.lt_succ_self _

variable {turns : Turns}

theorem closeRegion_inTime (scanner : Scanner Region) :
    Scanner.closeRegion.InTime scanner fun _ after => scanner.SamePlaces after := by
  rcases hregions : scanner.openRegions with _ | ⟨region, outer⟩
  · exact .of_error (Scanner.closeRegion_refused hregions) nofun
  · exact .of_ok (Scanner.closeRegion_of_cons hregions) ⟨rfl, rfl, rfl, rfl⟩

theorem leaveRange_inTime (scanner : Scanner Region) :
    Scanner.leaveRange.InTime scanner fun _ after => scanner.InOffsets → after.InOffsets := by
  rcases hframes : scanner.frames with _ | ⟨saved, frames⟩
  · exact .of_error (Scanner.leaveRange_refused hframes) nofun
  · refine .of_ok (Scanner.leaveRange_of_cons hframes) fun hs => ?_
    obtain ⟨hoffset, hend⟩ := hs.frames saved (hframes ▸ List.mem_cons_self)
    refine Scanner.InOffsets.moveTo ⟨hs.mark, hend, hs.parked, fun other hmem => ?_⟩ hoffset
    exact hs.frames other (hframes ▸ List.mem_cons_of_mem _ hmem)

/-- A range that is entered lies between two offsets. -/
theorem enterRange_inTime (hs : scanner.InOffsets) {start stop : Nat} (hle : start ≤ stop)
    (hstop : stop ≤ maxOffset) :
    (Scanner.enterRange start (stop - start)).InTime scanner fun _ after =>
      after.InOffsets ∧ after.mark = start := by
  rcases Nat.lt_or_ge scanner.document.length (start + (stop - start)) with hlt | hin
  · exact .of_error (Scanner.enterRange_refused hlt) nofun
  · refine .of_ok (Scanner.enterRange_of_le hin) ⟨Scanner.InOffsets.moveTo ?_ (by omega),
      Scanner.moveTo_mark _ start⟩
    refine ⟨hs.mark, ?_, hs.parked, fun saved hmem => ?_⟩
    · show start + (stop - start) ≤ maxOffset
      omega
    · rcases List.mem_cons.mp hmem with rfl | hmem
      · exact ⟨hs.mark, hs.rangeEnd⟩
      · exact hs.frames saved hmem

/-- A region that is entered leaves less behind the mark for the rules inside it. -/
theorem attemptRegion_inTime (hturns : turns.Cover)
    (hcustoms : ∀ custom ∈ grammar.customs, custom.InTime) (hattempt : AttemptInTime depth attempt)
    (region : Region) (hs : scanner.InOffsets) (hdepth : maxOffset - scanner.mark < depth + 1) :
    (attemptRegion grammar turns attempt region).InTime scanner fun _ after =>
      after.InOffsets := by
  unfold attemptRegion
  apply Scan.InTime.get
  apply Scan.InTime.bind
  apply (claimAtMark_inTime region.beginPattern scanner).weaken
  rintro found claimed ⟨hpos, hsame⟩
  rcases found with _ | length
  · exact .pure (hs.same hsame)
  · have hlength := hpos length rfl
    apply Scan.InTime.bind
    apply (report_inTime region.beginToken scanner.mark length claimed).weaken
    intro _ reported hreported
    refine .bind (.sum fun hle => .bind ?_)
    apply (endMatchAt_inTime (hs.same (hsame.trans hreported)) hle).weaken
    rintro _ entered ⟨hentered, hmark⟩
    have hopened : (entered.openRegion region).InOffsets := hentered.same ⟨rfl, rfl, rfl, rfl⟩
    have hinner : maxOffset - (entered.openRegion region).mark < depth := by
      show maxOffset - entered.mark < depth
      omega
    have hscan : (do scanRegion grammar attempt region (turns (← get)) (scanner.mark + length) :
        RuleScan Unit).InTime (entered.openRegion region) fun _ after => after.InOffsets :=
      .get (scanRegion_inTime hcustoms hattempt region _ hopened hinner (hturns _ hopened))
    refine .bind (.changed (.bind (hscan.outcome.weaken fun result inner hinside => ?_)))
    refine .bind ((closeRegion_inTime inner).weaken fun popped closed hclosed => ?_)
    dsimp only
    split
    · exact .bind (.fault nofun)
    · rcases result with error | value
      · exact .bind (.fail error)
      · exact .bind (.pure (.pure ((hinside value rfl).same hclosed)))

theorem attemptBlock_inTime (hturns : turns.Cover)
    (hcustoms : ∀ custom ∈ grammar.customs, custom.InTime) (hattempt : AttemptInTime depth attempt)
    (region : Region) (hs : scanner.InOffsets) (hdepth : maxOffset - scanner.mark < depth + 1) :
    (attemptBlock grammar turns attempt region).InTime scanner fun _ after =>
      after.InOffsets := by
  unfold attemptBlock
  apply Scan.InTime.get
  apply Scan.InTime.bind
  apply (claimAtMark_inTime region.beginPattern scanner).weaken
  rintro found claimed ⟨hpos, hsame⟩
  rcases found with _ | length
  · exact .pure (hs.same hsame)
  · have hlength := hpos length rfl
    refine .bind (.sum fun hle => .bind (.changed (.get ?_)))
    have hbehind := (hs.same hsame).moveTo hle
    apply Scan.InTime.bind
    apply (findBlockEnd_inTime region hbehind (hturns _ hbehind)).weaken
    rintro ⟨stop, stopLength⟩ sought hsought
    refine .bind (.sum fun hresume => .bind ?_)
    apply (report_inTime region.beginToken scanner.mark length sought).weaken
    intro _ reported hreported
    refine .bind (.changed (.bind (.difference fun hforward => .bind ?_)))
    have hresumed := (hsought.same hreported).moveTo hresume
    apply (enterRange_inTime hresumed hforward (Nat.le_trans (Nat.le_add_right _ _) hresume)).weaken
    rintro _ entered ⟨hentered, hmark⟩
    have hopened : (entered.openRegion region).InOffsets := hentered.same ⟨rfl, rfl, rfl, rfl⟩
    have hinner : maxOffset - (entered.openRegion region).mark < depth := by
      show maxOffset - entered.mark < depth
      omega
    have hscan : (do scanBlock grammar attempt region (turns (← get)) (scanner.mark + length) :
        RuleScan Unit).InTime (entered.openRegion region) fun _ after => after.InOffsets :=
      .get (scanBlock_inTime hcustoms hattempt region _ hopened hinner (hturns _ hopened))
    refine .bind (.changed (.bind (hscan.outcome.weaken fun result inner hinside => ?_)))
    refine .bind ((closeRegion_inTime inner).weaken fun _ closed hclosed => ?_)
    refine .bind ((leaveRange_inTime closed).weaken fun _ left hleft => ?_)
    rcases result with error | value
    · exact .bind (.fail error)
    · have hout := hleft ((hinside value rfl).same hclosed)
      refine .bind (.pure (.bind ?_))
      apply (report_inTime region.endToken stop stopLength left).weaken
      intro _ ended hended
      exact .bind (.changed (.pure ((hout.same hended).same ⟨rfl, rfl, rfl, rfl⟩)))

/-! ## Rules and tokens -/

theorem attemptWithin_inTime (hturns : turns.Cover)
    (hcustoms : ∀ custom ∈ grammar.customs, custom.InTime) (depth : Nat) :
    AttemptInTime depth (grammar.attemptWithin turns depth) := by
  induction depth with
  | zero => exact fun _ _ hdepth => absurd hdepth (Nat.not_lt_zero _)
  | succ depth ih =>
    intro scanner rule hs hdepth
    unfold Grammar.attemptWithin
    rcases rule with ⟨pattern, token⟩ | id | index
    · apply Scan.InTime.bind
      apply (claimAtMark_inTime pattern scanner).weaken
      rintro found claimed ⟨-, hsame⟩
      rcases found with _ | length
      · exact .pure (hs.same hsame)
      · refine .get (.bind (.sum fun hle => .bind ?_))
        exact (endMatchAt_inTime (hs.same hsame) hle).weaken fun _ _ h => .pure h.1
    · dsimp only
      rcases grammar.regions[id]? with _ | region
      · exact .pure hs
      · dsimp only
        split
        · exact attemptBlock_inTime hturns hcustoms ih region hs hdepth
        · exact attemptRegion_inTime hturns hcustoms ih region hs hdepth
    · dsimp only
      rcases hcustom : grammar.customs[index]? with _ | custom
      · exact .pure hs
      · exact (hcustoms custom (List.mem_of_getElem? hcustom)).attempt scanner hs

/-- Where the rules of the host do not run away, no rule does, and none leaves the offsets. -/
theorem attempt_inTime (hcustoms : ∀ custom ∈ grammar.customs, custom.InTime)
    (hs : scanner.InOffsets) (rule : Rule) :
    (grammar.attempt rule).InTime scanner fun _ after => after.InOffsets :=
  .get (attemptWithin_inTime turnsLeft_cover hcustoms (turnsLeft scanner) rule hs
    (turnsLeft_cover scanner hs))

theorem dequeue_inTime (scanner : Scanner Region) :
    (modifyGet Scanner.dequeue : RuleScan Bool).InTime scanner fun _ after =>
      scanner.SamePlaces after := by
  show scanner.SamePlaces scanner.dequeue.2
  unfold Scanner.dequeue
  split <;> exact ⟨rfl, rfl, rfl, rfl⟩

/-- Nor does anything run away while the next token is sought. -/
theorem nextToken_inTime (hcustoms : ∀ custom ∈ grammar.customs, custom.InTime)
    (hs : scanner.InOffsets) :
    grammar.nextToken.InTime scanner fun _ after => after.InOffsets := by
  have hattempt : AttemptInTime (maxOffset - scanner.mark + 1) grammar.attempt :=
    fun rule hs _ => attempt_inTime hcustoms hs rule
  unfold Grammar.nextToken Grammar.nextTokenBy
  apply Scan.InTime.bind
  apply (dequeue_inTime scanner).weaken
  intro handed taken htaken
  have hqueued := hs.same htaken
  split
  · exact .get (.pure hqueued)
  · have hstarted : taken.startToken.InOffsets := hqueued.same ⟨rfl, rfl, rfl, rfl⟩
    have hdepth : maxOffset - taken.startToken.mark < maxOffset - scanner.mark + 1 := by
      show maxOffset - taken.mark < _
      rw [htaken.mark]
      exact Nat.lt_succ_self _
    refine .bind (.changed (.get (.bind ?_)))
    apply (tryRules_inTime hcustoms hattempt none grammar.rules _ hstarted hdepth).weaken
    rintro ⟨claimed, _⟩ tried ⟨htried, -, -⟩
    rcases claimed with _ | token
    · refine .get (.bind ((read_inTime htried).weaken ?_))
      rintro char read ⟨hread, -⟩
      split
      · exact .bind (.changed (.pure (hread.same ⟨rfl, rfl, rfl, rfl⟩)))
      · refine .bind (.changed (.get ?_))
        split
        · exact .bind (.fail _)
        · exact .bind (.changed (.pure (hread.stepBack.same ⟨rfl, rfl, rfl, rfl⟩)))
    · have hfree : tried.unpark.InOffsets := ⟨htried.mark, htried.rangeEnd, nofun, htried.frames⟩
      refine .bind (.changed (.bind ((dequeue_inTime tried.unpark).weaken ?_)))
      intro handed after hafter
      split
      · exact .get (.pure (hfree.same hafter))
      · exact .bind (.changed (.pure ((hfree.same hafter).same ⟨rfl, rfl, rfl, rfl⟩)))

/-- So the turns and the depth make no difference: with any more of them, a rule does the same. -/
theorem attempt_unbounded (hcustoms : ∀ custom ∈ grammar.customs, custom.InTime)
    (hs : scanner.InOffsets) {more : Turns} (hmore : ∀ scanner, turnsLeft scanner ≤ more scanner)
    {deeper : Nat} (hdeeper : turnsLeft scanner ≤ deeper) (rule : Rule) :
    grammar.attemptWithin more deeper rule scanner = grammar.attempt rule scanner := by
  rw [attempt_eq]
  refine ((attemptWithin_shortens hmore hdeeper rule).eq_of_ends fun after hrunaway => ?_).symm
  have hends := attempt_inTime hcustoms hs rule
  rw [Scan.InTime, Scan.Meets, attempt_eq, hrunaway] at hends
  exact hends rfl

end RegionScan
