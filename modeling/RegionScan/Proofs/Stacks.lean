-- The stacks of a scan: the regions that are open and the ranges that are saved. What
-- a rule opens it closes and what it saves it takes back, however deep rules are
-- nested, and also where one of them fails.
import RegionScan.Proofs.Budgets
import RegionScan.Proofs.Inherited
import RegionScan.Proofs.Tilings
import RegionScan.Proofs.Yields

namespace RegionScan

/-! ## Steps that leave the stacks alone -/

/-- Two states with the same regions open, the same ranges saved and the same active range, but
for the place in it. -/
structure Scanner.SameStacks {ρ : Type} (scanner after : Scanner ρ) : Prop where
  openRegions : after.openRegions = scanner.openRegions
  frames : after.frames = scanner.frames
  rangeEnd : after.rangeEnd = scanner.rangeEnd

theorem Scanner.SameStacks.trans {ρ : Type} {scanner middle after : Scanner ρ}
    (h : scanner.SameStacks middle) (hmore : middle.SameStacks after) : scanner.SameStacks after :=
  ⟨hmore.openRegions.trans h.openRegions, hmore.frames.trans h.frames,
    hmore.rangeEnd.trans h.rangeEnd⟩

theorem Scanner.moveTo_sameStacks {ρ : Type} (scanner : Scanner ρ) (offset : Nat) :
    scanner.SameStacks (scanner.moveTo offset) := by
  obtain ⟨cache, hmove⟩ := scanner.moveTo_cached offset
  rw [hmove]
  exact ⟨rfl, rfl, rfl⟩

/-- Whenever the step returns, with a value or with an error, the stacks are as they were. -/
def Scan.Neutral {ρ α : Type} (step : Scan ρ α) : Prop :=
  ∀ scanner, step.Yields scanner fun _ after => scanner.SameStacks after

namespace Scan.Neutral

variable {ρ α β : Type} {step : Scan ρ α} {next : α → Scan ρ β}

theorem of_ok (h : step.Neutral) {scanner after : Scanner ρ} {value : α}
    (hstep : step scanner = .ok value after) : scanner.SameStacks after :=
  (h scanner).ok hstep

theorem of_failed (h : step.Neutral) {scanner after : Scanner ρ} {error : ScanError}
    (hstep : step scanner = .error (.failed error) after) : scanner.SameStacks after :=
  (h scanner).failed hstep

theorem pure (value : α) : (Pure.pure value : Scan ρ α).Neutral := fun _ => ⟨rfl, rfl, rfl⟩

theorem fail (error : ScanError) : (Scan.fail error : Scan ρ α).Neutral := fun _ => ⟨rfl, rfl, rfl⟩

theorem fault (fault : Fault) : (Scan.fault fault : Scan ρ α).Neutral := fun _ => trivial

theorem bind (hstep : step.Neutral) (hnext : ∀ value, (next value).Neutral) :
    (step >>= next).Neutral :=
  Passes.bind (fun _ _ _ h hmore => h.trans hmore) hstep hnext

theorem get {next : Scanner ρ → Scan ρ β} (hnext : ∀ scanner, (next scanner).Neutral) :
    (MonadState.get >>= next).Neutral := Passes.get hnext

theorem changed {change : Scanner ρ → Scanner ρ}
    (h : ∀ scanner : Scanner ρ, scanner.SameStacks (change scanner)) :
    (modify change : Scan ρ Unit).Neutral := h

theorem read : (Scanner.read : Scan ρ (Option Char)).Neutral := by
  intro scanner
  rcases scanner.read_cached with ⟨char, cache, hread⟩ | hread
  · exact .of_ok hread ⟨rfl, rfl, rfl⟩
  · exact .of_fault hread

theorem moveTo (offset : Nat) : (modify (·.moveTo offset) : Scan ρ Unit).Neutral :=
  changed fun scanner => scanner.moveTo_sameStacks offset

theorem stepBack : (modify Scanner.stepBack : Scan ρ Unit).Neutral := by
  apply changed
  intro scanner
  obtain ⟨cache, hback⟩ := scanner.stepBack_cached
  rw [hback]
  exact ⟨rfl, rfl, rfl⟩

theorem matchAtMark (pattern : Pattern) : (matchAtMark pattern).Neutral := by
  intro scanner
  rcases matchAtMark_cached pattern scanner with ⟨found, cache, hmatch, _⟩ | ⟨after, hmatch⟩
  · exact .of_ok hmatch ⟨rfl, rfl, rfl⟩
  · exact .of_fault hmatch

theorem dequeue : (modifyGet Scanner.dequeue : Scan ρ Bool).Neutral := by
  intro scanner
  show scanner.SameStacks scanner.dequeue.2
  unfold Scanner.dequeue
  split <;> exact ⟨rfl, rfl, rfl⟩

theorem park (parked : ParkedEnd ρ) : (Scanner.park parked).Neutral := by
  apply get
  intro scanner
  split
  · exact (fault _).bind fun _ => changed fun _ => ⟨rfl, rfl, rfl⟩
  · exact changed fun _ => ⟨rfl, rfl, rfl⟩

/-! ## Brackets -/

/-- A region that is opened is the one that is closed. -/
theorem inRegion {region : Region} {inside : RuleScan α}
    {next : Except ScanError α → Region → RuleScan β} (hinside : inside.Neutral)
    (hnext : ∀ scanned popped, (next scanned popped).Neutral) :
    (do
      modify (·.openRegion region)
      let scanned ← Scan.outcome inside
      let popped ← Scanner.closeRegion
      next scanned popped : RuleScan β).Neutral := by
  intro scanner
  apply Yields.bind
  refine .of_ok rfl ?_
  apply Yields.bind
  apply Yields.outcome
  apply (hinside _).mono
  intro scanned inner hsame
  have hclosed : scanner.SameStacks { inner with openRegions := scanner.openRegions } :=
    ⟨rfl, hsame.frames, hsame.rangeEnd⟩
  apply Yields.bind
  refine .of_ok (Scanner.closeRegion_of_cons hsame.openRegions) ?_
  exact (hnext scanned region _).mono fun _ _ h => hclosed.trans h

/-- The range that comes back is the one that was active before. -/
theorem inBlock {region : Region} {offset length : Nat} {inside : RuleScan α}
    {next : Except ScanError α → RuleScan β} (hinside : inside.Neutral)
    (hnext : ∀ scanned, (next scanned).Neutral) :
    (do
      Scanner.enterRange offset length
      modify (·.openRegion region)
      let scanned ← Scan.outcome inside
      let _ ← Scanner.closeRegion
      Scanner.leaveRange
      next scanned : RuleScan β).Neutral := by
  intro scanner
  by_cases hrange : offset + length ≤ scanner.document.length
  · obtain ⟨cache, hmove⟩ := ({ scanner with
      frames := scanner.frame :: scanner.frames, rangeEnd := offset + length } :
        Scanner Region).moveTo_cached offset
    have henter := Scanner.enterRange_of_le hrange
    rw [hmove] at henter
    apply Yields.bind
    refine .of_ok henter ?_
    apply Yields.bind
    refine .of_ok rfl ?_
    apply Yields.bind
    apply Yields.outcome
    apply (hinside _).mono
    intro scanned inner hsame
    have hframes : inner.frames = scanner.frame :: scanner.frames := hsame.frames
    apply Yields.bind
    refine .of_ok (Scanner.closeRegion_of_cons hsame.openRegions) ?_
    apply Yields.bind
    refine .of_ok (Scanner.leaveRange_of_cons hframes) ?_
    apply (hnext scanned _).mono
    intro _ after hafter
    have hback : scanner.SameStacks { inner with
        openRegions := scanner.openRegions, frames := scanner.frames,
        rangeEnd := scanner.frame.rangeEnd, lastMatch := scanner.frame.lastMatch } :=
      ⟨rfl, rfl, rfl⟩
    exact (hback.trans (Scanner.moveTo_sameStacks _ _)).trans hafter
  · -- A range that is refused changes nothing.
    apply Yields.bind
    exact .of_failed (Scanner.enterRange_refused (Nat.lt_of_not_le hrange)) ⟨rfl, rfl, rfl⟩

/-- All that rules do leaves the stacks alone, apart from what they undo themselves. -/
theorem inherited : Inherited fun step => step.Neutral where
  pure := pure
  fail := fail
  fault := fault
  bind := bind
  look := fun _ => get
  read := read
  stepBack := stepBack
  moveTo := moveTo
  matchAtMark := matchAtMark
  setLastMatch := fun _ => changed fun _ => ⟨rfl, rfl, rfl⟩
  startToken := changed fun _ => ⟨rfl, rfl, rfl⟩
  setToken := fun _ => changed fun _ => ⟨rfl, rfl, rfl⟩
  enqueue := fun _ => changed fun _ => ⟨rfl, rfl, rfl⟩
  dequeue := dequeue
  park := park
  unpark := changed fun _ => ⟨rfl, rfl, rfl⟩
  inRegion := inRegion
  inBlock := inBlock

end Scan.Neutral

/-! ## The law -/

/-- A rule of the host that leaves the stacks alone, whatever else it does. -/
def CustomRule.Neutral (custom : CustomRule) : Prop :=
  custom.mayStart.Neutral ∧ custom.attempt.Neutral

/-- Whatever regions are open and whatever ranges are saved when a rule is tried or a token is
sought, they are the same when it returns, with a token or with an error, at every depth to which
rules are nested. So it is for every number of turns that the loops over a region or a block may
take, and no rule of the host that goes on for longer can make a difference. -/
theorem whoever_returns_leaves_the_stacks_alone {grammar : Grammar}
    (hcustoms : ∀ custom ∈ grammar.customs, custom.Neutral) :
    (∀ (turns : Nat) depth rule, (grammar.attemptWithin (fun _ => turns) depth rule).Neutral) ∧
      (∀ (turns : Nat) depth,
        (grammar.nextTokenBy (grammar.attemptWithin (fun _ => turns) depth)).Neutral) ∧
      (∀ rule, (grammar.attempt rule).Neutral) ∧ grammar.nextToken.Neutral := by
  have hwithin : ∀ (turns : Nat) depth rule,
      (grammar.attemptWithin (fun _ => turns) depth rule).Neutral := fun turns =>
    Scan.Neutral.inherited.attemptWithin hcustoms fun _ _ _ => rfl
  exact ⟨hwithin,
    fun turns depth => Scan.Neutral.inherited.nextTokenBy hcustoms (hwithin turns depth),
    Scan.Neutral.inherited.attempt hcustoms, Scan.Neutral.inherited.nextToken hcustoms⟩

theorem FixedRule.toCustom_neutral (rule : FixedRule) : rule.toCustom.Neutral :=
  Scan.Neutral.inherited.fixedRule rule

theorem CustomRule.upTo_neutral (limit : Nat) : (CustomRule.upTo limit).Neutral :=
  ⟨.get fun _ => .pure _, .get fun _ => (Scan.Neutral.moveTo _).bind fun _ => .pure _⟩

/-- Round brackets with a block in square brackets inside, in which a rule of the host fails, and
angle brackets in which another one goes on up to the offset 10. -/
def Grammar.failing : Grammar where
  regions := [
    { Region.brackets 0 '(' ')' with rules := [.region 1] },
    { Region.brackets 1 '[' ']' with rules := [.custom 0], embedded := true },
    { Region.brackets 2 '<' '>' with rules := [.custom 1] }]
  customs := [(FixedRule.mk .whitespace 1 true true).toCustom, .upTo 10]
  rules := [.region 0, .region 2]
  defaultToken := .other "outside"

theorem Grammar.failing_customs : ∀ custom ∈ Grammar.failing.customs, custom.Neutral := by
  intro custom hmem
  rcases List.mem_cons.mp hmem with rfl | hmem
  · exact FixedRule.toCustom_neutral _
  · obtain rfl := List.mem_singleton.mp hmem
    exact CustomRule.upTo_neutral 10

/-- The start of a scan of a text, with a region that is open and a range that is saved. -/
def Scanner.midway (text : Text) : Scanner Region :=
  { Scanner.fresh (VersionedText.ofText text).toDocument ⟨3, by decide⟩ with
    rangeEnd := text.length, openRegions := [.brackets 0 '(' ')'], frames := [⟨0, 1, 0⟩] }

/-- In one text a rule fails inside the block. In the other a rule goes on behind the end of the
range, with more turns than the range has characters, and the token comes through. -/
theorem a_failing_rule_and_an_overrunning_one_leave_the_stacks_alone :
    (∃ after, Grammar.failing.nextToken (.midway ['(', '[', 'a', ']', ')']) =
        .error (.failed (.unreadable 2)) after ∧
      after.openRegions = [.brackets 0 '(' ')'] ∧ after.frames = [⟨0, 1, 0⟩] ∧
      after.rangeEnd = 5) ∧
    ∃ after, Grammar.failing.nextToken (.midway ['<', 'a']) = .ok (.other "open") after ∧
      after.mark = 10 ∧ after.openRegions = [.brackets 0 '(' ')'] ∧ after.frames = [⟨0, 1, 0⟩] ∧
      after.rangeEnd = 2 := by
  have hneutral := (whoever_returns_leaves_the_stacks_alone Grammar.failing_customs).2.2.2
  constructor
  · have hfails : Grammar.failing.nextToken.result (.midway ['(', '[', 'a', ']', ')']) =
        .error (.failed (.unreadable 2)) := by decide +kernel
    have hnext := Scan.result_eq_error.mp hfails
    have hsame := hneutral.of_failed hnext
    exact ⟨_, hnext, hsame.openRegions, hsame.frames, hsame.rangeEnd⟩
  · have hgives : Grammar.failing.nextToken.result (.midway ['<', 'a']) = .ok (.other "open") := by
      decide +kernel
    have hnext := Scan.result_eq_ok.mp hgives
    have hsame := hneutral.of_ok hnext
    exact ⟨_, hnext, by decide +kernel, hsame.openRegions, hsame.frames, hsame.rangeEnd⟩

end RegionScan
