-- What rules inherit from the operations they are made of. A property of steps that
-- the operations of a scanner have, that steps in a row have if each has it, and that
-- a region or a block has if its inside does, all rules and tokens of a grammar have.
import RegionScan.Tokenize

namespace RegionScan

/-! ## Properties of steps -/

/-- Two states show the rules the same: they differ at most in what lookups leave behind, in the
document and in the ranges that are saved. -/
structure Scanner.SameView {ρ : Type} (scanner other : Scanner ρ) : Prop where
  mark : scanner.mark = other.mark
  rangeEnd : scanner.rangeEnd = other.rangeEnd
  tokenStart : scanner.tokenStart = other.tokenStart
  token : scanner.token = other.token
  currentSpan : scanner.currentSpan = other.currentSpan
  queue : scanner.queue = other.queue
  openRegions : scanner.openRegions = other.openRegions
  parked : scanner.parked = other.parked

/-- The turns depend on nothing but the view. -/
def Turns.Seen (turns : Turns) : Prop :=
  ∀ scanner other, scanner.SameView other → turns scanner = turns other

theorem turnsLeft_seen : Turns.Seen turnsLeft := fun _ _ same => by
  rw [turnsLeft, turnsLeft, same.mark, same.rangeEnd]

/-- What it takes for rules to inherit a property of steps. -/
structure InheritedByRules (Holds : ∀ {α : Type}, RuleScan α → Prop) : Prop where
  pure : ∀ {α : Type} (value : α), Holds (Pure.pure value : RuleScan α)
  fail : ∀ {α : Type} (error : ScanError), Holds (Scan.fail error : RuleScan α)
  fault : ∀ {α : Type} (fault : Fault), Holds (Scan.fault fault : RuleScan α)
  bind : ∀ {α β : Type} {step : RuleScan α} {next : α → RuleScan β},
    Holds step → (∀ value, Holds (next value)) → Holds (step >>= next)
  /-- Rules look at nothing of the state but the view. -/
  look : ∀ {α : Type} {next : Scanner Region → RuleScan α},
    (∀ scanner other, scanner.SameView other → next scanner = next other) →
      (∀ scanner, Holds (next scanner)) → Holds (get >>= next)
  read : Holds Scanner.read
  stepBack : Holds (modify Scanner.stepBack : RuleScan Unit)
  moveTo : ∀ offset, Holds (modify (·.moveTo offset) : RuleScan Unit)
  matchAtMark : ∀ pattern, Holds (matchAtMark pattern)
  setLastMatch : ∀ offset,
    Holds (modify fun scanner => { scanner with lastMatch := offset } : RuleScan Unit)
  enqueue : ∀ span, Holds (modify (·.enqueue span) : RuleScan Unit)
  park : ∀ parked, Holds (Scanner.park parked)
  unpark : Holds (modify Scanner.unpark : RuleScan Unit)
  /-- A region is opened, its inside is scanned, and it is closed, also behind an error. -/
  inRegion : ∀ {α β : Type} {region : Region} {inside : RuleScan α}
    {next : Except ScanError α → Region → RuleScan β}, Holds inside →
      (∀ scanned popped, Holds (next scanned popped)) →
        Holds (do
          modify (·.openRegion region)
          let scanned ← Scan.outcome inside
          let popped ← Scanner.closeRegion
          next scanned popped)
  /-- So is a block, in a range of its own. -/
  inBlock : ∀ {α β : Type} {region : Region} {offset length : Nat} {inside : RuleScan α}
    {next : Except ScanError α → RuleScan β}, Holds inside → (∀ scanned, Holds (next scanned)) →
      Holds (do
        Scanner.enterRange offset length
        modify (·.openRegion region)
        let scanned ← Scan.outcome inside
        let _ ← Scanner.closeRegion
        Scanner.leaveRange
        next scanned)

/-- What it takes for tokens to inherit it as well. -/
structure Inherited (Holds : ∀ {α : Type}, RuleScan α → Prop) : Prop
    extends InheritedByRules Holds where
  startToken : Holds (modify Scanner.startToken : RuleScan Unit)
  setToken : ∀ token, Holds (modify (·.setToken token) : RuleScan Unit)
  dequeue : Holds (modifyGet Scanner.dequeue : RuleScan Bool)

/-- The host's rules of a grammar have the property. -/
def Grammar.CustomsHold (grammar : Grammar) (Holds : ∀ {α : Type}, RuleScan α → Prop) : Prop :=
  ∀ custom ∈ grammar.customs, Holds custom.mayStart ∧ Holds custom.attempt

theorem Grammar.CustomsHold.of_nil {grammar : Grammar} {Holds : ∀ {α : Type}, RuleScan α → Prop}
    (h : grammar.customs = []) : grammar.CustomsHold Holds := fun custom hmem => by
  rw [h] at hmem
  cases hmem

namespace InheritedByRules

variable {Holds : ∀ {α : Type}, RuleScan α → Prop} (h : InheritedByRules Holds)

include h

/-! ## Small steps -/

theorem sum (offset length : Nat) : Holds (Scan.sum offset length : RuleScan Nat) := by
  unfold Scan.sum
  split
  · exact h.pure _
  · exact h.fault _

theorem difference (stop start : Nat) : Holds (Scan.difference stop start : RuleScan Nat) := by
  unfold Scan.difference
  split
  · exact h.pure _
  · exact h.fault _

theorem rethrow {α : Type} (result : Except ScanError α) :
    Holds (Scan.rethrow result : RuleScan α) := by
  rcases result with error | value
  · exact h.fail error
  · exact h.pure value

theorem claimAtMark (pattern : Pattern) : Holds (claimAtMark pattern) :=
  h.bind (h.matchAtMark pattern) fun _ => h.pure _

theorem report (token : Token) (offset length : Nat) : Holds (report token offset length) := by
  unfold RegionScan.report
  split
  · exact h.enqueue _
  · exact h.pure _

theorem endMatchAt (stop : Nat) : Holds (endMatchAt stop) :=
  h.bind (h.moveTo stop) fun _ => h.setLastMatch stop

theorem firstEnd (regions : List Region) : Holds (firstEnd regions) := by
  induction regions with
  | nil => exact h.pure _
  | cons region outer ih =>
    unfold RegionScan.firstEnd
    split
    · exact h.pure _
    · apply h.bind (h.matchAtMark _)
      intro found
      rcases found with _ | length
      · exact ih
      · exact h.pure _

theorem outerEnd : Holds outerEnd :=
  h.look (fun _ _ same => by rw [same.openRegions]) fun _ => h.firstEnd _

theorem reportContent (content : Option Token) (pending here : Nat) :
    Holds (reportContent content pending here) := by
  rcases content with _ | token
  · exact h.pure _
  · exact h.bind (h.difference _ _) fun _ => h.bind (h.report _ _ _) fun _ => h.pure _

/-! ## Steps of the host -/

theorem readUpTo (count : Nat) : Holds (Scanner.readUpTo count) := by
  induction count with
  | zero => exact h.pure _
  | succ count ih =>
    apply h.bind h.read
    intro char
    rcases char with _ | c
    · exact h.pure _
    · exact h.bind ih fun _ => h.pure _

theorem excerpt (offset count : Nat) : Holds (Scanner.excerpt offset count) :=
  h.look (fun _ _ same => by rw [same.mark]) fun _ => h.bind (h.moveTo offset) fun _ =>
    h.bind (h.readUpTo count) fun _ => h.bind (h.moveTo _) fun _ => h.pure _

/-- A rule with fixed steps asks for the mark and the end of the range only. -/
theorem fixedRule (rule : FixedRule) :
    Holds rule.toCustom.mayStart ∧ Holds rule.toCustom.attempt := by
  constructor
  · exact h.look (fun _ _ same => by rw [same.mark, same.rangeEnd]) fun _ => h.pure _
  · refine h.look (fun _ _ same => by rw [same.mark]) fun _ => ?_
    have hmoves : ∀ offset, Holds (do
        modify (·.moveTo offset)
        return rule.token : RuleScan Token) :=
      fun offset => h.bind (h.moveTo offset) fun _ => h.pure _
    split
    · exact h.bind (h.fail _) fun _ => hmoves _
    · exact hmoves _

/-! ## Rules -/

section

variable {grammar : Grammar} {attempt : Rule → RuleScan Token}

theorem tryRules {mayStart : Rule → RuleScan Bool} (hstart : ∀ rule, Holds (mayStart rule))
    (hattempt : ∀ rule, Holds (attempt rule)) (content : Option Token) (here : Nat)
    (rules : List Rule) (pending : Nat) :
    Holds (tryRules mayStart attempt content here rules pending) := by
  induction rules generalizing pending with
  | nil => exact h.pure _
  | cons rule rest ih =>
    unfold RegionScan.tryRules
    apply h.bind (hstart rule)
    intro starts
    split
    · exact ih pending
    · refine h.bind (h.reportContent content pending here) fun pending =>
        h.look (fun _ _ same => by rw [same.queue]) fun _ => h.bind (hattempt rule) fun token =>
          h.look (fun _ _ same => by rw [same.mark, same.queue]) fun scanner => ?_
      split
      · exact h.bind (h.moveTo here) fun _ => ih pending
      · dsimp only
        split
        · exact h.bind (h.difference _ _) fun _ => h.bind (h.report _ _ _) fun _ => h.pure _
        · exact h.pure _

theorem takeParked (region : Region) (waiting : ParkedEnd Region) :
    Holds (takeParked region waiting) := by
  unfold RegionScan.takeParked
  split
  · apply h.bind h.unpark
    intro _
    split
    · exact h.bind (h.enqueue waiting.delimiter) fun _ => h.endMatchAt _
    · exact h.endMatchAt _
  · exact h.pure _

/-- Behind the last character the step that was one too far is taken back. -/
theorem backToEnd (token : Token) (pending : Nat) :
    Holds (do
      modify Scanner.stepBack
      let scanner ← get
      let _ ← RegionScan.reportContent (some token) pending scanner.mark
      Pure.pure () : RuleScan Unit) :=
  h.bind h.stepBack fun _ => h.look (fun _ _ same => by rw [same.mark]) fun _ =>
    h.bind (h.reportContent _ _ _) fun _ => h.pure _

theorem scanRegion (hstart : ∀ rule, Holds (grammar.mayStart rule))
    (hattempt : ∀ rule, Holds (attempt rule)) (region : Region) (turns pending : Nat) :
    Holds (scanRegion grammar attempt region turns pending) := by
  induction turns generalizing pending with
  | zero => exact h.fault _
  | succ turns ih =>
    refine h.look (fun _ _ same => by rw [same.mark]) fun scanner =>
      h.bind (h.matchAtMark _) fun own => ?_
    rcases own with _ | length
    · apply h.bind h.outerEnd
      intro outer
      rcases outer with _ | ⟨outer, length⟩
      · refine h.bind (h.tryRules hstart hattempt _ _ _ _) fun ⟨claimed, pending⟩ => ?_
        dsimp only
        split
        · refine h.look (fun _ _ same => by rw [same.parked]) fun scanner => ?_
          split
          · exact h.takeParked _ _
          · exact h.look (fun _ _ same => by rw [same.mark]) fun _ => ih _
        · apply h.bind h.read
          intro char
          rcases char with _ | c
          · exact h.backToEnd _ _
          · exact ih _
      · exact h.bind (h.reportContent _ _ _) fun _ => h.bind (h.sum _ _) fun _ => h.park _
    · exact h.bind (h.reportContent _ _ _) fun _ => h.bind (h.report _ _ _) fun _ =>
        h.bind (h.sum _ _) fun _ => h.endMatchAt _

theorem findBlockEnd (region : Region) (turns : Nat) : Holds (findBlockEnd region turns) := by
  induction turns with
  | zero => exact h.fault _
  | succ turns ih =>
    refine h.look (fun _ _ same => by rw [same.mark]) fun scanner =>
      h.bind (h.matchAtMark _) fun own => ?_
    rcases own with _ | length
    · apply h.bind h.read
      intro char
      rcases char with _ | c
      · exact h.bind h.stepBack fun _ => h.look (fun _ _ same => by rw [same.mark]) fun _ =>
          h.pure _
      · exact ih
    · exact h.pure _

theorem scanBlock (hstart : ∀ rule, Holds (grammar.mayStart rule))
    (hattempt : ∀ rule, Holds (attempt rule)) (region : Region) (turns pending : Nat) :
    Holds (scanBlock grammar attempt region turns pending) := by
  induction turns generalizing pending with
  | zero => exact h.fault _
  | succ turns ih =>
    refine h.look (fun _ _ same => by rw [same.mark]) fun scanner =>
      h.bind (h.tryRules hstart hattempt _ _ _ _) fun ⟨claimed, pending⟩ => ?_
    dsimp only
    split
    · exact h.look (fun _ _ same => by rw [same.mark]) fun _ => ih _
    · apply h.bind h.read
      intro char
      rcases char with _ | c
      · exact h.backToEnd _ _
      · exact ih _

variable {turns : Turns} (hturns : turns.Seen)

include hturns

/-- What follows on the begin match of a region. -/
theorem insideRegion (hstart : ∀ rule, Holds (grammar.mayStart rule))
    (hattempt : ∀ rule, Holds (attempt rule)) (region : Region) (start length : Nat) :
    Holds (do
      let contentStart ← Scan.sum start length
      RegionScan.endMatchAt contentStart
      modify (·.openRegion region)
      let scanned ← Scan.outcome
        (do RegionScan.scanRegion grammar attempt region (turns (← get)) contentStart)
      let popped ← Scanner.closeRegion
      if popped.id ≠ region.id then Scan.fault .wrongRegionClosed
      Scan.rethrow scanned
      return region.beginToken : RuleScan Token) := by
  refine h.bind (h.sum _ _) fun _ => h.bind (h.endMatchAt _) fun _ =>
    h.inRegion ?_ fun scanned popped => ?_
  · exact h.look (fun _ _ same => by rw [hturns _ _ same]) fun _ =>
      h.scanRegion hstart hattempt _ _ _
  · split
    · exact h.bind (h.fault _) fun _ => h.bind (h.rethrow _) fun _ => h.pure _
    · exact h.bind (h.rethrow _) fun _ => h.pure _

theorem attemptRegion (hstart : ∀ rule, Holds (grammar.mayStart rule))
    (hattempt : ∀ rule, Holds (attempt rule)) (region : Region) :
    Holds (attemptRegion grammar turns attempt region) := by
  refine h.look (fun _ _ same => by rw [same.mark]) fun scanner =>
    h.bind (h.claimAtMark _) fun found => ?_
  rcases found with _ | length
  · exact h.pure _
  · exact h.bind (h.report _ _ _) fun _ => h.insideRegion hturns hstart hattempt region _ _

/-- What follows on the begin match of a block, once its end is found. -/
theorem insideBlock (hstart : ∀ rule, Holds (grammar.mayStart rule))
    (hattempt : ∀ rule, Holds (attempt rule)) (region : Region)
    (contentStart contentEnd endLength resume : Nat) :
    Holds (do
      modify (·.moveTo resume)
      Scanner.enterRange contentStart (← Scan.difference contentEnd contentStart)
      modify (·.openRegion region)
      let scanned ← Scan.outcome
        (do RegionScan.scanBlock grammar attempt region (turns (← get)) contentStart)
      let _ ← Scanner.closeRegion
      Scanner.leaveRange
      Scan.rethrow scanned
      RegionScan.report region.endToken contentEnd endLength
      modify fun scanner => { scanner with lastMatch := resume }
      return region.beginToken : RuleScan Token) := by
  refine h.bind (h.moveTo _) fun _ => h.bind (h.difference _ _) fun length =>
    h.inBlock ?_ fun scanned => ?_
  · exact h.look (fun _ _ same => by rw [hturns _ _ same]) fun _ =>
      h.scanBlock hstart hattempt _ _ _
  · exact h.bind (h.rethrow _) fun _ => h.bind (h.report _ _ _) fun _ =>
      h.bind (h.setLastMatch _) fun _ => h.pure _

theorem attemptBlock (hstart : ∀ rule, Holds (grammar.mayStart rule))
    (hattempt : ∀ rule, Holds (attempt rule)) (region : Region) :
    Holds (attemptBlock grammar turns attempt region) := by
  refine h.look (fun _ _ same => by rw [same.mark]) fun scanner =>
    h.bind (h.claimAtMark _) fun found => ?_
  rcases found with _ | length
  · exact h.pure _
  · refine h.bind (h.sum _ _) fun _ => h.bind (h.moveTo _) fun _ => h.look
      (fun _ _ same => by rw [hturns _ _ same]) fun _ =>
        h.bind (h.findBlockEnd _ _) fun ⟨contentEnd, endLength⟩ => ?_
    exact h.bind (h.sum _ _) fun _ => h.bind (h.report _ _ _) fun _ =>
      h.insideBlock hturns hstart hattempt region _ _ _ _

end

/-! ## Grammars -/

variable {grammar : Grammar} (hcustoms : grammar.CustomsHold Holds)

include hcustoms

theorem mayStart (rule : Rule) : Holds (grammar.mayStart rule) := by
  rcases rule with ⟨pattern, token⟩ | id | index
  · exact h.bind (h.claimAtMark _) fun _ => h.pure _
  · unfold Grammar.mayStart
    dsimp only
    rcases grammar.regions[id]? with _ | region
    · exact h.pure _
    · exact h.bind (h.claimAtMark _) fun _ => h.pure _
  · unfold Grammar.mayStart
    dsimp only
    rcases hcustom : grammar.customs[index]? with _ | custom
    · exact h.pure _
    · exact (hcustoms custom (List.mem_of_getElem? hcustom)).1

theorem attemptWithin {turns : Turns} (hturns : turns.Seen) (depth : Nat) (rule : Rule) :
    Holds (grammar.attemptWithin turns depth rule) := by
  induction depth generalizing rule with
  | zero => exact h.fault _
  | succ depth ih =>
    rcases rule with ⟨pattern, token⟩ | id | index
    · apply h.bind (h.claimAtMark _)
      intro found
      rcases found with _ | length
      · exact h.pure _
      · exact h.look (fun _ _ same => by rw [same.mark]) fun _ => h.bind (h.sum _ _) fun _ =>
          h.bind (h.endMatchAt _) fun _ => h.pure _
    · unfold Grammar.attemptWithin
      dsimp only
      rcases grammar.regions[id]? with _ | region
      · exact h.pure _
      · dsimp only
        split
        · exact h.attemptBlock hturns (h.mayStart hcustoms) ih region
        · exact h.attemptRegion hturns (h.mayStart hcustoms) ih region
    · unfold Grammar.attemptWithin
      dsimp only
      rcases hcustom : grammar.customs[index]? with _ | custom
      · exact h.pure _
      · exact (hcustoms custom (List.mem_of_getElem? hcustom)).2

theorem attempt (rule : Rule) : Holds (grammar.attempt rule) :=
  h.look (fun _ _ same => by rw [turnsLeft_seen _ _ same]) fun _ =>
    h.attemptWithin hcustoms turnsLeft_seen _ rule

end InheritedByRules

/-! ## Tokens -/

namespace Inherited

variable {Holds : ∀ {α : Type}, RuleScan α → Prop} (h : Inherited Holds)
  {grammar : Grammar} (hcustoms : grammar.CustomsHold Holds)

include h hcustoms

theorem nextTokenBy {attempt : Rule → RuleScan Token} (hattempt : ∀ rule, Holds (attempt rule)) :
    Holds (grammar.nextTokenBy attempt) := by
  have hcurrent : Holds (do return (← get).currentToken : RuleScan Token) :=
    h.look (fun _ _ same => by rw [Scanner.currentToken, Scanner.currentToken, same.token])
      fun _ => h.pure _
  apply h.bind h.dequeue
  intro queued
  split
  · exact hcurrent
  · refine h.bind h.startToken fun _ => h.look (fun _ _ same => by rw [same.mark]) fun _ =>
      h.bind (h.tryRules (h.mayStart hcustoms) hattempt _ _ _ _) fun ⟨claimed, _⟩ => ?_
    dsimp only
    rcases claimed with _ | token
    · refine h.look (fun _ _ same => by rw [same.mark]) fun _ => h.bind h.read fun char => ?_
      split
      · exact h.bind (h.setToken _) fun _ => h.pure _
      · refine h.bind h.stepBack fun _ => h.look (fun _ _ same => by rw [same.rangeEnd])
          fun _ => ?_
        split
        · exact h.bind (h.fail _) fun _ => h.bind (h.setToken _) fun _ => h.pure _
        · exact h.bind (h.setToken _) fun _ => h.pure _
    · refine h.bind h.unpark fun _ => h.bind h.dequeue fun queued => ?_
      split
      · exact hcurrent
      · exact h.bind (h.setToken _) fun _ => h.pure _

theorem nextToken : Holds grammar.nextToken := h.nextTokenBy hcustoms (h.attempt hcustoms)

omit hcustoms in
theorem addToken (spans : List Span) (span : Span) : Holds (addToken spans span) := by
  unfold RegionScan.addToken
  split
  · exact h.pure _
  · split
    · split
      · split
        · exact h.fault _
        · split
          · dsimp only
            split
            · exact h.bind (h.fault _) fun _ => h.pure _
            · exact h.pure _
          · exact h.pure _
      · exact h.pure _
    · exact h.pure _

theorem addNext (spans : List Span) : Holds (grammar.addNext spans) := by
  apply h.bind (h.nextToken hcustoms)
  intro token
  split
  · exact h.pure _
  · exact h.look (fun _ _ same => by
      rw [Scanner.tokenOffset, Scanner.tokenOffset, Scanner.tokenLength, Scanner.tokenLength,
        same.currentSpan, same.tokenStart, same.mark, same.rangeEnd])
      fun _ => h.bind (h.addToken _ _) fun _ => h.pure _

theorem addTokens (count : Nat) (spans : List Span) : Holds (grammar.addTokens count spans) := by
  induction count generalizing spans with
  | zero => exact h.pure _
  | succ count ih =>
    apply h.bind (h.addNext hcustoms spans)
    intro added
    rcases added with _ | spans
    · exact h.pure _
    · exact ih spans

theorem addAll (turns : Nat) (spans : List Span) : Holds (grammar.addAll turns spans) := by
  induction turns generalizing spans with
  | zero => exact h.fault _
  | succ turns ih =>
    refine h.look (fun _ _ same => by rw [same.queue]) fun _ =>
      h.bind (h.addTokens hcustoms _ _) fun ⟨spans, done⟩ => ?_
    dsimp only
    split
    · exact h.pure _
    · exact ih spans

theorem tokenize : Holds grammar.tokenize :=
  h.look (fun _ _ same => by rw [turnsLeft_seen _ _ same]) fun _ =>
    h.bind (h.addAll hcustoms _ _) fun _ => h.pure _

end Inherited

end RegionScan
