-- The window makes no difference. Two scans of one text that differ in the size of
-- their windows, and so in what they keep of the text and when they fetch it, show
-- the rules the same at every step, so they hand out the same tokens.
import Mathlib.Data.List.Forall2
import RegionScan.Proofs.TwoRuns
import RegionScan.Proofs.WindowLaws
import RegionScan.Proofs.TokenBounds
import RegionScan.Proofs.Tilings

namespace RegionScan

/-! ## Scanners that are alike -/

/-- The same range is saved, with last matches that are alike. -/
structure Frame.Alike (like : Nat → Nat → Prop) (frame other : Frame) : Prop where
  offset : frame.offset = other.offset
  rangeEnd : frame.rangeEnd = other.rangeEnd
  lastMatch : like frame.lastMatch other.lastMatch

/-- Two scanners of one text that show the rules the same. What they keep of the text is true of
it, and it may be different; their last matches are alike. -/
structure Scanner.Alike (like : Nat → Nat → Prop) (scanner other : Scanner Region) : Prop where
  text : IsText scanner.document
  document : scanner.document = other.document
  current : scanner.Current
  current' : other.Current
  view : scanner.SameView other
  frames : List.Forall₂ (Frame.Alike like) scanner.frames other.frames
  lastMatch : like scanner.lastMatch other.lastMatch

variable {like : Nat → Nat → Prop}

namespace Scanner.Alike

variable {scanner other : Scanner Region}

theorem withCache (h : scanner.Alike like other) {cache cache' : Cache}
    (hs : (scanner.withCache cache).Current) (ho : (other.withCache cache').Current) :
    (scanner.withCache cache).Alike like (other.withCache cache') :=
  ⟨h.text, h.document, hs, ho, { h.view with }, h.frames, h.lastMatch⟩

theorem atMark (h : scanner.Alike like other) (mark : Nat) :
    ({ scanner with mark } : Scanner Region).Alike like { other with mark } :=
  ⟨h.text, h.document, ⟨h.current.1, h.current.2⟩, ⟨h.current'.1, h.current'.2⟩,
    { h.view with mark := rfl }, h.frames, h.lastMatch⟩

theorem moveTo (h : scanner.Alike like other) (offset : Nat) :
    (scanner.moveTo offset).Alike like (other.moveTo offset) := by
  obtain ⟨cache, hmove, hs⟩ := Scanner.moveTo_spec h.current offset
  obtain ⟨cache', hmove', ho⟩ := Scanner.moveTo_spec h.current' offset
  rw [hmove, hmove']
  exact (h.atMark offset).withCache hs ho

theorem stepBack (h : scanner.Alike like other) : scanner.stepBack.Alike like other.stepBack := by
  obtain ⟨cache, hback, hs⟩ := Scanner.stepBack_spec h.current
  obtain ⟨cache', hback', ho⟩ := Scanner.stepBack_spec h.current'
  rw [← h.view.mark] at hback' ho
  rw [hback, hback']
  exact (h.atMark _).withCache hs ho

/-- Both change what they show in the same way. -/
theorem changed (h : scanner.Alike like other) {after after' : Scanner Region}
    (hs : after.document = scanner.document ∧ after.window = scanner.window ∧
      after.place = scanner.place ∧ after.frames = scanner.frames)
    (ho : after'.document = other.document ∧ after'.window = other.window ∧
      after'.place = other.place ∧ after'.frames = other.frames)
    (hview : after.SameView after') (hlast : like after.lastMatch after'.lastMatch) :
    after.Alike like after' := by
  obtain ⟨hdoc, hwindow, hplace, hframes⟩ := hs
  obtain ⟨hdoc', hwindow', hplace', hframes'⟩ := ho
  refine ⟨hdoc ▸ h.text, ?_, ⟨?_, ?_⟩, ⟨?_, ?_⟩, hview, ?_, hlast⟩
  · rw [hdoc, hdoc', h.document]
  · rw [hdoc, hwindow]
    exact h.current.window
  · rw [hdoc, hplace]
    exact h.current.place
  · rw [hdoc', hwindow']
    exact h.current'.window
  · rw [hdoc', hplace']
    exact h.current'.place
  · rw [hframes, hframes']
    exact h.frames

theorem openRegion (h : scanner.Alike like other) (region : Region) :
    (scanner.openRegion region).Alike like (other.openRegion region) :=
  h.changed ⟨rfl, rfl, rfl, rfl⟩ ⟨rfl, rfl, rfl, rfl⟩
    { h.view with openRegions := congrArg (region :: ·) h.view.openRegions } h.lastMatch

end Scanner.Alike

/-! ## Operations that come to the same -/

namespace Scan.Uniform

theorem read : Uniform (Scanner.Alike like) Scanner.read := by
  intro scanner other h
  obtain ⟨doc, hdoc⟩ := h.text
  rcases Scanner.read_same h.current h.current' hdoc (h.document.symm.trans hdoc) h.view.mark
    h.view.rangeEnd with ⟨char, cache, cache', hread, hs, hread', ho⟩ | ⟨hread, hread'⟩ <;>
    rw [hread, hread']
  · exact .ok char ((h.atMark _).withCache hs ho)
  · exact .error _ h

theorem matchAtMark (pattern : Pattern) : Uniform (Scanner.Alike like) (matchAtMark pattern) := by
  intro scanner other h
  obtain ⟨doc, hdoc⟩ := h.text
  rw [matchAtMark_eq, matchAtMark_eq, ← h.view.rangeEnd, ← h.view.mark]
  by_cases hrange : scanner.rangeEnd < scanner.mark
  · rw [if_pos hrange, if_pos hrange]
    exact .ok none h
  · rw [if_neg hrange, if_neg hrange]
    obtain ⟨found, cache, hplace, hs, hfound⟩ :=
      Scanner.placeAt_text h.current hdoc scanner.mark
    obtain ⟨found', cache', hplace', ho, hfound'⟩ :=
      Scanner.placeAt_text h.current' (h.document.symm.trans hdoc) scanner.mark
    rw [hplace, hplace']
    have hlooked := h.withCache hs ho
    rcases hfound with ⟨hle, place, rfl, hline, hcolumn⟩ | ⟨hlt, reason, rfl⟩
    · obtain ⟨_, place', rfl, hline', hcolumn'⟩ := hfound'.resolve_right (by omega)
      dsimp only
      rw [hline, hcolumn, hline', hcolumn']
      rcases pattern.matchLength? _ _ with _ | length
      · exact .ok none hlooked
      · dsimp only
        split
        · exact .ok _ hlooked
        · exact .error _ hlooked
    · obtain ⟨_, reason', rfl⟩ := hfound'.resolve_left (by omega)
      exact .ok none hlooked

theorem dequeue : Uniform (Scanner.Alike like) (modifyGet Scanner.dequeue : RuleScan Bool) := by
  intro scanner other h
  have hqueue := h.view.queue
  rcases hscanner : scanner.queue with _ | ⟨span, queue⟩ <;> rw [hscanner] at hqueue
  · rw [dequeue_of_nil hscanner, dequeue_of_nil hqueue.symm]
    exact .ok false (h.changed ⟨rfl, rfl, rfl, rfl⟩ ⟨rfl, rfl, rfl, rfl⟩
      { h.view with token := rfl, currentSpan := rfl } h.lastMatch)
  · rw [dequeue_of_cons hscanner, dequeue_of_cons hqueue.symm]
    exact .ok true (h.changed ⟨rfl, rfl, rfl, rfl⟩ ⟨rfl, rfl, rfl, rfl⟩
      { h.view with token := rfl, currentSpan := rfl, queue := rfl } h.lastMatch)

theorem park (waiting : ParkedEnd Region) :
    Uniform (Scanner.Alike like) (Scanner.park waiting) := by
  refine look (fun _ _ h => by rw [h.view.parked]) fun scanner => ?_
  have hpark : Uniform (Scanner.Alike like)
      (modify fun scanner => { scanner with parked := some waiting } : RuleScan Unit) :=
    changed fun _ _ h => h.changed ⟨rfl, rfl, rfl, rfl⟩ ⟨rfl, rfl, rfl, rfl⟩
      { h.view with parked := rfl } h.lastMatch
  split
  · exact (fault _).bind fun _ => hpark
  · exact hpark

theorem closeRegion : Uniform (Scanner.Alike like) Scanner.closeRegion := by
  intro scanner other h
  have hregions := h.view.openRegions
  rcases hscanner : scanner.openRegions with _ | ⟨region, openRegions⟩ <;> rw [hscanner] at hregions
  · rw [Scanner.closeRegion_refused hscanner, Scanner.closeRegion_refused hregions.symm]
    exact .error _ h
  · rw [Scanner.closeRegion_of_cons hscanner, Scanner.closeRegion_of_cons hregions.symm]
    exact .ok region (h.changed ⟨rfl, rfl, rfl, rfl⟩ ⟨rfl, rfl, rfl, rfl⟩
      { h.view with openRegions := rfl } h.lastMatch)

theorem enterRange (offset length : Nat) :
    Uniform (Scanner.Alike like) (Scanner.enterRange offset length) := by
  intro scanner other h
  by_cases hrange : offset + length ≤ scanner.document.length
  · have hentered : ({ scanner with
        frames := scanner.frame :: scanner.frames, rangeEnd := offset + length } :
          Scanner Region).Alike like
            { other with frames := other.frame :: other.frames, rangeEnd := offset + length } :=
      ⟨h.text, h.document, ⟨h.current.1, h.current.2⟩, ⟨h.current'.1, h.current'.2⟩,
        { h.view with rangeEnd := rfl },
        .cons ⟨h.view.mark, h.view.rangeEnd, h.lastMatch⟩ h.frames, h.lastMatch⟩
    rw [Scanner.enterRange_of_le hrange, Scanner.enterRange_of_le (h.document ▸ hrange)]
    exact .ok () (hentered.moveTo offset)
  · have hrange := Nat.lt_of_not_le hrange
    rw [Scanner.enterRange_refused hrange, Scanner.enterRange_refused (h.document ▸ hrange),
      h.document]
    exact .error _ h

theorem leaveRange : Uniform (Scanner.Alike like) Scanner.leaveRange := by
  intro scanner other h
  have hframes := h.frames
  generalize hscanner : scanner.frames = frames at hframes
  generalize hother : other.frames = frames' at hframes
  cases hframes with
  | nil =>
    rw [Scanner.leaveRange_refused hscanner, Scanner.leaveRange_refused hother]
    exact .error _ h
  | @cons saved saved' frames frames' hsaved hrest =>
    have hleft : ({ scanner with
        frames, rangeEnd := saved.rangeEnd, lastMatch := saved.lastMatch } : Scanner Region).Alike
          like { other with
            frames := frames', rangeEnd := saved'.rangeEnd, lastMatch := saved'.lastMatch } :=
      ⟨h.text, h.document, ⟨h.current.1, h.current.2⟩, ⟨h.current'.1, h.current'.2⟩,
        { h.view with rangeEnd := hsaved.rangeEnd }, hrest, hsaved.lastMatch⟩
    rw [Scanner.leaveRange_of_cons hscanner, Scanner.leaveRange_of_cons hother, ← hsaved.offset]
    exact .ok () (hleft.moveTo saved.offset)

/-- Where a last match is like itself, no step of the rules tells the scanners apart. -/
theorem inherited (hlike : ∀ offset, like offset offset) :
    Inherited fun step => Uniform (Scanner.Alike like) step where
  pure := pure
  fail := fail
  fault := fault
  bind := bind
  look := fun hsame hnext => look (fun scanner other h => hsame scanner other h.view) hnext
  read := read
  stepBack := changed fun _ _ h => h.stepBack
  moveTo := fun offset => changed fun _ _ h => h.moveTo offset
  matchAtMark := matchAtMark
  setLastMatch := fun offset => changed fun _ _ h =>
    h.changed ⟨rfl, rfl, rfl, rfl⟩ ⟨rfl, rfl, rfl, rfl⟩ { h.view with } (hlike offset)
  startToken := changed fun _ _ h => h.changed ⟨rfl, rfl, rfl, rfl⟩ ⟨rfl, rfl, rfl, rfl⟩
    { h.view with tokenStart := h.view.mark, token := rfl, currentSpan := rfl } h.lastMatch
  setToken := fun _ => changed fun _ _ h =>
    h.changed ⟨rfl, rfl, rfl, rfl⟩ ⟨rfl, rfl, rfl, rfl⟩ { h.view with token := rfl } h.lastMatch
  enqueue := fun span => changed fun _ _ h =>
    h.changed ⟨rfl, rfl, rfl, rfl⟩ ⟨rfl, rfl, rfl, rfl⟩
      { h.view with queue := congrArg (· ++ [span]) h.view.queue } h.lastMatch
  dequeue := dequeue
  park := park
  unpark := changed fun _ _ h =>
    h.changed ⟨rfl, rfl, rfl, rfl⟩ ⟨rfl, rfl, rfl, rfl⟩ { h.view with parked := rfl } h.lastMatch
  inRegion := fun hinside hnext => (changed fun _ _ h => h.openRegion _).bind fun _ =>
    (outcome hinside).bind fun scanned => closeRegion.bind fun popped => hnext scanned popped
  inBlock := fun hinside hnext => (enterRange _ _).bind fun _ =>
    (changed fun _ _ h => h.openRegion _).bind fun _ =>
      (outcome hinside).bind fun scanned => closeRegion.bind fun _ => leaveRange.bind fun _ =>
        hnext scanned

end Scan.Uniform

/-! ## Scanners of which more is the same -/

/-- Two scanners that show the rules the same, and of which something else is the same. -/
structure Scanner.AlikeWith (same : Scanner Region → Scanner Region → Prop)
    (scanner other : Scanner Region) : Prop where
  alike : scanner.Alike Eq other
  same : same scanner other

namespace Scanner.AlikeWith

variable {α : Type} {same : Scanner Region → Scanner Region → Prop}

/-- A step comes to the same if it does so for the rules, and leaves the rest the same. -/
theorem uniform {step : RuleScan α} (hstep : Scan.Uniform (Scanner.Alike Eq) step)
    (hsame : ∀ scanner other : Scanner Region, scanner.AlikeWith same other →
      same (step.after scanner) (step.after other)) :
    Scan.Uniform (Scanner.AlikeWith same) step := by
  intro scanner other h
  have halike := hstep scanner other h.alike
  have hafter := hsame scanner other h
  unfold Scan.after at hafter
  generalize step scanner = result at halike hafter ⊢
  generalize step other = result' at halike hafter ⊢
  cases halike with
  | ok value halike => exact .ok value ⟨halike, hafter⟩
  | error halt halike => exact .error halt ⟨halike, hafter⟩

variable (hcalls : ∀ call : Call Region, call.ByRules → ∀ scanner other : Scanner Region,
  scanner.AlikeWith same other → same (call.step.after scanner) (call.step.after other))

include hcalls

theorem call (call : Call Region) (hby : call.ByRules)
    (hstep : Scan.Uniform (Scanner.Alike Eq) call.step) :
    Scan.Uniform (Scanner.AlikeWith same) call.step :=
  uniform hstep (hcalls call hby)

/-- A call that gives nothing is a step of which the value is left out. -/
theorem discarded {step : RuleScan α} (call : Call Region) (hby : call.ByRules)
    (heq : call.step = discard step) (hstep : Scan.Uniform (Scanner.Alike Eq) step) :
    Scan.Uniform (Scanner.AlikeWith same) step :=
  uniform hstep fun scanner other h => by
    rw [← Scan.after_discard step, ← Scan.after_discard step, ← heq]
    exact hcalls call hby scanner other h

theorem matchAtMark (pattern : Pattern) :
    Scan.Uniform (Scanner.AlikeWith same) (matchAtMark pattern) := by
  refine uniform (Scan.Uniform.matchAtMark pattern) fun scanner other h => ?_
  rw [matchAtMark_after_eq, matchAtMark_after_eq, ← h.alike.view.rangeEnd, ← h.alike.view.mark]
  split
  · exact h.same
  · rw [← Call.placeAt_after, ← Call.placeAt_after]
    exact hcalls (.placeAt scanner.mark) trivial scanner other h

theorem enterRange (offset length : Nat) :
    Scan.Uniform (Scanner.AlikeWith same) (Scanner.enterRange offset length) :=
  call hcalls (.enterRange offset length) trivial (Scan.Uniform.enterRange offset length)

theorem leaveRange : Scan.Uniform (Scanner.AlikeWith same) Scanner.leaveRange :=
  call hcalls .leaveRange trivial Scan.Uniform.leaveRange

theorem closeRegion : Scan.Uniform (Scanner.AlikeWith same) Scanner.closeRegion :=
  discarded hcalls .closeRegion trivial rfl Scan.Uniform.closeRegion

theorem openRegion (region : Region) :
    Scan.Uniform (Scanner.AlikeWith same) (modify (·.openRegion region) : RuleScan Unit) :=
  call hcalls (.openRegion region) trivial (Scan.Uniform.changed fun _ _ h => h.openRegion region)

/-- What the calls that rules are made of leave the same, all that rules do leaves the same. -/
theorem inherited : Inherited fun step => Scan.Uniform (Scanner.AlikeWith same) step :=
  have like := Scan.Uniform.inherited fun offset => (rfl : offset = offset)
  { pure := Scan.Uniform.pure
    fail := Scan.Uniform.fail
    fault := Scan.Uniform.fault
    bind := Scan.Uniform.bind
    look := fun hsame hnext =>
      Scan.Uniform.look (fun scanner other h => hsame scanner other h.alike.view) hnext
    read := discarded hcalls .read trivial rfl like.read
    stepBack := call hcalls .stepBack trivial like.stepBack
    moveTo := fun offset => call hcalls (.moveTo offset) trivial (like.moveTo offset)
    matchAtMark := matchAtMark hcalls
    setLastMatch := fun offset =>
      call hcalls (.setLastMatch offset) trivial (like.setLastMatch offset)
    startToken := call hcalls .startToken trivial like.startToken
    setToken := fun token => call hcalls (.setToken token) trivial (like.setToken token)
    enqueue := fun span => call hcalls (.enqueue span) trivial (like.enqueue span)
    dequeue := discarded hcalls .dequeue trivial rfl like.dequeue
    park := fun parked => call hcalls (.park parked) trivial (like.park parked)
    unpark := call hcalls .unpark trivial like.unpark
    inRegion := fun hinside hnext => (openRegion hcalls _).bind fun _ =>
      hinside.outcome.bind fun scanned =>
        (closeRegion hcalls).bind fun popped => hnext scanned popped
    inBlock := fun hinside hnext => (enterRange hcalls _ _).bind fun _ =>
      (openRegion hcalls _).bind fun _ => hinside.outcome.bind fun scanned =>
        (closeRegion hcalls).bind fun _ => (leaveRange hcalls).bind fun _ => hnext scanned }

end Scanner.AlikeWith

/-! ## Runs -/

/-- What can be seen of the next token, or why there is none. -/
def Grammar.nextRecord (grammar : Grammar) (scanner : Scanner Region) : Except Halt TokenRecord :=
  match grammar.nextToken scanner with
  | .ok token after => .ok (.of after token)
  | .error halt _ => .error halt

namespace Scanner.Alike

variable {grammar : Grammar} {scanner other : Scanner Region}

/-- A range of a text makes two scanners alike that stand in the same regions, with the same
queued and parked. -/
theorem assign {first second : Scanner Region} {doc : VersionedText} {offset length : Nat}
    (h : first.assign doc.toDocument offset length = .ok () scanner)
    (h' : second.assign doc.toDocument offset length = .ok () other)
    (hview : first.SameView { second with
      mark := first.mark, rangeEnd := first.rangeEnd, tokenStart := first.tokenStart })
    (hframes : List.Forall₂ (Frame.Alike like) first.frames second.frames)
    (hlast : like first.lastMatch second.lastMatch) : scanner.Alike like other := by
  obtain ⟨hs, tally, rfl⟩ := Scanner.assign_text h
  obtain ⟨ho, tally', rfl⟩ := Scanner.assign_text h'
  exact ⟨⟨doc, rfl⟩, rfl, hs, ho,
    { hview with mark := rfl, rangeEnd := rfl, tokenStart := rfl }, hframes, hlast⟩

/-- Fresh scanners are alike once they have been given the same range of a text, as a whole or from
inside a partition. -/
theorem fresh {settings settings' : Settings} {call : Call Region} {doc : VersionedText}
    (hset : call.document? = some doc.toDocument)
    (h : call.step (.fresh doc.toDocument settings) = .ok () scanner)
    (h' : call.step (.fresh doc.toDocument settings') = .ok () other) :
    scanner.Alike Eq other := by
  have hview : (Scanner.fresh doc.toDocument settings : Scanner Region).SameView
      (.fresh doc.toDocument settings') := ⟨rfl, rfl, rfl, rfl, rfl, rfl, rfl, rfl⟩
  cases call <;> cases hset
  case assign offset length =>
    exact .assign (Scan.ofTrial_eq_ok.mp h) (Scan.ofTrial_eq_ok.mp h') hview .nil rfl
  case assignPart offset length contentType partitionStart =>
    obtain ⟨found, hfound, rfl⟩ := Scanner.assignPart_eq_ok (Scan.ofTrial_eq_ok.mp h)
    obtain ⟨found', hfound', rfl⟩ := Scanner.assignPart_eq_ok (Scan.ofTrial_eq_ok.mp h')
    have halike : found.Alike Eq found' := .assign hfound hfound' hview .nil rfl
    exact halike.changed ⟨rfl, rfl, rfl, rfl⟩ ⟨rfl, rfl, rfl, rfl⟩
      { halike.view with mark := rfl, tokenStart := rfl } halike.lastMatch

theorem nextToken (hlike : ∀ offset, like offset offset) (hcustoms : grammar.customs = [])
    (h : scanner.Alike like other) :
    SameOutcome (Scanner.Alike like) (grammar.nextToken scanner) (grammar.nextToken other) :=
  (Scan.Uniform.inherited hlike).nextToken (.of_nil hcustoms) scanner other h

theorem tokenize (hlike : ∀ offset, like offset offset) (hcustoms : grammar.customs = [])
    (h : scanner.Alike like other) :
    SameOutcome (Scanner.Alike like) (grammar.tokenize scanner) (grammar.tokenize other) :=
  (Scan.Uniform.inherited hlike).tokenize (.of_nil hcustoms) scanner other h

theorem behind (hlike : ∀ offset, like offset offset) (hcustoms : grammar.customs = [])
    (h : scanner.Alike like other) (count : Nat) :
    (grammar.behind count scanner).Alike like (grammar.behind count other) := by
  induction count generalizing scanner other with
  | zero => exact h
  | succ count ih => exact ih (h.nextToken hlike hcustoms).after

/-- Where the last matches are the same, all that can be seen of a token is. -/
theorem nextRecord_eq (hcustoms : grammar.customs = []) (h : scanner.Alike Eq other) :
    grammar.nextRecord scanner = grammar.nextRecord other := by
  have hnext := h.nextToken (fun _ => rfl) hcustoms
  unfold Grammar.nextRecord
  generalize grammar.nextToken scanner = result at hnext ⊢
  generalize grammar.nextToken other = result' at hnext ⊢
  cases hnext with
  | ok token h =>
    simp only [TokenRecord.of, Scanner.tokenOffset, Scanner.tokenLength, h.view.mark,
      h.view.rangeEnd, h.view.tokenStart, h.view.currentSpan, h.view.queue, h.lastMatch]
  | error halt h => rfl

end Scanner.Alike

/-! ## The law -/

/-- Whichever way two fresh scanners are given a range of a text, as a whole or from inside a
partition, windows of two sizes make no difference: token by token, also behind the end of the
range and behind whatever stops the scan short, all that can be seen is the same, and so are the
spans of the range. -/
theorem the_window_makes_no_difference {grammar : Grammar} {doc : VersionedText}
    {settings settings' : Settings} {call : Call Region} {scanner other : Scanner Region}
    (hcustoms : grammar.customs = []) (hset : call.document? = some doc.toDocument)
    (hscanner : call.step (.fresh doc.toDocument settings) = .ok () scanner)
    (hother : call.step (.fresh doc.toDocument settings') = .ok () other) :
    (∀ count, grammar.nextRecord (grammar.behind count scanner) =
      grammar.nextRecord (grammar.behind count other)) ∧
    grammar.tokenize.result scanner = grammar.tokenize.result other := by
  have halike : scanner.Alike Eq other := .fresh hset hscanner hother
  exact ⟨fun count => (halike.behind (fun _ => rfl) hcustoms count).nextRecord_eq hcustoms,
    (halike.tokenize (fun _ => rfl) hcustoms).result_eq⟩

/-- Windows of one and of three characters over brackets. -/
theorem the_window_makes_no_difference_to_brackets :
    ∃ scanner other : Scanner Region, scanner.window.capacity = 1 ∧ other.window.capacity = 3 ∧
      scanner.window.chars = #['('] ∧ other.window.chars = #['(', 'a', '['] ∧
      (∀ count, Grammar.brackets.nextRecord (Grammar.brackets.behind count scanner) =
        Grammar.brackets.nextRecord (Grammar.brackets.behind count other)) ∧
      Grammar.brackets.tokenize.result scanner = Grammar.brackets.tokenize.result other := by
  let doc : VersionedText := .ofText ['(', 'a', '[', 'b', ')', ']', ')']
  let call : Call Region := .assign doc.toDocument 0 7
  obtain ⟨hrecords, hspans⟩ := the_window_makes_no_difference Grammar.brackets_plain.customs
    (show call.document? = some doc.toDocument from rfl)
    (show call.step (.fresh doc.toDocument ⟨1, by decide⟩) = .ok () _ from rfl)
    (show call.step (.fresh doc.toDocument ⟨3, by decide⟩) = .ok () _ from rfl)
  exact ⟨_, _, rfl, rfl, rfl, rfl, hrecords, hspans⟩

end RegionScan
