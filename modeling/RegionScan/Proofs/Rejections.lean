-- Rules that are rejected. The mark is put back and the stacks are as they were, but a
-- region that was entered has queued spans by then, and they stay. The law says when a
-- list of rules of which none claims text leaves no trace.
import RegionScan.Proofs.Stacks
import RegionScan.Proofs.WindowLaws

namespace RegionScan

/-! ## The queue -/

/-- The second state has the same spans queued first. -/
def Scanner.QueueGrows {ρ : Type} (scanner after : Scanner ρ) : Prop :=
  scanner.queue <+: after.queue

namespace Scanner.QueueGrows

variable {ρ α β : Type} {step : Scan ρ α} {next : α → Scan ρ β}

theorem of_eq {scanner after : Scanner ρ} (h : after.queue = scanner.queue) :
    scanner.QueueGrows after := by
  simp [QueueGrows, h]

theorem moveTo (scanner : Scanner ρ) (offset : Nat) :
    scanner.QueueGrows (scanner.moveTo offset) := by
  obtain ⟨cache, hmove⟩ := scanner.moveTo_cached offset
  rw [hmove]
  exact of_eq rfl

theorem bind (hstep : step.Passes QueueGrows) (hnext : ∀ value, (next value).Passes QueueGrows) :
    (step >>= next).Passes QueueGrows :=
  Scan.Passes.bind (fun _ _ _ h hmore => List.IsPrefix.trans h hmore) hstep hnext

theorem fault (fault : Fault) : (Scan.fault fault : Scan ρ α).Passes QueueGrows := fun _ => trivial

theorem read : (Scanner.read : Scan ρ (Option Char)).Passes QueueGrows := by
  intro scanner
  rcases scanner.read_cached with ⟨char, cache, hread⟩ | hread
  · exact .of_ok hread (of_eq rfl)
  · exact .of_fault hread

theorem matchAtMark (pattern : Pattern) : (matchAtMark pattern).Passes QueueGrows := by
  intro scanner
  rcases matchAtMark_cached pattern scanner with ⟨found, cache, hmatch, _⟩ | ⟨after, hmatch⟩
  · exact .of_ok hmatch (of_eq rfl)
  · exact .of_fault hmatch

theorem park (parked : ParkedEnd ρ) : (Scanner.park parked).Passes QueueGrows := by
  apply Scan.Passes.get
  intro scanner
  split
  · exact bind (fault _) fun _ => Scan.Passes.changed fun _ => of_eq rfl
  · exact Scan.Passes.changed fun _ => of_eq rfl

theorem closeRegion : (Scanner.closeRegion : Scan ρ ρ).Passes QueueGrows := by
  intro scanner
  rcases hopen : scanner.openRegions with _ | ⟨region, openRegions⟩
  · exact .of_failed (Scanner.closeRegion_refused hopen) (of_eq rfl)
  · exact .of_ok (Scanner.closeRegion_of_cons hopen) (of_eq rfl)

theorem enterRange (offset length : Nat) :
    (Scanner.enterRange offset length : Scan ρ Unit).Passes QueueGrows := by
  intro scanner
  by_cases hrange : offset + length ≤ scanner.document.length
  · exact .of_ok (Scanner.enterRange_of_le hrange) (moveTo { scanner with
      frames := scanner.frame :: scanner.frames, rangeEnd := offset + length } offset)
  · exact .of_failed (Scanner.enterRange_refused (Nat.lt_of_not_le hrange)) (of_eq rfl)

theorem leaveRange : (Scanner.leaveRange : Scan ρ Unit).Passes QueueGrows := by
  intro scanner
  rcases hframes : scanner.frames with _ | ⟨saved, frames⟩
  · exact .of_failed (Scanner.leaveRange_refused hframes) (of_eq rfl)
  · exact .of_ok (Scanner.leaveRange_of_cons hframes) (moveTo { scanner with
      frames, rangeEnd := saved.rangeEnd, lastMatch := saved.lastMatch } saved.offset)

/-- All that rules do adds spans at the end of the queue at most. -/
theorem inherited : InheritedByRules fun step => step.Passes QueueGrows where
  pure := fun _ _ => of_eq rfl
  fail := fun _ _ => of_eq rfl
  fault := fault
  bind := bind
  look := fun _ hnext => Scan.Passes.get hnext
  read := read
  stepBack := by
    apply Scan.Passes.changed
    intro scanner
    obtain ⟨cache, hback⟩ := scanner.stepBack_cached
    rw [hback]
    exact of_eq rfl
  moveTo := fun offset => Scan.Passes.changed fun scanner => moveTo scanner offset
  matchAtMark := matchAtMark
  setLastMatch := fun _ => Scan.Passes.changed fun _ => of_eq rfl
  enqueue := fun span => Scan.Passes.changed fun scanner => List.prefix_append scanner.queue [span]
  park := park
  unpark := Scan.Passes.changed fun _ => of_eq rfl
  inRegion := fun hinside hnext => bind (Scan.Passes.changed fun _ => of_eq rfl) fun _ =>
    bind hinside.outcome fun scanned => bind closeRegion fun popped => hnext scanned popped
  inBlock := fun hinside hnext => bind (enterRange _ _) fun _ =>
    bind (Scan.Passes.changed fun _ => of_eq rfl) fun _ => bind hinside.outcome fun scanned =>
      bind closeRegion fun _ => bind leaveRange fun _ => hnext scanned

end Scanner.QueueGrows

/-- Whenever the step gives a value, there are more spans queued than before. -/
def Scan.Lengthens {ρ α : Type} (step : Scan ρ α) : Prop :=
  ∀ scanner value after, step scanner = .ok value after →
    scanner.queue.length < after.queue.length

section

variable {α β : Type} {step : RuleScan α} {next : α → RuleScan β} {grammar : Grammar}
  {attempt : Rule → RuleScan Token} {region : Region} {scanner middle after : Scanner Region}
  {token : Token} {length : Nat}

theorem Scan.Lengthens.behind (hstep : step.Passes Scanner.QueueGrows)
    (hnext : ∀ value, (next value).Lengthens) : (step >>= next).Lengthens := by
  intro scanner value after h
  obtain ⟨found, middle, hfound, hafter⟩ := Scan.bind_eq_ok.mp h
  exact Nat.lt_of_le_of_lt ((hstep scanner).ok hfound).length_le
    (hnext found middle value after hafter)

/-- A span that is not empty is reported, and it stays. -/
theorem Scan.Lengthens.reported {offset : Nat} {next : Unit → RuleScan β} (hpos : 0 < length)
    (hnext : ∀ value, (next value).Passes Scanner.QueueGrows) :
    (report token offset length >>= next).Lengthens := by
  intro scanner value after h
  have hreport : report token offset length scanner =
      .ok () (scanner.enqueue ⟨token, offset, length⟩) := by
    unfold report
    rw [if_pos hpos]
    rfl
  rw [Scan.bind_of_ok hreport] at h
  have hle := ((hnext () _).ok h).length_le
  simp only [Scanner.enqueue, List.length_append, List.length_singleton] at hle
  exact hle

/-- A region whose begin match is found queues it. -/
theorem attemptRegion_lengthens
    (hstart : ∀ rule, (grammar.mayStart rule).Passes Scanner.QueueGrows)
    (hattempt : ∀ rule, (attempt rule).Passes Scanner.QueueGrows)
    (hclaim : claimAtMark region.beginPattern scanner = .ok (some length) middle)
    (hqueue : middle.queue = scanner.queue) (hpos : 0 < length)
    (h : attemptRegion grammar turnsLeft attempt region scanner = .ok token after) :
    scanner.queue.length < after.queue.length := by
  unfold attemptRegion at h
  rw [Scan.get_bind, Scan.bind_of_ok hclaim] at h
  rw [← hqueue]
  exact Scan.Lengthens.reported hpos
    (fun _ => Scanner.QueueGrows.inherited.insideRegion turnsLeft_seen hstart hattempt region _ _)
    middle _ _ h

theorem attemptBlock_lengthens
    (hstart : ∀ rule, (grammar.mayStart rule).Passes Scanner.QueueGrows)
    (hattempt : ∀ rule, (attempt rule).Passes Scanner.QueueGrows)
    (hclaim : claimAtMark region.beginPattern scanner = .ok (some length) middle)
    (hqueue : middle.queue = scanner.queue) (hpos : 0 < length)
    (h : attemptBlock grammar turnsLeft attempt region scanner = .ok token after) :
    scanner.queue.length < after.queue.length := by
  have hgrows := Scanner.QueueGrows.inherited
  unfold attemptBlock at h
  rw [Scan.get_bind, Scan.bind_of_ok hclaim] at h
  rw [← hqueue]
  refine Scan.Lengthens.behind (hgrows.sum _ _) (fun contentStart => ?_) middle _ _ h
  have hget : (get : RuleScan (Scanner Region)).Passes Scanner.QueueGrows := fun _ =>
    Scanner.QueueGrows.of_eq rfl
  refine .behind (hgrows.moveTo _) fun _ => .behind hget fun _ =>
    .behind (hgrows.findBlockEnd _ _) fun ⟨contentEnd, endLength⟩ => ?_
  exact .behind (hgrows.sum _ _) fun resume => .reported hpos fun _ =>
    hgrows.insideBlock turnsLeft_seen hstart hattempt region _ _ _ _

/-- A region or a block that starts at the mark queues its begin match, whatever comes of it. -/
theorem attempt_lengthens (hcustoms : grammar.customs = []) {id : Nat}
    (hregion : grammar.regions[id]? = some region)
    (hclaim : claimAtMark region.beginPattern scanner = .ok (some length) middle)
    (hqueue : middle.queue = scanner.queue) (hpos : 0 < length)
    (h : grammar.attempt (.region id) scanner = .ok token after) :
    scanner.queue.length < after.queue.length := by
  have hstart := Scanner.QueueGrows.inherited.mayStart (.of_nil hcustoms)
  have hattempt := Scanner.QueueGrows.inherited.attemptWithin (.of_nil hcustoms) turnsLeft_seen
    (max scanner.rangeEnd maxOffset - scanner.mark)
  unfold Grammar.attempt at h
  rw [Scan.get_bind] at h
  simp only [turnsLeft, Grammar.attemptWithin, hregion] at h
  split at h
  · exact attemptBlock_lengthens hstart hattempt hclaim hqueue hpos h
  · exact attemptRegion_lengthens hstart hattempt hclaim hqueue hpos h

end

/-! ## Standing at an offset -/

/-- The scanner stands at an offset of a range of a text. Anything may be queued or parked. -/
structure Scanner.StandsAt (scanner : Scanner Region) (settings : Settings) (doc : VersionedText)
    (here stop : Nat) : Prop where
  onText : OnText settings scanner
  document_eq : scanner.document = doc.toDocument
  mark_eq : scanner.mark = here
  rangeEnd_eq : scanner.rangeEnd = stop

/-- No region and no block among the rules starts at an offset of a range. -/
def Grammar.NoneStarts (grammar : Grammar) (text : Text) (here stop : Nat) (rules : List Rule) :
    Prop :=
  ∀ id region, .region id ∈ rules → grammar.regions[id]? = some region →
    region.beginPattern.claim? text here stop = none

section

variable {grammar : Grammar} {settings : Settings} {doc : VersionedText} {here stop : Nat}
  {scanner middle tried after : Scanner Region} {rule : Rule} {rules : List Rule} {token : Token}

theorem Scanner.StandsAt.sees (h : scanner.StandsAt settings doc here stop)
    (hsmall : doc.text.length < maxOffset) (hhere : here ≤ stop) (hstop : stop ≤ doc.text.length) :
    scanner.Sees doc.text .whole :=
  ⟨h.onText.current, h.document_eq ▸ doc.toDocument_shows _ hsmall,
    by rw [h.mark_eq, h.rangeEnd_eq]; exact hhere, h.rangeEnd_eq ▸ hstop⟩

/-- Rules stay on the text. -/
theorem kept_on_text (settings : Settings) (doc : VersionedText) :
    KeptByCalls (fun _ => False) fun scanner : Scanner Region =>
      OnText settings scanner ∧ scanner.document = doc.toDocument :=
  fun call hnone scanner ⟨hs, hdocument⟩ =>
    ⟨OnText.kept call (fun document hdoc => (hnone document hdoc).elim) scanner hs,
      (Scanner.document_grounded (Q := (· = doc.toDocument)) fun _ hadmits => hadmits.elim).kept
        call hnone scanner hdocument⟩

/-- Once a rule is rejected and the mark is put back, the scanner stands where it stood. -/
theorem Scanner.StandsAt.put_back (h : scanner.StandsAt settings doc here stop)
    (hcustoms : grammar.customs = []) (hattempt : grammar.attempt rule scanner = .ok token tried) :
    (tried.moveTo here).StandsAt settings doc here stop ∧
      scanner.SameStacks (tried.moveTo here) := by
  have hsame := ((Scan.Neutral.inherited.attempt (.of_nil hcustoms) rule).of_ok hattempt).trans
    (tried.moveTo_sameStacks here)
  have hkept := (kept_on_text settings doc).inherited.attempt (.of_nil hcustoms) rule scanner
    ⟨h.onText, h.document_eq⟩
  rw [Scan.after, hattempt] at hkept
  obtain ⟨htext, hdocument⟩ := (kept_on_text settings doc) (.moveTo here) (by simp [Call.document?])
    tried hkept
  exact ⟨⟨htext, hdocument, tried.moveTo_mark here, hsame.rangeEnd.trans h.rangeEnd_eq⟩, hsame⟩

/-- Whether a rule may start tells a look at the text, which changes nothing. -/
theorem Scanner.StandsAt.mayStart (h : scanner.StandsAt settings doc here stop)
    (hsmall : doc.text.length < maxOffset) (hhere : here ≤ stop) (hstop : stop ≤ doc.text.length)
    (hcustoms : grammar.customs = []) {starts : Bool}
    (hstart : grammar.mayStart rule scanner = .ok starts middle) :
    middle.StandsAt settings doc here stop ∧ scanner.SameStacks middle ∧
      middle.queue = scanner.queue ∧ middle.parked = scanner.parked ∧
      ∃ found, grammar.Starts doc.text .whole here stop rule found ∧ starts = found.isSome := by
  obtain ⟨_, _, hleads, found, hfound, hsome, hwalked⟩ :=
    mayStart_leads hcustoms (h.sees hsmall hhere hstop) rule
  cases hstart.symm.trans hleads
  rw [h.mark_eq, h.rangeEnd_eq] at hfound
  have hkept := (kept_on_text settings doc).inherited.mayStart (.of_nil hcustoms) rule scanner
    ⟨h.onText, h.document_eq⟩
  rw [Scan.after, hstart] at hkept
  refine ⟨⟨hkept.1, hkept.2, hwalked.mark_eq.trans h.mark_eq,
    hwalked.rangeEnd_eq.trans h.rangeEnd_eq⟩,
    (Scan.Neutral.inherited.mayStart (.of_nil hcustoms) rule).of_ok hstart, ?_, hwalked.parked_eq,
    found, hfound, hsome⟩
  rw [hwalked.queue_eq, List.append_nil]

/-- Where no rule claims text, the first rule does not start, or it is tried and rejected. -/
theorem tryRules_none {mayStart : Rule → RuleScan Bool} {attempt : Rule → RuleScan Token}
    {pending left : Nat}
    (h : tryRules mayStart attempt none here (rule :: rules) pending scanner =
      .ok (none, left) after) :
    (∃ middle, mayStart rule scanner = .ok false middle ∧
      tryRules mayStart attempt none here rules pending middle = .ok (none, left) after) ∨
    ∃ middle tried token, mayStart rule scanner = .ok true middle ∧
      attempt rule middle = .ok token tried ∧
      tryRules mayStart attempt none here rules pending (tried.moveTo here) =
        .ok (none, left) after := by
  obtain ⟨starts, middle, hstart, hrest⟩ := Scan.bind_eq_ok.mp h
  cases starts with
  | false => exact Or.inl ⟨middle, hstart, hrest⟩
  | true =>
    have hreport : reportContent none pending here middle = .ok pending middle := rfl
    simp only [Bool.not_true, Bool.false_eq_true, if_false] at hrest
    rw [Scan.bind_of_ok hreport, Scan.get_bind] at hrest
    obtain ⟨token, tried, hattempt, hback⟩ := Scan.bind_eq_ok.mp hrest
    refine Or.inr ⟨middle, tried, token, hstart, hattempt, ?_⟩
    rw [Scan.get_bind] at hback
    split at hback
    · exact hback
    · -- A rule that claims text is not rejected.
      split at hback
      · obtain ⟨_, _, -, hclaimed⟩ := Scan.bind_eq_ok.mp hback
        obtain ⟨_, _, -, hclaimed⟩ := Scan.bind_eq_ok.mp hclaimed
        cases hclaimed
      · cases hback

/-! ## The law -/

theorem Scanner.moveTo_finds (scanner : Scanner Region) (offset : Nat) :
    (scanner.moveTo offset).queue = scanner.queue ∧
      (scanner.moveTo offset).parked = scanner.parked := by
  obtain ⟨cache, hmove⟩ := scanner.moveTo_cached offset
  rw [hmove]
  exact ⟨rfl, rfl⟩

/-- A pattern that is tried queues nothing itself. -/
theorem attempt_pattern {pattern : Pattern} {own : Token}
    (h : grammar.attempt (.pattern pattern own) scanner = .ok token tried) :
    tried.queue = scanner.queue ∧ tried.parked = scanner.parked := by
  unfold Grammar.attempt at h
  rw [Scan.get_bind] at h
  simp only [turnsLeft, Grammar.attemptWithin] at h
  obtain ⟨found, middle, hclaim, hrest⟩ := Scan.bind_eq_ok.mp h
  obtain ⟨hit, _, hmatch, hfound⟩ := Scan.bind_eq_ok.mp hclaim
  have hmiddle : middle.queue = scanner.queue ∧ middle.parked = scanner.parked := by
    cases hfound
    rcases matchAtMark_cached pattern scanner with ⟨_, cache, hcached, -⟩ | ⟨_, hfault⟩
    · cases hmatch.symm.trans hcached
      exact ⟨rfl, rfl⟩
    · cases hmatch.symm.trans hfault
  rcases found with _ | length
  · cases hrest
    exact hmiddle
  · dsimp only at hrest
    rw [Scan.get_bind] at hrest
    obtain ⟨stop, _, hsum, hend⟩ := Scan.bind_eq_ok.mp hrest
    unfold Scan.sum at hsum
    split at hsum
    · cases hsum
      cases hend
      exact ⟨(Scanner.moveTo_finds _ _).1.trans hmiddle.1,
        (Scanner.moveTo_finds _ _).2.trans hmiddle.2⟩
    · cases hsum

theorem noneStarts_cons : grammar.NoneStarts doc.text here stop (rule :: rules) ↔
    (∀ id region, rule = .region id → grammar.regions[id]? = some region →
      region.beginPattern.claim? doc.text here stop = none) ∧
        grammar.NoneStarts doc.text here stop rules := by
  simp only [Grammar.NoneStarts, List.mem_cons, eq_comm (b := rule), or_imp, forall_and]

/-- A pattern that starts leaves no trace but the mark; a region or a block leaves a span in the
queue. -/
theorem Scanner.StandsAt.leaves (h : scanner.StandsAt settings doc here stop)
    (hsmall : doc.text.length < maxOffset) (hhere : here ≤ stop) (hstop : stop ≤ doc.text.length)
    (hcustoms : grammar.customs = []) {length : Nat}
    (hstarts : grammar.Starts doc.text .whole here stop rule (some length))
    (hattempt : grammar.attempt rule scanner = .ok token tried) :
    ((∃ pattern own, rule = .pattern pattern own) ∧
      tried.queue = scanner.queue ∧ tried.parked = scanner.parked) ∨
    (∃ id region, rule = .region id ∧ grammar.regions[id]? = some region ∧
      region.beginPattern.claim? doc.text here stop = some length) ∧
      scanner.queue.length < tried.queue.length := by
  cases rule with
  | pattern pattern own => exact Or.inl ⟨⟨pattern, own, rfl⟩, attempt_pattern hattempt⟩
  | region id =>
    rcases hregion : grammar.regions[id]? with _ | region
    · simp only [Grammar.Starts, Grammar.opening?, hregion, Option.map_none] at hstarts
      cases hstarts
    · have hclaim := (Sight.claims_whole.mp ((Grammar.starts_region hregion).mp hstarts)).symm
      refine Or.inr ⟨⟨id, region, rfl, hregion, hclaim⟩, ?_⟩
      obtain ⟨found, middle, hfound, hclaims, hwalked⟩ :=
        claimAtMark_leads (h.sees hsmall hhere hstop) region.beginPattern
      rw [h.mark_eq, h.rangeEnd_eq, Sight.claims_whole, hclaim] at hclaims
      subst hclaims
      exact attempt_lengthens hcustoms hregion hfound (by rw [hwalked.queue_eq, List.append_nil])
        (Pattern.claim?_eq_some.mp hclaim).2.2 hattempt
  | custom index => cases hstarts

theorem tryRules_rejects (hsmall : doc.text.length < maxOffset) (hhere : here ≤ stop)
    (hstop : stop ≤ doc.text.length) (hcustoms : grammar.customs = []) {pending left : Nat}
    (hs : scanner.StandsAt settings doc here stop)
    (h : tryRules grammar.mayStart grammar.attempt none here rules pending scanner =
      .ok (none, left) after) :
    after.mark = here ∧ scanner.SameStacks after ∧
      (after.queue = scanner.queue ∧ after.parked = scanner.parked ↔
        grammar.NoneStarts doc.text here stop rules) := by
  induction rules generalizing scanner with
  | nil =>
    cases h
    exact ⟨hs.mark_eq, ⟨rfl, rfl, rfl⟩, fun _ _ _ hmem => (by cases hmem), fun _ => ⟨rfl, rfl⟩⟩
  | cons rule rest ih =>
    rw [noneStarts_cons]
    rcases tryRules_none h with ⟨middle, hstart, hrest⟩ |
      ⟨middle, tried, token, hstart, hattempt, hrest⟩
    · -- The rule does not start.
      obtain ⟨hmiddle, hsame, hqueue, hparked, found, hfound, hnone⟩ :=
        hs.mayStart hsmall hhere hstop hcustoms hstart
      obtain rfl : found = none := by simpa using hnone.symm
      obtain ⟨hmark, hstacks, htrace⟩ := ih hmiddle hrest
      refine ⟨hmark, hsame.trans hstacks, ?_⟩
      rw [← hqueue, ← hparked, htrace]
      refine ⟨fun hothers => ⟨?_, hothers⟩, fun hall => hall.2⟩
      rintro id region rfl hregion
      exact (Sight.claims_whole.mp ((Grammar.starts_region hregion).mp hfound)).symm
    · -- The rule starts, and is tried and rejected.
      obtain ⟨hmiddle, hsame, hqueue, hparked, found, hfound, hsome⟩ :=
        hs.mayStart hsmall hhere hstop hcustoms hstart
      obtain ⟨length, rfl⟩ := Option.isSome_iff_exists.mp hsome.symm
      obtain ⟨hback, hput⟩ := hmiddle.put_back hcustoms hattempt
      obtain ⟨hmark, hstacks, htrace⟩ := ih hback hrest
      obtain ⟨hkept, hparked'⟩ := tried.moveTo_finds here
      refine ⟨hmark, (hsame.trans hput).trans hstacks, ?_⟩
      rcases hmiddle.leaves hsmall hhere hstop hcustoms hfound hattempt with
        ⟨⟨pattern, own, rfl⟩, hown, hownParked⟩ | ⟨⟨id, region, rfl, hregion, hclaim⟩, hlonger⟩
      · rw [← hqueue, ← hparked, ← hown, ← hownParked, ← hkept, ← hparked', htrace]
        exact ⟨fun hothers => ⟨fun _ _ hrule => (by cases hrule), hothers⟩, fun hall => hall.2⟩
      · have hrules := Scanner.QueueGrows.inherited
        have hgrows := ((hrules.tryRules (hrules.mayStart (.of_nil hcustoms))
          (hrules.attempt (.of_nil hcustoms)) _ _ _ _ _).ok hrest).length_le
        rw [hkept] at hgrows
        rw [hqueue] at hlonger
        constructor
        · rintro ⟨hsameQueue, -⟩
          rw [hsameQueue] at hgrows
          omega
        · rintro ⟨hnone, -⟩
          cases (hnone id region rfl hregion).symm.trans hclaim

end

variable {grammar : Grammar} {rules : List Rule} {scanner after : Scanner Region}

/-- Over a text, where rules are tried in order and none of them claims text, the mark, the open
regions and the ranges are as they were. The queue and the parked end are as they were, too, if and
only if no region and no block among the rules has started at the mark, only to be rejected. -/
theorem a_rejection_leaves_no_trace_iff {settings : Settings}
    (hreached : Reached IsText settings scanner) {doc : VersionedText}
    (hdocument : scanner.document = doc.toDocument) (hsmall : doc.text.length < maxOffset)
    (hmark : scanner.mark ≤ scanner.rangeEnd) (hend : scanner.rangeEnd ≤ doc.text.length)
    (hcustoms : grammar.customs = []) {pending left : Nat}
    (h : tryRules grammar.mayStart grammar.attempt none scanner.mark rules pending scanner =
      .ok (none, left) after) :
    after.mark = scanner.mark ∧ scanner.SameStacks after ∧
      (after.queue = scanner.queue ∧ after.parked = scanner.parked ↔
        grammar.NoneStarts doc.text scanner.mark scanner.rangeEnd rules) :=
  tryRules_rejects hsmall hmark hend hcustoms ⟨hreached.onText, hdocument, rfl, rfl⟩ h

/-- Round brackets that are entered with the undefined token, and square ones. -/
def Grammar.unnamed : Grammar :=
  { Grammar.brackets with
    regions := [{ Region.brackets 0 '(' ')' with beginToken := .undefined }, .brackets 1 '[' ']'] }

/-- Square brackets do not start at a round one, and a pattern that gives the undefined token is
rejected there without a trace. -/
theorem a_rejected_pattern_leaves_no_trace :
    ∃ after, Reached IsText ⟨3, by decide⟩ .atBracket ∧
      tryRules Grammar.unnamed.mayStart Grammar.unnamed.attempt none 0
        [.region 1, .pattern (.char '(') .undefined] 0 .atBracket = .ok (none, 0) after ∧
      after.mark = 0 ∧ after.queue = [] ∧ after.parked = none := by
  have hresult : (tryRules Grammar.unnamed.mayStart Grammar.unnamed.attempt none 0
      [.region 1, .pattern (.char '(') .undefined] 0).result .atBracket = .ok (none, 0) := by
    decide +kernel
  have htried := Scan.result_eq_ok.mp hresult
  obtain ⟨hmark, -, htrace⟩ := a_rejection_leaves_no_trace_iff Scanner.atBracket_reached
    (show _ = (VersionedText.ofText ['(', 'a', ')']).toDocument from rfl) (by decide) (by decide)
    (by decide) rfl htried
  obtain ⟨hqueue, hparked⟩ := htrace.mpr (by
    intro id region hrule hregion
    obtain rfl : id = 1 := by simpa using hrule
    cases hregion
    decide +kernel)
  exact ⟨_, Scanner.atBracket_reached, htried, hmark, hqueue, hparked⟩

/-- Round brackets that are entered with the undefined token are rejected, and all that was found of
them stays in the queue. -/
theorem a_rejected_region_leaves_its_spans :
    ∃ after, Reached IsText ⟨3, by decide⟩ .atBracket ∧ Scanner.atBracket.queue = [] ∧
      tryRules Grammar.unnamed.mayStart Grammar.unnamed.attempt none 0 [.region 0, .region 1] 0
        .atBracket = .ok (none, 0) after ∧
      after.queue = [⟨.undefined, 0, 1⟩, ⟨.other "inside", 1, 1⟩, ⟨.other "close", 2, 1⟩] := by
  have hresult : (tryRules Grammar.unnamed.mayStart Grammar.unnamed.attempt none 0
      [.region 0, .region 1] 0).result .atBracket = .ok (none, 0) := by decide +kernel
  exact ⟨_, Scanner.atBracket_reached, rfl, Scan.result_eq_ok.mp hresult, by decide +kernel⟩

/-- With nothing parked, and where every region has a begin token, a rejection never leaves a
trace. -/
theorem no_rejection_leaves_a_trace_of_named_regions {settings : Settings}
    (hreached : Reached IsText settings scanner) {doc : VersionedText}
    (hdocument : scanner.document = doc.toDocument) (hsmall : doc.text.length < maxOffset)
    (hmark : scanner.mark ≤ scanner.rangeEnd) (hend : scanner.rangeEnd ≤ doc.text.length)
    (hcustoms : grammar.customs = []) (hbegins : grammar.BeginsDefined)
    (hparked : scanner.parked = none) {left : Nat}
    (h : tryRules grammar.mayStart grammar.attempt none scanner.mark rules scanner.mark scanner =
      .ok (none, left) after) :
    after.queue = scanner.queue ∧ after.parked = none := by
  have hstands : scanner.StandsAt settings doc scanner.mark scanner.rangeEnd :=
    ⟨hreached.onText, hdocument, rfl, rfl⟩
  obtain ⟨⟨claimed, _⟩, _, hrun, started, found, -, hsome, -, hlike⟩ :=
    tryRules_leads hcustoms hbegins Enters.fits Enters.queues
      (attempt_leads hcustoms hbegins (turnsLeft scanner)) none rules
      (hstands.sees hsmall hmark hend) hparked rfl (turnsLeft_enough scanner) (Nat.le_refl _)
  cases h.symm.trans hrun
  obtain rfl : found = none := by simpa using hsome.symm
  have hwalked : scanner.Walked after [] scanner.mark none := hlike
  exact ⟨by rw [hwalked.queue_eq, List.append_nil], hwalked.parked_eq⟩

end RegionScan
