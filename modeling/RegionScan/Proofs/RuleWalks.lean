-- Rules walk: every rule of a grammar that has no rules of the host comes through,
-- and what it leaves behind is the passage of a walk. Regions are entered up to a
-- depth, and the characters that are left bound the depth that is needed.
import RegionScan.Proofs.Steps
import RegionScan.Proofs.WalkShapes

namespace RegionScan

/-! ## Plain grammars -/

/-- A grammar of patterns, regions and embedded blocks alone, with every region in its place in
the table. -/
structure Grammar.Plain (grammar : Grammar) : Prop where
  customs : grammar.customs = []
  ids : ∀ {id : Nat} {region : Region}, grammar.regions[id]? = some region → region.id = id

theorem Grammar.Plain.of_ids {grammar : Grammar} (hcustoms : grammar.customs = [])
    (hids : grammar.regions.map Region.id = List.range grammar.regions.length) :
    grammar.Plain := by
  refine ⟨hcustoms, ?_⟩
  intro id region hregion
  have hid : (grammar.regions.map Region.id)[id]? = some region.id := by
    rw [List.getElem?_map, hregion, Option.map_some]
  rw [hids, List.getElem?_range (List.getElem?_eq_some_iff.mp hregion).1] at hid
  exact (Option.some.inj hid).symm

/-- No region is entered with the undefined token, which stands for a rule that claims nothing. -/
def Grammar.BeginsDefined (grammar : Grammar) : Prop :=
  ∀ region ∈ grammar.regions, region.beginToken ≠ .undefined

instance (grammar : Grammar) : Decidable grammar.BeginsDefined :=
  inferInstanceAs (Decidable (∀ region ∈ grammar.regions, region.beginToken ≠ .undefined))

variable {grammar : Grammar} {text : Text} {sight : Sight}
  {enters : Region → List Region → Nat → Nat → Passage → Prop}
  {attempt : Rule → RuleScan Token} {scanner middle : Scanner Region} {depth : Nat}

/-! ## Trying rules -/

theorem mayStart_leads (hcustoms : grammar.customs = []) (hs : scanner.Sees text sight)
    (rule : Rule) :
    (grammar.mayStart rule).Leads scanner fun starts after =>
      ∃ found, grammar.Starts text sight scanner.mark scanner.rangeEnd rule found ∧
        starts = found.isSome ∧ scanner.Walked after [] scanner.mark scanner.parked := by
  have hclaim : ∀ pattern, (do return (← claimAtMark pattern).isSome : RuleScan Bool).Leads scanner
      fun starts after => ∃ found,
        sight.Claims text pattern scanner.mark scanner.rangeEnd found ∧ starts = found.isSome ∧
          scanner.Walked after [] scanner.mark scanner.parked := fun pattern =>
    Scan.Leads.bind ((claimAtMark_leads hs pattern).mono fun found after h =>
      Scan.Leads.pure ⟨found, h.1, rfl, h.2⟩)
  unfold Grammar.mayStart Grammar.Starts Grammar.opening?
  rcases rule with ⟨pattern, token⟩ | id | index
  · exact hclaim pattern
  · dsimp only
    rcases grammar.regions[id]? with _ | region
    · exact Scan.Leads.pure ⟨none, rfl, rfl, hs.current.stays⟩
    · exact hclaim region.beginPattern
  · simp only [hcustoms, List.getElem?_nil]
    exact Scan.Leads.pure ⟨none, rfl, rfl, hs.current.stays⟩

/-- What may come of a rule at the mark. -/
inductive Attempted (grammar : Grammar) (text : Text) (sight : Sight)
    (enters : Region → List Region → Nat → Nat → Passage → Prop) (scanner : Scanner Region) :
    Rule → Token → Scanner Region → Prop
  | nothing {rule after} : grammar.Starts text sight scanner.mark scanner.rangeEnd rule none →
    scanner.Walked after [] scanner.mark none →
      Attempted grammar text sight enters scanner rule .undefined after
  | word {pattern token after length} :
    sight.Claims text pattern scanner.mark scanner.rangeEnd (some length) →
    scanner.Walked after [] (scanner.mark + length) none →
      Attempted grammar text sight enters scanner (.pattern pattern token) token after
  | enter {id region passage after} : grammar.regions[id]? = some region →
    enters region scanner.openRegions scanner.rangeEnd scanner.mark passage →
    scanner.Walked after passage.spans passage.stop passage.parked →
      Attempted grammar text sight enters scanner (.region id) region.beginToken after

/-- Rules come through wherever the range is not longer than the depth. -/
def AttemptLeads (grammar : Grammar) (text : Text) (sight : Sight)
    (enters : Region → List Region → Nat → Nat → Passage → Prop) (depth : Nat)
    (attempt : Rule → RuleScan Token) : Prop :=
  ∀ {scanner : Scanner Region} (rule : Rule), scanner.Sees text sight → scanner.parked = none →
    scanner.rangeEnd - scanner.mark < depth →
      (attempt rule).Leads scanner fun token after =>
        Attempted grammar text sight enters scanner rule token after

/-- The content that is reported once a rule has started, where there is content. -/
def lead (content : Option Token) (started : Bool) (pending here : Nat) : List Span :=
  match content with
  | some token => if started then piece ⟨token, pending, here - pending⟩ else []
  | none => []

/-- Where content is pending from then on. -/
def leadTo (content : Option Token) (started : Bool) (pending here : Nat) : Nat :=
  match content with
  | some _ => if started then here else pending
  | none => pending

/-- Content is reported once. -/
theorem lead_twice (content : Option Token) (started : Bool) (pending here : Nat) :
    lead content started (leadTo content true pending here) here = [] ∧
      leadTo content started (leadTo content true pending here) here =
        leadTo content true pending here := by
  rcases content with _ | token
  · exact ⟨rfl, rfl⟩
  · cases started <;> simp [lead, leadTo, piece]

theorem reportContent_leads (hs : scanner.Current) (content : Option Token) {pending here : Nat}
    (hpending : pending ≤ here) :
    (reportContent content pending here).Leads scanner fun left after =>
      left = leadTo content true pending here ∧
        scanner.Walked after (lead content true pending here) scanner.mark scanner.parked := by
  rcases content with _ | token
  · exact Scan.Leads.pure ⟨rfl, hs.stays⟩
  · refine Scan.Leads.bind (Scan.Leads.difference hpending ?_)
    exact Scan.Leads.bind ((report_leads hs _ _ _).mono fun _ after h =>
      Scan.Leads.pure ⟨rfl, h⟩)

/-- What rules tried in order leave behind. -/
def TriedLike (content : Option Token) (pending here : Nat) (scanner after : Scanner Region)
    (started : Bool) : Option Passage → Prop
  | none => scanner.Walked after (lead content started pending here) here none
  | some passage =>
    scanner.Walked after (lead content started pending here ++ passage.spans) passage.stop
      passage.parked

theorem tryRules_leads (hcustoms : grammar.customs = []) (hbegins : grammar.BeginsDefined)
    (hfit : EntersFit enters) (hqueue : EntersQueue enters)
    (hattempt : AttemptLeads grammar text sight enters depth attempt) (content : Option Token)
    {here pending : Nat} (rules : List Rule) (hs : scanner.Sees text sight)
    (hparked : scanner.parked = none) (hmark : scanner.mark = here)
    (hdepth : scanner.rangeEnd - here < depth) (hpending : pending ≤ here) :
    (tryRules grammar.mayStart attempt content here rules pending).Leads scanner
      fun result after => ∃ started found,
        Tries grammar text sight enters scanner.openRegions scanner.rangeEnd here rules started
          found ∧
        result.1.isSome = found.isSome ∧ result.2 = leadTo content started pending here ∧
        TriedLike content pending here scanner after started found := by
  induction rules generalizing scanner pending with
  | nil =>
    refine Scan.Leads.pure ⟨false, none, .done, rfl, ?_, ?_⟩
    · cases content <;> rfl
    · have := hs.current.stays
      rw [hmark, hparked] at this
      cases content <;> exact this
  | cons rule rest ih =>
    have hle : here ≤ scanner.rangeEnd := hmark ▸ hs.mark_le
    unfold tryRules
    apply Scan.Leads.bind
    apply (mayStart_leads hcustoms hs rule).mono
    intro starts middle h
    obtain ⟨found, hstarts, rfl, hwalked⟩ := h
    rw [hmark, hparked] at hwalked
    rw [hmark] at hstarts
    have hs' := hwalked.sees hs hle
    rcases found with _ | length
    · -- The rule does not start.
      apply (ih hs' hwalked.parked_eq hwalked.mark_eq (by rw [hwalked.rangeEnd_eq]; exact hdepth)
        hpending).mono
      intro result after h
      obtain ⟨started, found, htries, hsome, hleft, hafter⟩ := h
      rw [hwalked.openRegions_eq, hwalked.rangeEnd_eq] at htries
      refine ⟨started, found, .skip hstarts htries, hsome, hleft, ?_⟩
      rcases found with _ | passage <;> exact hwalked.trans hafter
    · apply Scan.Leads.bind
      apply (reportContent_leads hs'.current content hpending).mono
      intro left flushed h
      obtain ⟨rfl, hflushed⟩ := h
      rw [hwalked.mark_eq, hwalked.parked_eq] at hflushed
      have hto := hwalked.trans hflushed
      rw [List.nil_append] at hto
      have hs'' := hto.sees hs hle
      -- A rule that comes to nothing leaves the mark where it was, and the next ones are tried.
      have hreject : ∀ {middle mark}, flushed.Walked middle [] mark none →
          ((∃ pattern, rule = .pattern pattern .undefined) ∨
            grammar.Starts text sight here scanner.rangeEnd rule none) →
          (do
            modify (·.moveTo here)
            tryRules grammar.mayStart attempt content here rest
              (leadTo content true pending here) : RuleScan (Option Token × Nat)).Leads middle
            fun result after => ∃ started found,
              Tries grammar text sight enters scanner.openRegions scanner.rangeEnd here
                (rule :: rest) started found ∧
              result.1.isSome = found.isSome ∧ result.2 = leadTo content started pending here ∧
              TriedLike content pending here scanner after started found := by
        intro middle mark hmiddle hidle
        have hback := hto.still (hmiddle.still (moveTo_walks hmiddle.current here))
        rw [hmiddle.parked_eq] at hback
        have hsback := hback.sees hs hle
        refine Scan.Leads.bind (Scan.Leads.changed ?_)
        have hleft : leadTo content true pending here ≤ here := by
          cases content <;> simp [leadTo, hpending]
        apply (ih hsback hback.parked_eq hback.mark_eq (by rw [hback.rangeEnd_eq]; exact hdepth)
          hleft).mono
        intro result after h
        obtain ⟨started, found, htries, hsome, hresult, hafter⟩ := h
        rw [hback.openRegions_eq, hback.rangeEnd_eq] at htries
        obtain ⟨hlead, hleadTo⟩ := lead_twice content started pending here
        refine ⟨true, found, .reject hstarts hidle htries, hsome, hresult.trans hleadTo, ?_⟩
        rcases found with _ | passage
        · have := hback.trans hafter
          rwa [hlead, List.append_nil] at this
        · have := hback.trans hafter
          rwa [hlead, List.nil_append] at this
      apply Scan.Leads.get
      apply Scan.Leads.bind
      apply (hattempt rule hs'' hto.parked_eq
        (by rw [hto.rangeEnd_eq, hto.mark_eq]; exact hdepth)).mono
      intro token after h
      apply Scan.Leads.get
      cases h with
      | nothing hnone hafter =>
        rw [hto.mark_eq, hto.rangeEnd_eq] at hnone
        exact hreject hafter (Or.inr hnone)
      | @word pattern _ _ length hclaims hafter =>
        rw [hto.mark_eq, hto.rangeEnd_eq] at hclaims
        rw [hto.mark_eq] at hafter
        by_cases htoken : token = .undefined
        · subst htoken
          exact hreject hafter (Or.inl ⟨_, rfl⟩)
        · have hcond : (token.isUndefined || decide (after.mark ≤ here)) = false := by
            have hpos := hclaims.length.2.2
            have hdefined : token.isUndefined = false := by
              cases token with
              | undefined => exact absurd rfl htoken
              | _ => rfl
            rw [hdefined, hafter.mark_eq, Bool.false_or, decide_eq_false_iff_not]
            omega
          have hsame : after.queue.length = flushed.queue.length := by
            rw [hafter.queue_eq, List.append_nil]
          rw [if_neg (by rw [hcond]; decide), if_pos hsame]
          refine Scan.Leads.bind (Scan.Leads.difference (by rw [hafter.mark_eq]; omega) ?_)
          rw [hafter.mark_eq, Nat.add_sub_cancel_left]
          refine Scan.Leads.bind ((report_leads hafter.current token here length).mono
            fun _ final h => Scan.Leads.pure ⟨true, _, .word hclaims htoken, rfl, rfl, ?_⟩)
          rw [hafter.mark_eq, hafter.parked_eq, piece, if_pos hclaims.length.2.2] at h
          have := (hto.still hafter).trans h
          exact this
      | @enter id region passage _ hregion henters hafter =>
        rw [hto.mark_eq, hto.rangeEnd_eq, hto.openRegions_eq] at henters
        have hbegin :
            sight.Claims text region.beginPattern here scanner.rangeEnd (some length) := by
          simpa only [Grammar.Starts, Grammar.opening?, hregion, Option.map_some] using hstarts
        obtain ⟨hforward, _⟩ := hfit henters
        have hcond : (region.beginToken.isUndefined || decide (after.mark ≤ here)) = false := by
          have := hbegins region (List.mem_of_getElem? hregion)
          rw [hafter.mark_eq]
          rcases htoken : region.beginToken <;> simp_all [Token.isUndefined]
        have hmore : ¬ after.queue.length = flushed.queue.length := by
          have := List.length_pos_iff.mpr (hqueue henters)
          rw [hafter.queue_eq, List.length_append]
          omega
        rw [if_neg (by rw [hcond]; decide), if_neg hmore]
        exact Scan.Leads.pure ⟨true, _, .enter hregion hbegin henters, rfl, rfl, hto.trans hafter⟩

/-! ## The inside of a region -/

/-- Content is reported once, whether a rule has started or not. -/
theorem lead_closes (token : Token) (started : Bool) (pending here : Nat) :
    lead (some token) started pending here ++
        lead (some token) true (leadTo (some token) started pending here) here =
      piece ⟨token, pending, here - pending⟩ := by
  cases started <;> simp [lead, leadTo, piece]

theorem leadTo_le (token : Token) (started : Bool) {pending here : Nat} (h : pending ≤ here) :
    leadTo (some token) started pending here ≤ here := by
  cases started <;> simp [leadTo, h]

/-- A rule that claims text has started. -/
theorem Tries.started_eq {openRegions : List Region} {stop here : Nat} {rules : List Rule}
    {started : Bool} {passage : Passage}
    (h : Tries grammar text sight enters openRegions stop here rules started (some passage)) :
    started = true := by
  generalize hfound : some passage = found at h
  induction h with
  | done => cases hfound
  | skip _ _ ih => exact ih hfound
  | reject _ _ _ _ => rfl
  | word _ _ => rfl
  | enter _ _ _ => rfl

theorem unpark_walks (hs : scanner.Current) :
    scanner.Walked scanner.unpark [] scanner.mark none :=
  ⟨⟨scanner.cache, scanner.lastMatch, by simp only [List.append_nil]; rfl⟩, hs.1, hs.2⟩

theorem takeParked_leads (hs : scanner.Current) {region : Region} {waiting : ParkedEnd Region}
    (hid : waiting.region.id = region.id) :
    (takeParked region waiting).Leads scanner fun _ after =>
      scanner.Walked after (piece waiting.delimiter) waiting.stop none := by
  have hunparked := unpark_walks hs
  unfold takeParked
  rw [if_pos hid]
  refine Scan.Leads.bind (Scan.Leads.changed ?_)
  have hreport := report_leads hunparked.current waiting.delimiter.token waiting.delimiter.offset
    waiting.delimiter.length
  unfold report at hreport
  dsimp only
  split
  · rename_i hpos
    rw [if_pos hpos] at hreport
    apply Scan.Leads.bind
    apply hreport.mono
    intro _ reported h
    apply (endMatchAt_leads h.current waiting.stop).mono
    intro _ after hafter
    rw [h.parked_eq] at hafter
    exact (hunparked.trans h).still hafter
  · rename_i hpos
    rw [piece, if_neg hpos]
    exact (endMatchAt_leads hunparked.current waiting.stop).mono fun _ after hafter =>
      hunparked.trans hafter

theorem park_leads (hs : scanner.Current) (hparked : scanner.parked = none)
    (waiting : ParkedEnd Region) :
    (Scanner.park waiting).Leads scanner fun _ after =>
      scanner.Walked after [] scanner.mark (some waiting) := by
  apply Scan.Leads.get
  rw [hparked, if_neg (by decide)]
  exact Scan.Leads.changed ⟨⟨scanner.cache, scanner.lastMatch, by simp only [List.append_nil]; rfl⟩,
    hs.1, hs.2⟩

/-- Where no rule claims anything one character is content, if it can be read. If not, all
content is reported and the scan of the inside is over. -/
theorem contentStep_leads (hs : scanner.Sees text sight) (token : Token) {pending : Nat}
    (hpending : pending ≤ scanner.mark) {next : RuleScan Unit}
    {post : Unit → Scanner Region → Prop}
    (hnext : ∀ after, scanner.mark < scanner.rangeEnd → sight.grants scanner.mark →
      scanner.Walked after [] (scanner.mark + 1) scanner.parked → next.Leads after post)
    (hstop : ∀ after, scanner.rangeEnd ≤ scanner.mark ∨ sight.withholds scanner.mark →
      scanner.Walked after (lead (some token) true pending scanner.mark) scanner.mark
        scanner.parked → post () after) :
    Scan.Leads (do
      match ← Scanner.read with
      | some _ => next
      | none =>
        modify Scanner.stepBack
        let _ ← reportContent (some token) pending (← get).mark) scanner post := by
  apply Scan.Leads.bind
  apply (read_leads hs).mono
  intro char read h
  rcases char with _ | c
  · obtain ⟨hover, hback⟩ := h.2 rfl
    have hsback := hback.sees hs hs.mark_le
    refine Scan.Leads.bind (Scan.Leads.changed (Scan.Leads.get ?_))
    apply Scan.Leads.bind
    apply (reportContent_leads hsback.current (some token) (hback.mark_eq ▸ hpending)).mono
    intro _ after h
    rw [hback.mark_eq, hback.parked_eq] at h
    exact Scan.Leads.pure (hstop after hover (hback.trans h.2))
  · obtain ⟨hlt, hgrants, hstep⟩ := h.1 rfl
    exact hnext read hlt hgrants hstep

/-- The inside of a region or of a block, from a place on where no rule claims anything. -/
theorem unclaimed_leads {region : Region} {outer : List Region} {pending : Nat} {started : Bool}
    {tried : Scanner Region} {again : RuleScan Unit} (hs : scanner.Sees text sight)
    (hpending : pending ≤ scanner.mark)
    (hstays : StaysOpen text sight region outer scanner.rangeEnd scanner.mark)
    (htries : Tries grammar text sight enters (region :: outer) scanner.rangeEnd scanner.mark
      region.rules started none)
    (htried : scanner.Walked tried (lead (some region.contentToken) started pending scanner.mark)
      scanner.mark none)
    (hagain : ∀ read, read.Sees text sight → scanner.Walked read
      (lead (some region.contentToken) started pending scanner.mark) (scanner.mark + 1) none →
      scanner.mark < scanner.rangeEnd →
      again.Leads read fun _ after => ∃ passage,
        Interior grammar text sight enters region outer scanner.rangeEnd (scanner.mark + 1)
          (leadTo (some region.contentToken) started pending scanner.mark) passage ∧
          read.Walked after passage.spans passage.stop passage.parked) :
    Scan.Leads (do
      match ← Scanner.read with
      | some _ => again
      | none =>
        modify Scanner.stepBack
        let _ ← reportContent (some region.contentToken)
          (leadTo (some region.contentToken) started pending scanner.mark) (← get).mark)
      tried fun _ after => ∃ passage,
        Interior grammar text sight enters region outer scanner.rangeEnd scanner.mark pending
          passage ∧ scanner.Walked after passage.spans passage.stop passage.parked := by
  have hleft := leadTo_le region.contentToken started hpending
  refine contentStep_leads (htried.sees hs hs.mark_le) _ (htried.mark_eq ▸ hleft)
    (fun read hlt hgrants hstep => ?_) (fun after hover hreport => ?_)
  · rw [htried.mark_eq, htried.rangeEnd_eq] at hlt
    rw [htried.mark_eq] at hgrants
    rw [htried.mark_eq, htried.parked_eq] at hstep
    have hall := htried.still hstep
    apply (hagain read (hall.sees hs hlt) hall hlt).mono
    intro _ after h
    obtain ⟨passage, hinterior, hrest⟩ := h
    exact ⟨_, .char hstays htries hlt hgrants hinterior, hall.trans hrest⟩
  · rw [htried.mark_eq, htried.rangeEnd_eq] at hover
    rw [htried.mark_eq, htried.parked_eq] at hreport
    have hall := htried.trans hreport
    rw [lead_closes] at hall
    exact ⟨_, .stopped hstays htries hover, hall⟩

theorem scanRegion_leads (hcustoms : grammar.customs = []) (hbegins : grammar.BeginsDefined)
    (hfit : EntersFit enters) (hqueue : EntersQueue enters)
    (hattempt : AttemptLeads grammar text sight enters depth attempt) {region : Region}
    {outer : List Region} (hopen : region.embedded = false) (turns : Nat)
    {pending : Nat} (hs : scanner.Sees text sight) (hparked : scanner.parked = none)
    (hregions : scanner.openRegions = region :: outer)
    (hdepth : scanner.rangeEnd - scanner.mark < depth)
    (hturns : scanner.rangeEnd - scanner.mark < turns) (hpending : pending ≤ scanner.mark) :
    (scanRegion grammar attempt region turns pending).Leads scanner fun _ after =>
      ∃ passage, Interior grammar text sight enters region outer scanner.rangeEnd scanner.mark
        pending passage ∧ scanner.Walked after passage.spans passage.stop passage.parked := by
  induction turns generalizing scanner pending with
  | zero => omega
  | succ turns ih =>
    have hle := hs.mark_le
    have hend := hs.end_le
    have hsmall := hs.shows.small
    unfold scanRegion
    apply Scan.Leads.get
    apply Scan.Leads.bind
    apply (matchAtMark_leads hs _).mono
    intro own middle h
    obtain ⟨hown, hwalked⟩ := h
    rw [hparked] at hwalked
    have hs' := hwalked.sees hs hle
    rcases own with _ | length
    · apply Scan.Leads.bind
      apply (outerEnd_leads hs' (hwalked.openRegions_eq.trans hregions)).mono
      intro found middle' h
      obtain ⟨houter, hwalked'⟩ := h
      rw [hwalked.mark_eq, hwalked.rangeEnd_eq] at houter
      rw [hwalked.mark_eq, hwalked.parked_eq] at hwalked'
      have hto := hwalked.trans hwalked'
      have hs'' := hto.sees hs hle
      rcases found with _ | ⟨found, length⟩
      · have hstays : StaysOpen text sight region outer scanner.rangeEnd scanner.mark :=
          Or.inr ⟨hopen, hown, houter⟩
        apply Scan.Leads.bind
        apply (tryRules_leads hcustoms hbegins hfit hqueue hattempt
          (some region.contentToken) region.rules hs'' hto.parked_eq hto.mark_eq
          (by rw [hto.rangeEnd_eq]; exact hdepth) hpending).mono
        intro result tried h
        obtain ⟨claimed, left⟩ := result
        obtain ⟨started, found, htries, hsome, rfl, hafter⟩ := h
        rw [hto.openRegions_eq, hregions, hto.rangeEnd_eq] at htries
        dsimp only at hsome ⊢
        rcases found with _ | passage
        · -- No rule claims anything, so one character is content, if it can be read.
          replace hafter : scanner.Walked tried _ scanner.mark none := hto.trans hafter
          simp only [List.nil_append] at hafter
          have hleft := leadTo_le region.contentToken started hpending
          rw [hsome, Option.isSome_none, if_neg (by decide)]
          apply unclaimed_leads hs hpending hstays htries hafter
          intro read hsread hall hlt
          apply (ih hsread hall.parked_eq (hall.openRegions_eq.trans hregions)
            (by rw [hall.rangeEnd_eq, hall.mark_eq]; omega)
            (by rw [hall.rangeEnd_eq, hall.mark_eq]; omega)
            (by rw [hall.mark_eq]; omega)).mono
          intro _ after h
          rw [hall.rangeEnd_eq, hall.mark_eq] at h
          exact h
        · replace hafter : scanner.Walked tried _ passage.stop passage.parked := hto.trans hafter
          obtain rfl := htries.started_eq
          obtain ⟨hforward, hfits⟩ := htries.fits hfit
          have hstop := hfits.stop_le
          simp only [List.nil_append] at hafter
          rw [hsome, Option.isSome_some, if_pos rfl]
          apply Scan.Leads.get
          rw [hafter.parked_eq]
          rcases hwaiting : passage.parked with _ | waiting
          · rw [hwaiting] at hafter
            have hsall := hafter.sees hs hfits.stop_le
            apply Scan.Leads.get
            apply (ih hsall hafter.parked_eq (hafter.openRegions_eq.trans hregions)
              (by rw [hafter.rangeEnd_eq, hafter.mark_eq]; omega)
              (by rw [hafter.rangeEnd_eq, hafter.mark_eq]; omega)
              (Nat.le_refl _)).mono
            intro _ after h
            obtain ⟨rest, hinterior, hrest⟩ := h
            rw [hafter.rangeEnd_eq, hafter.mark_eq] at hinterior
            exact ⟨_, .onward hstays htries hwaiting hinterior, hafter.trans hrest⟩
          · by_cases hid : waiting.region.id = region.id
            · apply (takeParked_leads hafter.current hid).mono
              intro _ after h
              exact ⟨_, .taken hopen hstays htries hwaiting hid, hafter.trans h⟩
            · have hleave : takeParked region waiting = pure () := by
                unfold takeParked
                exact if_neg hid
              dsimp only
              rw [hleave]
              exact Scan.Leads.pure ⟨_, .passed hopen hstays htries hwaiting hid, hafter⟩
      · -- The end of a region around it is parked.
        apply Scan.Leads.bind
        apply (reportContent_leads hs''.current (some region.contentToken) hpending).mono
        intro _ reported h
        obtain ⟨-, hreported⟩ := h
        rw [hto.mark_eq, hto.parked_eq] at hreported
        have hall := hto.trans hreported
        have hlength := houter.fits.2
        refine Scan.Leads.bind (Scan.Leads.sum (by omega) ?_)
        apply (park_leads hall.current hall.parked_eq _).mono
        intro _ after hafter
        rw [hall.mark_eq] at hafter
        exact ⟨_, .outerEnd hopen hown houter, hall.still hafter⟩
    · apply Scan.Leads.bind
      apply (reportContent_leads hs'.current (some region.contentToken) hpending).mono
      intro _ reported h
      obtain ⟨-, hreported⟩ := h
      rw [hwalked.mark_eq, hwalked.parked_eq] at hreported
      have hto := hwalked.trans hreported
      apply Scan.Leads.bind
      apply (report_leads hto.current region.endToken scanner.mark length).mono
      intro _ ended h
      rw [hto.mark_eq, hto.parked_eq] at h
      have hall := hto.trans h
      have hlength := hown.length.2
      refine Scan.Leads.bind (Scan.Leads.sum (by omega) ?_)
      apply (endMatchAt_leads hall.current _).mono
      intro _ after hafter
      rw [hall.parked_eq] at hafter
      exact ⟨_, .ownEnd hopen hown, hall.still hafter⟩

/-! ## The inside of a block -/

theorem findBlockEnd_leads {region : Region} {turns : Nat} (hs : scanner.Sees text sight)
    (hturns : scanner.rangeEnd - scanner.mark < turns) :
    (findBlockEnd region turns).Leads scanner fun result after =>
      Seeks text sight region.endPattern scanner.rangeEnd scanner.mark result.1 result.2 ∧
        scanner.Walked after [] result.1 scanner.parked := by
  induction turns generalizing scanner with
  | zero => omega
  | succ turns ih =>
    apply Scan.Leads.get
    apply Scan.Leads.bind
    apply (matchAtMark_leads hs _).mono
    intro own middle h
    obtain ⟨hown, hwalked⟩ := h
    have hs' := hwalked.sees hs hs.mark_le
    rcases own with _ | length
    · apply Scan.Leads.bind
      apply (read_leads hs').mono
      intro char read h
      rw [hwalked.mark_eq, hwalked.rangeEnd_eq, hwalked.parked_eq] at h
      rcases char with _ | c
      · obtain ⟨hover, hback⟩ := h.2 rfl
        have hall := hwalked.still hback
        refine Scan.Leads.bind (Scan.Leads.changed (Scan.Leads.get (Scan.Leads.pure ?_)))
        rw [hall.mark_eq]
        exact ⟨.ended hown hover, hall⟩
      · obtain ⟨hlt, hgrants, hstep⟩ := h.1 rfl
        have hall := hwalked.still hstep
        apply (ih (hall.sees hs hlt) (by rw [hall.rangeEnd_eq, hall.mark_eq]; omega)).mono
        intro result after h
        rw [hall.rangeEnd_eq, hall.mark_eq, hall.parked_eq] at h
        exact ⟨.further hown hlt hgrants h.1, hall.trans h.2⟩
    · exact Scan.Leads.pure ⟨.found hown, hwalked⟩

theorem scanBlock_leads (hcustoms : grammar.customs = []) (hbegins : grammar.BeginsDefined)
    (hfit : EntersFit enters) (hqueue : EntersQueue enters)
    (hattempt : AttemptLeads grammar text sight enters depth attempt) {region : Region}
    {outer : List Region} (hsealed : region.embedded = true) (turns : Nat)
    {pending : Nat} (hs : scanner.Sees text sight) (hparked : scanner.parked = none)
    (hregions : scanner.openRegions = region :: outer)
    (hdepth : scanner.rangeEnd - scanner.mark < depth)
    (hturns : scanner.rangeEnd - scanner.mark < turns) (hpending : pending ≤ scanner.mark) :
    (scanBlock grammar attempt region turns pending).Leads scanner fun _ after =>
      ∃ passage, Interior grammar text sight enters region outer scanner.rangeEnd scanner.mark
        pending passage ∧ scanner.Walked after passage.spans passage.stop passage.parked := by
  induction turns generalizing scanner pending with
  | zero => omega
  | succ turns ih =>
    have hle := hs.mark_le
    have hstays : StaysOpen text sight region outer scanner.rangeEnd scanner.mark := Or.inl hsealed
    unfold scanBlock
    apply Scan.Leads.get
    apply Scan.Leads.bind
    apply (tryRules_leads hcustoms hbegins hfit hqueue hattempt
      (some region.contentToken) region.rules hs hparked rfl hdepth hpending).mono
    intro result tried h
    obtain ⟨claimed, left⟩ := result
    obtain ⟨started, found, htries, hsome, rfl, hafter⟩ := h
    rw [hregions] at htries
    dsimp only at hsome ⊢
    rcases found with _ | passage
    · have hleft := leadTo_le region.contentToken started hpending
      rw [hsome, Option.isSome_none, if_neg (by decide)]
      apply unclaimed_leads hs hpending hstays htries hafter
      intro read hsread hall hlt
      apply (ih hsread hall.parked_eq (hall.openRegions_eq.trans hregions)
        (by rw [hall.rangeEnd_eq, hall.mark_eq]; omega)
        (by rw [hall.rangeEnd_eq, hall.mark_eq]; omega)
        (by rw [hall.mark_eq]; omega)).mono
      intro _ after h
      rw [hall.rangeEnd_eq, hall.mark_eq] at h
      exact h
    · replace hafter : scanner.Walked tried _ passage.stop passage.parked := hafter
      obtain rfl := htries.started_eq
      obtain ⟨hforward, hfits⟩ := htries.fits hfit
      have hstop := hfits.stop_le
      -- Nothing can end inside the block that was not opened there.
      have hwaiting : passage.parked = none := hfits.parked_eq (endable_sealed hsealed)
      rw [hsome, Option.isSome_some, if_pos rfl]
      have hafter' := hafter
      rw [hwaiting] at hafter'
      apply Scan.Leads.get
      apply (ih (hafter'.sees hs hstop) hafter'.parked_eq
        (hafter.openRegions_eq.trans hregions) (by rw [hafter.rangeEnd_eq, hafter.mark_eq]; omega)
        (by rw [hafter.rangeEnd_eq, hafter.mark_eq]; omega) (Nat.le_refl _)).mono
      intro _ after h
      obtain ⟨rest, hinterior, hrest⟩ := h
      rw [hafter.rangeEnd_eq, hafter.mark_eq] at hinterior
      exact ⟨_, .onward hstays htries hwaiting hinterior, hafter.trans hrest⟩

/-! ## Entering -/

/-- A turn for each character that is left in the range, and the last one. -/
def Turns.Enough (turns : Turns) : Prop :=
  ∀ scanner, scanner.rangeEnd - scanner.mark < turns scanner

theorem turnsLeft_enough : Turns.Enough turnsLeft := fun scanner => by
  unfold turnsLeft
  omega

theorem outcome_leads {α : Type} {step : RuleScan α} {post : α → Scanner Region → Prop}
    (h : step.Leads scanner post) :
    (Scan.outcome step).Leads scanner fun result after => ∃ value, result = .ok value ∧
      post value after := by
  obtain ⟨value, after, hstep, hpost⟩ := h
  exact ⟨.ok value, after, by simp only [Scan.outcome, hstep], value, rfl, hpost⟩

/-- A region that is closed leaves the state behind the passage through it. -/
theorem closeRegion_leads {region : Region} {first inside : Scanner Region} {spans : List Span}
    {mark : Nat} {parked : Option (ParkedEnd Region)}
    (h : (first.openRegion region).Walked inside spans mark parked) :
    Scanner.closeRegion.Leads inside fun closed after =>
      closed = region ∧ first.Walked after spans mark parked := by
  have hcurrent := h.current
  obtain ⟨cache, lastMatch, rfl⟩ := h.eq
  exact ⟨region, _, rfl, rfl, ⟨cache, lastMatch, rfl⟩, hcurrent.1, hcurrent.2⟩

section

variable {turns : Turns} {region : Region} {length : Nat}

/-- What follows on the inside of a region: it is closed, and an error is passed on. -/
def closeOpened (region : Region) (scanned : Except ScanError Unit) : RuleScan Token := do
  let popped ← Scanner.closeRegion
  if popped.id ≠ region.id then Scan.fault .wrongRegionClosed
  Scan.rethrow scanned
  return region.beginToken

/-- The scan of a region that is open, up to where it is closed. -/
def scanOpened (grammar : Grammar) (turns : Turns) (attempt : Rule → RuleScan Token)
    (region : Region) (contentStart : Nat) : RuleScan Token := do
  let scanned ← Scan.outcome
    (do scanRegion grammar attempt region (turns (← get)) contentStart)
  closeOpened region scanned

theorem closeOpened_leads {opening inside : Scanner Region} {spans : List Span} {mark : Nat}
    {parked : Option (ParkedEnd Region)}
    (h : (opening.openRegion region).Walked inside spans mark parked) :
    (closeOpened region (.ok ())).Leads inside fun token after =>
      token = region.beginToken ∧ opening.Walked after spans mark parked := by
  apply Scan.Leads.bind
  apply (closeRegion_leads h).mono
  rintro closed after ⟨rfl, hclosed⟩
  dsimp only
  rw [if_neg (fun hne => hne rfl)]
  exact Scan.Leads.bind ⟨(), after, rfl, Scan.Leads.pure ⟨rfl, hclosed⟩⟩

theorem attemptRegion_nothing (hclaim : claimAtMark region.beginPattern scanner = .ok none middle) :
    attemptRegion grammar turns attempt region scanner = .ok .undefined middle := by
  unfold attemptRegion
  rw [Scan.get_bind, Scan.bind_of_ok hclaim]
  rfl

/-- Behind its begin match a region is open, and the match is queued. -/
theorem attemptRegion_opens
    (hclaim : claimAtMark region.beginPattern scanner = .ok (some length) middle)
    (hwalked : scanner.Walked middle [] scanner.mark scanner.parked) (hpos : 0 < length)
    (hsum : scanner.mark + length ≤ maxOffset) :
    ∃ opening, scanner.Walked opening [⟨region.beginToken, scanner.mark, length⟩]
        (scanner.mark + length) scanner.parked ∧
      attemptRegion grammar turns attempt region scanner =
        scanOpened grammar turns attempt region (scanner.mark + length)
          (opening.openRegion region) := by
  obtain ⟨_, reported, hreport, hreported⟩ :=
    report_leads hwalked.current region.beginToken scanner.mark length
  rw [hwalked.mark_eq, hwalked.parked_eq, piece, if_pos hpos] at hreported
  have hbegin := hwalked.trans hreported
  obtain ⟨_, opening, hend, hopening⟩ := endMatchAt_leads hbegin.current (scanner.mark + length)
  rw [hbegin.parked_eq] at hopening
  have hstart : Scan.sum scanner.mark length reported = .ok (scanner.mark + length) reported := by
    rw [Scan.sum, if_pos hsum]
    rfl
  refine ⟨opening, hbegin.still hopening, ?_⟩
  unfold attemptRegion
  rw [Scan.get_bind, Scan.bind_of_ok hclaim]
  dsimp only
  rw [Scan.bind_of_ok hreport, Scan.bind_of_ok hstart, Scan.bind_of_ok hend, Scan.modify_bind]
  rfl

end

variable {turns : Turns}

theorem attemptRegion_leads (hturns : turns.Enough) (hcustoms : grammar.customs = [])
    (hbegins : grammar.BeginsDefined) (hfit : EntersFit enters) (hqueue : EntersQueue enters)
    (hattempt : AttemptLeads grammar text sight enters depth attempt) {region : Region}
    (hopen : region.embedded = false) (hs : scanner.Sees text sight)
    (hparked : scanner.parked = none) (hdepth : scanner.rangeEnd - scanner.mark < depth + 1) :
    (attemptRegion grammar turns attempt region).Leads scanner fun token after =>
      token = .undefined ∧
          sight.Claims text region.beginPattern scanner.mark scanner.rangeEnd none ∧
          scanner.Walked after [] scanner.mark none ∨
        token = region.beginToken ∧ ∃ passage,
          EntersOnce grammar text sight enters region scanner.openRegions scanner.rangeEnd
            scanner.mark passage ∧
          scanner.Walked after passage.spans passage.stop passage.parked := by
  have hend := hs.end_le
  have hsmall := hs.shows.small
  obtain ⟨found, middle, hclaim, hclaims, hwalked⟩ := claimAtMark_leads hs region.beginPattern
  rcases found with _ | length
  · rw [hparked] at hwalked
    exact ⟨_, middle, attemptRegion_nothing hclaim, Or.inl ⟨rfl, hclaims, hwalked⟩⟩
  · obtain ⟨_, hlength, hpos⟩ := hclaims.length
    obtain ⟨first, hfirst, hopens⟩ := attemptRegion_opens hclaim hwalked hpos (by omega)
    rw [hparked] at hfirst
    -- The region is open while its inside is scanned.
    have hsinside := (hfirst.sees hs hlength).openRegion region
    have hmark : (first.openRegion region).mark = scanner.mark + length := hfirst.mark_eq
    have hrange : (first.openRegion region).rangeEnd = scanner.rangeEnd := hfirst.rangeEnd_eq
    have hregions : (first.openRegion region).openRegions = region :: scanner.openRegions := by
      show region :: first.openRegions = _
      rw [hfirst.openRegions_eq]
    refine Scan.Leads.of_eq hopens ?_
    apply Scan.Leads.bind
    apply (outcome_leads (Scan.Leads.get (scanRegion_leads hcustoms hbegins hfit
      hqueue hattempt hopen (turns (first.openRegion region)) hsinside
      hfirst.parked_eq hregions (by omega) (hturns _)
      (show scanner.mark + length ≤ _ by omega)))).mono
    intro result inside h
    obtain ⟨_, rfl, passage, hinterior, hinside⟩ := h
    rw [hmark, hrange] at hinterior
    apply (closeOpened_leads hinside).mono
    rintro token after ⟨rfl, hclosed⟩
    exact Or.inr ⟨rfl, _, .region hopen hclaims hinterior, hfirst.trans hclosed⟩

/-! ## Blocks -/

/-- The state inside another range, from where the range that was active comes back. -/
def Scanner.inRange (scanner : Scanner Region) (rangeEnd : Nat) : Scanner Region :=
  { scanner with frames := scanner.frame :: scanner.frames, rangeEnd }

theorem enterRange_leads (hs : scanner.Current) {start stop : Nat} (hstart : start ≤ stop)
    (hstop : stop ≤ scanner.document.length) :
    (Scanner.enterRange start (stop - start)).Leads scanner fun _ after =>
      (scanner.inRange stop).Walked after [] start scanner.parked := by
  have hrange : Scanner.rangeEndIn scanner.document start (stop - start) = .ok stop := by
    unfold Scanner.rangeEndIn
    rw [Nat.add_sub_cancel' hstart, if_pos hstop]
  apply Scan.Leads.get
  rw [hrange]
  exact ⟨(), _, rfl, moveTo_walks (show (scanner.inRange stop).Current from ⟨hs.1, hs.2⟩) start⟩

/-- The range that was active comes back, with the mark where it was. -/
theorem leaveRange_leads {first inside : Scanner Region} {stop mark : Nat} {spans : List Span}
    {parked : Option (ParkedEnd Region)}
    (h : (first.inRange stop).Walked inside spans mark parked) :
    Scanner.leaveRange.Leads inside fun _ after => first.Walked after spans first.mark parked := by
  have hcurrent := h.current
  obtain ⟨cache, lastMatch, rfl⟩ := h.eq
  let back : Scanner Region :=
    { first with mark, queue := first.queue ++ spans, parked }.withCache cache
  have hback : back.Current := ⟨hcurrent.1, hcurrent.2⟩
  have hmoved : first.Walked (back.moveTo first.mark) spans first.mark parked := by
    have hmid : first.Walked back spans mark parked := ⟨⟨cache, first.lastMatch, rfl⟩, hback⟩
    exact hmid.still (moveTo_walks hback first.mark)
  exact ⟨(), _, rfl, hmoved⟩

section

variable {region : Region} {length : Nat}

/-- What follows on the inside of a block: it is closed and its range is left, and then an error is
passed on, or else the end match is queued. -/
def closeEntered (region : Region) (contentEnd endLength : Nat)
    (scanned : Except ScanError Unit) : RuleScan Token := do
  let _ ← Scanner.closeRegion
  Scanner.leaveRange
  Scan.rethrow scanned
  report region.endToken contentEnd endLength
  modify fun scanner => { scanner with lastMatch := contentEnd + endLength }
  return region.beginToken

/-- The scan of a block that is open in a range of its own, up to where the range is left. -/
def scanEntered (grammar : Grammar) (turns : Turns) (attempt : Rule → RuleScan Token)
    (region : Region) (contentStart contentEnd endLength : Nat) : RuleScan Token := do
  let scanned ← Scan.outcome
    (do scanBlock grammar attempt region (turns (← get)) contentStart)
  closeEntered region contentEnd endLength scanned

theorem closeEntered_leads {back entered inside : Scanner Region} {spans : List Span}
    {stop start contentEnd endLength mark : Nat} {parked other : Option (ParkedEnd Region)}
    (hentered : (back.inRange stop).Walked entered [] start other)
    (h : (entered.openRegion region).Walked inside spans mark parked) :
    (closeEntered region contentEnd endLength (.ok ())).Leads inside fun token after =>
      token = region.beginToken ∧ back.Walked after
        (spans ++ piece ⟨region.endToken, contentEnd, endLength⟩) back.mark parked := by
  apply Scan.Leads.bind
  apply (closeRegion_leads h).mono
  rintro _ closed ⟨-, hclosed⟩
  apply Scan.Leads.bind
  apply (leaveRange_leads (hentered.trans hclosed)).mono
  intro _ left hleft
  refine Scan.Leads.bind ⟨(), left, rfl, Scan.Leads.bind ((report_leads hleft.current
    region.endToken contentEnd endLength).mono fun _ ended hended => ?_)⟩
  rw [hleft.mark_eq, hleft.parked_eq] at hended
  exact Scan.Leads.bind (Scan.Leads.changed (Scan.Leads.pure
    ⟨rfl, (hleft.trans hended).setLastMatch _⟩))

theorem attemptBlock_nothing (hclaim : claimAtMark region.beginPattern scanner = .ok none middle) :
    attemptBlock grammar turns attempt region scanner = .ok .undefined middle := by
  unfold attemptBlock
  rw [Scan.get_bind, Scan.bind_of_ok hclaim]
  rfl

/-- Once its end is found a block is open in a range of its own. The range that comes back starts
behind the block, and the begin match is queued. -/
theorem attemptBlock_enters {sought : Scanner Region} {contentEnd endLength mark : Nat}
    {spans : List Span} {parked : Option (ParkedEnd Region)}
    (hclaim : claimAtMark region.beginPattern scanner = .ok (some length) middle)
    (hpos : 0 < length) (hsum : scanner.mark + length ≤ maxOffset)
    (hseek : findBlockEnd region (turns (middle.moveTo (scanner.mark + length)))
      (middle.moveTo (scanner.mark + length)) = .ok (contentEnd, endLength) sought)
    (hsought : scanner.Walked sought spans mark parked)
    (hforward : scanner.mark + length ≤ contentEnd)
    (hend : contentEnd ≤ scanner.document.length)
    (hresume : contentEnd + endLength ≤ maxOffset) :
    ∃ back entered, scanner.Walked back (spans ++ [⟨region.beginToken, scanner.mark, length⟩])
        (contentEnd + endLength) parked ∧
      (back.inRange contentEnd).Walked entered [] (scanner.mark + length) parked ∧
      attemptBlock grammar turns attempt region scanner =
        scanEntered grammar turns attempt region (scanner.mark + length) contentEnd endLength
          (entered.openRegion region) := by
  obtain ⟨_, reported, hreport, hreported⟩ :=
    report_leads hsought.current region.beginToken scanner.mark length
  rw [hsought.mark_eq, hsought.parked_eq, piece, if_pos hpos] at hreported
  have hbegin := hsought.trans hreported
  have hback := hbegin.still (moveTo_walks hbegin.current (contentEnd + endLength))
  rw [hbegin.parked_eq] at hback
  have hdocument : (reported.moveTo (contentEnd + endLength)).document = scanner.document := by
    obtain ⟨cache, lastMatch, heq⟩ := hback.eq
    rw [heq]
    rfl
  obtain ⟨_, entered, henter, hentered⟩ :=
    enterRange_leads hback.current hforward (hdocument ▸ hend)
  rw [hback.parked_eq] at hentered
  have hstart : Scan.sum scanner.mark length middle = .ok (scanner.mark + length) middle := by
    rw [Scan.sum, if_pos hsum]
    rfl
  have hstop : Scan.sum contentEnd endLength sought = .ok (contentEnd + endLength) sought := by
    rw [Scan.sum, if_pos hresume]
    rfl
  have hinside : Scan.difference contentEnd (scanner.mark + length)
      (reported.moveTo (contentEnd + endLength)) =
        .ok (contentEnd - (scanner.mark + length)) (reported.moveTo (contentEnd + endLength)) := by
    rw [Scan.difference, if_pos hforward]
    rfl
  refine ⟨_, entered, hback, hentered, ?_⟩
  unfold attemptBlock
  rw [Scan.get_bind, Scan.bind_of_ok hclaim]
  dsimp only
  rw [Scan.bind_of_ok hstart, Scan.modify_bind, Scan.get_bind, Scan.bind_of_ok hseek]
  dsimp only
  rw [Scan.bind_of_ok hstop, Scan.bind_of_ok hreport, Scan.modify_bind, Scan.bind_of_ok hinside,
    Scan.bind_of_ok henter, Scan.modify_bind]
  rfl

end

/-- Over a text the end of a block is sought first, and then the block is open. -/
theorem attemptBlock_seeks (hturns : turns.Enough) {region : Region} {length : Nat}
    (hs : scanner.Sees text sight)
    (hclaim : claimAtMark region.beginPattern scanner = .ok (some length) middle)
    (hclaims : sight.Claims text region.beginPattern scanner.mark scanner.rangeEnd (some length))
    (hwalked : scanner.Walked middle [] scanner.mark scanner.parked) :
    ∃ contentEnd endLength back entered,
      Seeks text sight region.endPattern scanner.rangeEnd (scanner.mark + length) contentEnd
        endLength ∧
      scanner.Walked back [⟨region.beginToken, scanner.mark, length⟩] (contentEnd + endLength)
        scanner.parked ∧
      (back.inRange contentEnd).Walked entered [] (scanner.mark + length) scanner.parked ∧
      (entered.openRegion region).Sees text sight ∧
      attemptBlock grammar turns attempt region scanner =
        scanEntered grammar turns attempt region (scanner.mark + length) contentEnd endLength
          (entered.openRegion region) := by
  have hend := hs.end_le
  have hsmall := hs.shows.small
  have hdocument : scanner.document.length = text.length := hs.shows.holds.length_eq
  obtain ⟨_, hlength, hpos⟩ := hclaims.length
  have hmoved := hwalked.still (moveTo_walks hwalked.current (scanner.mark + length))
  rw [hwalked.parked_eq] at hmoved
  obtain ⟨⟨contentEnd, endLength⟩, sought, hseek, hseeks, hsought⟩ :=
    findBlockEnd_leads (hmoved.sees hs hlength) (hturns _)
  rw [hmoved.mark_eq, hmoved.rangeEnd_eq] at hseeks
  rw [hmoved.parked_eq] at hsought
  dsimp only at hseeks hsought
  obtain ⟨hstart, hstop⟩ := hseeks.fits hlength
  obtain ⟨back, entered, hresume, hentered, henters⟩ := attemptBlock_enters hclaim hpos
    (by omega) hseek (hmoved.still hsought) hstart (by omega) (by omega)
  have hsentered := hentered.stands (hresume.sees hs hstop).shows (by show contentEnd ≤ _; omega)
    hstart
  exact ⟨contentEnd, endLength, back, entered, hseeks, hresume, hentered,
    hsentered.openRegion region, henters⟩

theorem attemptBlock_leads (hturns : turns.Enough) (hcustoms : grammar.customs = [])
    (hbegins : grammar.BeginsDefined) (hfit : EntersFit enters) (hqueue : EntersQueue enters)
    (hattempt : AttemptLeads grammar text sight enters depth attempt) {region : Region}
    (hsealed : region.embedded = true) (hs : scanner.Sees text sight)
    (hparked : scanner.parked = none) (hdepth : scanner.rangeEnd - scanner.mark < depth + 1) :
    (attemptBlock grammar turns attempt region).Leads scanner fun token after =>
      token = .undefined ∧
          sight.Claims text region.beginPattern scanner.mark scanner.rangeEnd none ∧
          scanner.Walked after [] scanner.mark none ∨
        token = region.beginToken ∧ ∃ passage,
          EntersOnce grammar text sight enters region scanner.openRegions scanner.rangeEnd
            scanner.mark passage ∧
          scanner.Walked after passage.spans passage.stop passage.parked := by
  have hend := hs.end_le
  obtain ⟨found, middle, hclaim, hclaims, hwalked⟩ := claimAtMark_leads hs region.beginPattern
  rcases found with _ | length
  · rw [hparked] at hwalked
    exact ⟨_, middle, attemptBlock_nothing hclaim, Or.inl ⟨rfl, hclaims, hwalked⟩⟩
  · obtain ⟨_, hlength, hpos⟩ := hclaims.length
    obtain ⟨start, endLength, first, entered, hseeks, hresume, hentered, hsinside, henters⟩ :=
      attemptBlock_seeks hturns hs hclaim hclaims hwalked
    rw [hparked] at hresume hentered
    obtain ⟨hstart, hstop⟩ := hseeks.fits hlength
    have hmark : (entered.openRegion region).mark = scanner.mark + length := hentered.mark_eq
    have hrange : (entered.openRegion region).rangeEnd = start := hentered.rangeEnd_eq
    have hregions : (entered.openRegion region).openRegions = region :: scanner.openRegions := by
      show region :: entered.openRegions = _
      rw [hentered.openRegions_eq]
      show region :: first.openRegions = _
      rw [hresume.openRegions_eq]
    refine Scan.Leads.of_eq henters ?_
    apply Scan.Leads.bind
    apply (outcome_leads (Scan.Leads.get (scanBlock_leads hcustoms hbegins hfit
      hqueue hattempt hsealed (turns (entered.openRegion region)) hsinside
      hentered.parked_eq hregions (by omega) (hturns _)
      (show scanner.mark + length ≤ _ by omega)))).mono
    intro result inside hinside
    obtain ⟨_, rfl, passage, hinterior, hinside⟩ := hinside
    rw [hmark, hrange] at hinterior
    rw [hinterior.parked_of_embedded hsealed] at hinside
    apply (closeEntered_leads hentered hinside).mono
    rintro token after ⟨rfl, hclosed⟩
    rw [hresume.mark_eq] at hclosed
    exact Or.inr ⟨rfl, _, .block hsealed hclaims hseeks hinterior, hresume.trans hclosed⟩

/-! ## Rules at any depth -/

theorem attemptWithin_leads (hturns : turns.Enough) (hcustoms : grammar.customs = [])
    (hbegins : grammar.BeginsDefined) (depth : Nat) :
    AttemptLeads grammar text sight (EntersWithin grammar text sight depth) depth
      (grammar.attemptWithin turns depth) := by
  induction depth with
  | zero => exact fun _ _ _ hdepth => absurd hdepth (Nat.not_lt_zero _)
  | succ depth ih =>
    intro scanner rule hs hparked hdepth
    have hend := hs.end_le
    have hsmall := hs.shows.small
    unfold Grammar.attemptWithin
    rcases rule with ⟨pattern, token⟩ | id | index
    · apply Scan.Leads.bind
      apply (claimAtMark_leads hs _).mono
      intro found middle h
      obtain ⟨hclaims, hwalked⟩ := h
      rw [hparked] at hwalked
      rcases found with _ | length
      · exact Scan.Leads.pure (.nothing hclaims hwalked)
      · obtain ⟨_, hlength, _⟩ := hclaims.length
        apply Scan.Leads.get
        rw [hwalked.mark_eq]
        refine Scan.Leads.bind (Scan.Leads.sum (by omega) (Scan.Leads.bind
          ((endMatchAt_leads hwalked.current _).mono fun _ after h => Scan.Leads.pure ?_)))
        rw [hwalked.parked_eq] at h
        exact .word hclaims (hwalked.trans h)
    · dsimp only
      rcases hregion : grammar.regions[id]? with _ | region
      · refine Scan.Leads.pure (.nothing ?_ (hparked ▸ hs.current.stays))
        simp only [Grammar.Starts, Grammar.opening?, hregion, Option.map_none]
      · have hfit : EntersFit (EntersWithin grammar text sight depth) := EntersWithin.fits depth
        have hqueue : EntersQueue (EntersWithin grammar text sight depth) :=
          EntersWithin.queues depth
        have hentered : ∀ token after,
            (token = .undefined ∧
              sight.Claims text region.beginPattern scanner.mark scanner.rangeEnd none ∧
              scanner.Walked after [] scanner.mark none ∨
            token = region.beginToken ∧ ∃ passage,
              EntersOnce grammar text sight (EntersWithin grammar text sight depth) region
                scanner.openRegions scanner.rangeEnd scanner.mark passage ∧
              scanner.Walked after passage.spans passage.stop passage.parked) →
            Attempted grammar text sight (EntersWithin grammar text sight (depth + 1)) scanner
              (.region id) token after := by
          rintro token after (⟨rfl, hnone, hwalked⟩ | ⟨rfl, passage, henters, hwalked⟩)
          · exact .nothing ((Grammar.starts_region hregion).mpr hnone) hwalked
          · exact .enter hregion henters hwalked
        dsimp only
        rcases hsealed : region.embedded with _ | _
        · rw [if_neg (by decide)]
          exact (attemptRegion_leads hturns hcustoms hbegins hfit hqueue ih hsealed hs hparked
            hdepth).mono hentered
        · rw [if_pos rfl]
          exact (attemptBlock_leads hturns hcustoms hbegins hfit hqueue ih hsealed hs hparked
            hdepth).mono hentered
    · simp only [hcustoms, List.getElem?_nil]
      exact Scan.Leads.pure (.nothing rfl (hparked ▸ hs.current.stays))

theorem attempt_leads (hcustoms : grammar.customs = []) (hbegins : grammar.BeginsDefined)
    (depth : Nat) :
    AttemptLeads grammar text sight (Enters grammar text sight) depth grammar.attempt := by
  intro scanner rule hs hparked _
  apply Scan.Leads.get
  apply (attemptWithin_leads turnsLeft_enough hcustoms hbegins _ rule hs hparked
    (turnsLeft_enough scanner)).mono
  intro token after h
  cases h with
  | nothing hnone hwalked => exact .nothing hnone hwalked
  | word hclaims hwalked => exact .word hclaims hwalked
  | enter hregion henters hwalked => exact .enter hregion ⟨_, henters⟩ hwalked

end RegionScan
