-- Rules that fail. Where a rule of the host fails, the regions and blocks around it are left
-- one by one, each in its own way. By then all that was found before the rule is queued, and
-- tiles the text up to where the rule stood.
import RegionScan.Proofs.Stacks
import RegionScan.Proofs.RuleBounds

namespace RegionScan

/-! ## Steps that come through -/

namespace Scan

variable {ρ α β : Type} {scanner : Scanner ρ} {step : Scan ρ α} {next : α → Scan ρ β}
  {post : β → Scanner ρ → Prop} {bad : ScanError → Scanner ρ → Prop}

/-- The first of two steps comes through. -/
theorem Leads.first
    (h : step.Leads scanner fun value after => (next value).Ensures after post bad) :
    (step >>= next).Ensures scanner post bad := by
  obtain ⟨value, middle, hstep, hnext⟩ := h
  exact Ensures.bind (Yields.of_ok hstep hnext)

theorem Leads.ensures {post : α → Scanner ρ → Prop} (h : step.Leads scanner post) :
    step.Ensures scanner post bad := by
  obtain ⟨value, after, hstep, hpost⟩ := h
  exact Yields.of_ok hstep hpost

end Scan

/-! ## What rules leave behind -/

/-- A rule has been tried: it has queued nothing itself, or it has claimed text and its spans tile
what it has claimed. -/
inductive Scanner.Gave (scanner : Scanner Region) (token : Token) (after : Scanner Region) : Prop
  | bare {mark : Nat} : scanner.Walked after [] mark none → mark ≤ scanner.rangeEnd →
    scanner.Gave token after
  | spans (passage : Passage) : token ≠ .undefined →
    scanner.Walked after passage.spans passage.stop passage.parked →
    passage.Fits scanner.openRegions scanner.rangeEnd → scanner.mark < passage.stop →
    Tiles scanner.mark passage.stop passage.spans → scanner.Gave token after

/-- A rule of the host that fails where it stands: with an error it leaves the scanner as it was,
but for lookups. Otherwise it keeps to what every rule leaves behind. -/
structure CustomRule.FailsInPlace (custom : CustomRule) : Prop where
  mayStart : ∀ scanner : Scanner Region, scanner.Current →
    custom.mayStart.Leads scanner fun _ after =>
      scanner.Walked after [] scanner.mark scanner.parked
  attempt : ∀ scanner : Scanner Region, scanner.Current → scanner.mark ≤ scanner.rangeEnd →
    scanner.parked = none →
      custom.attempt.Ensures scanner (fun token after => scanner.Gave token after) fun _ after =>
        scanner.Walked after [] scanner.mark none

/-- A rule of the host has failed in the state `inner`, inside the regions `opened`, with a range
saved for each block among them. The spans that are queued tile the text from `first` up to where
the rule stood. The mark is there, too, or else where the range that was saved first begins. -/
structure Scanner.Stranded (grammar : Grammar) (first : Nat) (scanner : Scanner Region)
    (error : ScanError) (after inner : Scanner Region) (opened : List Region)
    (saved : List Frame) : Prop where
  failed : ∃ custom ∈ grammar.customs, ∃ final,
    custom.attempt inner = .error (.failed error) final
  openRegions_eq : inner.openRegions = opened ++ scanner.openRegions
  opened_mem : ∀ region ∈ opened, region ∈ grammar.regions
  frames_eq : inner.frames = saved ++ scanner.frames
  saved_length : saved.length = opened.countP Region.embedded
  queue_eq : after.queue = inner.queue
  mark_eq : after.mark = (saved.getLast?.map Frame.offset).getD inner.mark
  mark_le : inner.mark ≤ after.mark
  end_le : after.mark ≤ scanner.rangeEnd
  walked : ∃ spans, scanner.Walked after spans after.mark none ∧ Tiles first inner.mark spans

/-- Some rule of the host has failed. -/
def Scanner.StrandedFrom (grammar : Grammar) (first : Nat) (scanner : Scanner Region)
    (error : ScanError) (after : Scanner Region) : Prop :=
  ∃ inner opened saved, scanner.Stranded grammar first error after inner opened saved

variable {grammar : Grammar} {attempt : Rule → RuleScan Token} {text : Text}
  {scanner middle after inner inside : Scanner Region} {error : ScanError} {region : Region}
  {outer opened : List Region} {saved : List Frame} {spans : List Span}
  {first start here pending : Nat}

/-- What was queued before goes in front. -/
theorem Scanner.Stranded.behind (h : middle.Stranded grammar start error after inner opened saved)
    {mark : Nat} (hwalked : scanner.Walked middle spans mark none)
    (htiles : Tiles first start spans) :
    scanner.Stranded grammar first error after inner opened saved := by
  obtain ⟨more, hmore, hinner⟩ := h.walked
  exact {
    failed := h.failed
    openRegions_eq := by rw [h.openRegions_eq, hwalked.openRegions_eq]
    opened_mem := h.opened_mem
    frames_eq := by rw [h.frames_eq, hwalked.frames_eq]
    saved_length := h.saved_length
    queue_eq := h.queue_eq
    mark_eq := h.mark_eq
    mark_le := h.mark_le
    end_le := hwalked.rangeEnd_eq ▸ h.end_le
    walked := ⟨spans ++ more, hwalked.trans hmore, htiles.append hinner⟩ }

theorem Scanner.StrandedFrom.behind (h : middle.StrandedFrom grammar start error after)
    {mark : Nat} (hwalked : scanner.Walked middle spans mark none)
    (htiles : Tiles first start spans) : scanner.StrandedFrom grammar first error after := by
  obtain ⟨inner, opened, saved, hstranded⟩ := h
  exact ⟨inner, opened, saved, hstranded.behind hwalked htiles⟩

/-! ## Trying rules -/

/-- All rules of the host fail where they stand. -/
def Grammar.FailsInPlace (grammar : Grammar) : Prop :=
  ∀ custom ∈ grammar.customs, custom.FailsInPlace

/-- Rules leave behind what they may, also where they fail. -/
def AttemptStrands (grammar : Grammar) (text : Text) (attempt : Rule → RuleScan Token) : Prop :=
  ∀ {scanner : Scanner Region} (rule : Rule), scanner.Sees text .whole → scanner.parked = none →
    (attempt rule).Ensures scanner (fun token after => scanner.Gave token after)
      (scanner.StrandedFrom grammar scanner.mark)

/-- Whether a rule starts changes nothing. -/
theorem mayStart_still (hcustoms : grammar.FailsInPlace)
    (hs : scanner.Sees text .whole) (rule : Rule) :
    (grammar.mayStart rule).Leads scanner fun _ after =>
      scanner.Walked after [] scanner.mark scanner.parked := by
  have hclaim : ∀ pattern, (do return (← claimAtMark pattern).isSome : RuleScan Bool).Leads scanner
      fun _ after => scanner.Walked after [] scanner.mark scanner.parked := fun pattern =>
    Scan.Leads.bind ((claimAtMark_leads hs pattern).mono fun _ _ h => Scan.Leads.pure h.2)
  unfold Grammar.mayStart
  rcases rule with ⟨pattern, token⟩ | id | index
  · exact hclaim pattern
  · dsimp only
    rcases grammar.regions[id]? with _ | region
    · exact Scan.Leads.pure hs.current.stays
    · exact hclaim region.beginPattern
  · dsimp only
    rcases hcustom : grammar.customs[index]? with _ | custom
    · exact Scan.Leads.pure hs.current.stays
    · exact (hcustoms custom (List.mem_of_getElem? hcustom)).mayStart scanner hs.current

/-- Rules have been tried in order at an offset, with content pending before it: none of them has
claimed text, or the spans of one and those of the content tile what was passed. -/
inductive Scanner.Tried (scanner : Scanner Region) (pending here : Nat) :
    Option Token × Nat → Scanner Region → Prop
  | unclaimed {left : Nat} {spans : List Span} {after : Scanner Region} :
    scanner.Walked after spans here none → Tiles pending left spans → left ≤ here →
      scanner.Tried pending here (none, left) after
  | claimed {token : Token} {left : Nat} {after : Scanner Region} (passage : Passage) :
    scanner.Walked after passage.spans passage.stop passage.parked →
    passage.Fits scanner.openRegions scanner.rangeEnd → here < passage.stop →
    Tiles pending passage.stop passage.spans → scanner.Tried pending here (some token, left) after

theorem Scanner.Tried.behind {result : Option Token × Nat} {mark : Nat}
    (h : middle.Tried start here result after) (hwalked : scanner.Walked middle spans mark none)
    (htiles : Tiles pending start spans) : scanner.Tried pending here result after := by
  cases h with
  | unclaimed hmore hleft hle =>
    exact .unclaimed (hwalked.trans hmore) (htiles.append hleft) hle
  | claimed passage hmore hfits hforward htile =>
    rw [hwalked.openRegions_eq, hwalked.rangeEnd_eq] at hfits
    exact .claimed (passage.behind spans) (hwalked.trans hmore)
      ⟨hfits.stop_le, hfits.parked⟩ hforward (htiles.append htile)

/-- Content that is reported tiles what was pending. -/
theorem reportContent_tiles (hs : scanner.Current) {content : Option Token}
    (hpending : pending ≤ here) (hcontent : content = none → pending = here) :
    (reportContent content pending here).Leads scanner fun left after => left = here ∧
      ∃ spans, scanner.Walked after spans scanner.mark scanner.parked ∧
        Tiles pending here spans := by
  apply (reportContent_leads hs content hpending).mono
  rintro left after ⟨rfl, hwalked⟩
  rcases content with _ | token
  · obtain rfl := hcontent rfl
    exact ⟨rfl, _, hwalked, rfl⟩
  · exact ⟨rfl, _, hwalked, tiles_content hpending⟩

/-- A rule that is rejected has queued nothing itself. -/
theorem Scanner.Gave.rejected {token : Token} (h : scanner.Gave token after)
    (hreject : (token.isUndefined || decide (after.mark ≤ scanner.mark)) = true) :
    ∃ mark, scanner.Walked after [] mark none := by
  cases h with
  | bare hafter _ => exact ⟨_, hafter⟩
  | spans passage htoken hafter _ hforward _ =>
    rw [hafter.mark_eq] at hreject
    rcases Bool.or_eq_true_iff.mp hreject with hundefined | hback
    · cases token <;> first | exact absurd rfl htoken | cases hundefined
    · exact absurd hforward (Nat.not_lt_of_le (of_decide_eq_true hback))

/-- What a rule claims is tiled, once it is queued as one span where the rule has queued nothing
itself. -/
theorem Scanner.Gave.claimed {token : Token} (h : scanner.Gave token after)
    (hkeep : ¬ (token.isUndefined || decide (after.mark ≤ scanner.mark)) = true)
    (result : Option Token × Nat) :
    Scan.Leads (do
      if after.queue.length = scanner.queue.length then
        report token scanner.mark (← Scan.difference after.mark scanner.mark)
      return result : RuleScan (Option Token × Nat)) after fun found final => found = result ∧
        ∃ passage : Passage, scanner.Walked final passage.spans passage.stop passage.parked ∧
          passage.Fits scanner.openRegions scanner.rangeEnd ∧ scanner.mark < passage.stop ∧
          Tiles scanner.mark passage.stop passage.spans := by
  have hforward : scanner.mark < after.mark := by
    simp only [Bool.or_eq_true, decide_eq_true_eq, not_or, Nat.not_le] at hkeep
    exact hkeep.2
  cases h with
  | @bare mark hafter hrange =>
    have hsame : after.queue.length = scanner.queue.length := by
      rw [hafter.queue_eq, List.append_nil]
    rw [if_pos hsame]
    refine Scan.Leads.bind (Scan.Leads.difference (Nat.le_of_lt hforward) ?_)
    apply Scan.Leads.bind
    apply (report_leads hafter.current token scanner.mark (after.mark - scanner.mark)).mono
    intro _ final hfinal
    rw [hafter.parked_eq, hafter.mark_eq] at hfinal
    rw [hafter.mark_eq] at hforward
    exact Scan.Leads.pure ⟨rfl, ⟨_, mark, none⟩, hafter.trans hfinal, ⟨hrange, by simp⟩, hforward,
      tiles_content (Nat.le_of_lt hforward)⟩
  | spans passage _ hafter hfits hpasses htiles =>
    have hmore : ¬ after.queue.length = scanner.queue.length := by
      have := List.length_pos_iff.mpr (htiles.ne_nil hpasses)
      rw [hafter.queue_eq, List.length_append]
      omega
    rw [if_neg hmore]
    exact Scan.Leads.pure ⟨rfl, passage, hafter, hfits, hpasses, htiles⟩

theorem tryRules_strands (hcustoms : grammar.FailsInPlace)
    (hattempt : AttemptStrands grammar text attempt) (content : Option Token) (rules : List Rule)
    (hs : scanner.Sees text .whole) (hparked : scanner.parked = none) (hmark : scanner.mark = here)
    (hpending : pending ≤ here) (hcontent : content = none → pending = here) :
    (tryRules grammar.mayStart attempt content here rules pending).Ensures scanner
      (scanner.Tried pending here) (scanner.StrandedFrom grammar pending) := by
  induction rules generalizing scanner pending with
  | nil =>
    have hstays := hs.current.stays
    rw [hmark, hparked] at hstays
    exact Scan.Ensures.pure (.unclaimed hstays rfl hpending)
  | cons rule rest ih =>
    have hle : here ≤ scanner.rangeEnd := hmark ▸ hs.mark_le
    -- Behind steps that lead back to the same offset the other rules are tried.
    have hgoOn : ∀ {back : Scanner Region} {left : Nat} {spans : List Span},
        scanner.Walked back spans here none → Tiles pending left spans → left ≤ here →
        (content = none → left = here) →
        (tryRules grammar.mayStart attempt content here rest left).Ensures back
          (scanner.Tried pending here) (scanner.StrandedFrom grammar pending) := by
      intro back left spans hback htiles hleft hnone
      exact (ih (hback.sees hs hle) hback.parked_eq hback.mark_eq hleft hnone).mono
        (fun _ _ h => h.behind hback htiles) fun _ _ h => h.behind hback htiles
    unfold tryRules
    apply Scan.Leads.first
    apply (mayStart_still hcustoms hs rule).mono
    intro starts middle hwalked
    rw [hmark, hparked] at hwalked
    have hs' := hwalked.sees hs hle
    rcases starts with _ | _
    · exact hgoOn hwalked rfl hpending hcontent
    · apply Scan.Leads.first
      apply (reportContent_tiles hs'.current hpending hcontent).mono
      rintro left flushed ⟨rfl, spans, hflushed, htiles⟩
      rw [hwalked.mark_eq, hwalked.parked_eq] at hflushed
      have hto := hwalked.trans hflushed
      rw [List.nil_append] at hto
      have hs'' := hto.sees hs hle
      apply Scan.Ensures.get
      apply Scan.Ensures.bind
      apply (hattempt rule hs'' hto.parked_eq).mono
      · intro token after hgave
        apply Scan.Ensures.get
        rw [← hto.mark_eq] at htiles
        by_cases hreject : (token.isUndefined || decide (after.mark ≤ flushed.mark)) = true
        · -- The rule comes to nothing, and the mark goes back.
          obtain ⟨mark, hafter⟩ := hgave.rejected hreject
          have hall := hto.still hafter
          have hback := hall.still (moveTo_walks hall.current left)
          rw [hall.parked_eq] at hback
          rw [hto.mark_eq] at hreject htiles
          rw [if_pos hreject]
          exact Scan.Leads.first (Scan.Leads.changed
            (hgoOn hback htiles (Nat.le_refl _) fun _ => rfl))
        · have hclaims := hgave.claimed hreject (some token, left)
          rw [hto.mark_eq] at hreject hclaims htiles
          rw [if_neg hreject]
          apply (hclaims.mono _).ensures
          rintro _ final ⟨rfl, passage, hfinal, hfits, hforward, hpassed⟩
          rw [hto.openRegions_eq, hto.rangeEnd_eq] at hfits
          exact .claimed (passage.behind spans) (hto.trans hfinal)
            ⟨hfits.stop_le, hfits.parked⟩ hforward (htiles.append hpassed)
      · intro error after hstranded
        rw [hto.mark_eq] at hstranded
        exact hstranded.behind hto htiles

/-! ## The inside of a region -/

/-- One character of content, or all content at the end of the range. -/
theorem contentTurn_tiles (hs : scanner.Sees text .whole) (token : Token)
    (hpending : pending ≤ scanner.mark) :
    (contentTurn token pending).Leads scanner fun next after =>
      next = some pending ∧ scanner.mark < scanner.rangeEnd ∧
          scanner.Walked after [] (scanner.mark + 1) scanner.parked ∨
        next = none ∧ scanner.mark = scanner.rangeEnd ∧
          scanner.Walked after (piece ⟨token, pending, scanner.mark - pending⟩) scanner.mark
            scanner.parked := by
  have hle := hs.mark_le
  apply Scan.Leads.bind
  apply (read_leads hs).mono
  intro char read h
  rcases char with _ | c
  · obtain ⟨hover, hback⟩ := h.2 rfl
    have hsback := hback.sees hs hle
    refine Scan.Leads.bind (Scan.Leads.changed (Scan.Leads.get ?_))
    apply Scan.Leads.bind
    apply (reportContent_leads hsback.current (some token) (hback.mark_eq ▸ hpending)).mono
    intro _ after h
    rw [hback.mark_eq, hback.parked_eq] at h
    have hend : scanner.rangeEnd ≤ scanner.mark := hover.resolve_right id
    exact Scan.Leads.pure (Or.inr ⟨rfl, Nat.le_antisymm hle hend, hback.trans h.2⟩)
  · obtain ⟨hlt, -, hstep⟩ := h.1 rfl
    exact Scan.Leads.pure (Or.inl ⟨rfl, hlt, hstep⟩)

/-- A turn inside a region or a block, with content pending before it: the scan goes on at another
place, or it is over, and what was passed is tiled, up to the content that is pending then. -/
inductive Scanner.Turned (scanner : Scanner Region) (outer : List Region) (pending : Nat) :
    Option Nat → Scanner Region → Prop
  | onward {left mark : Nat} {spans : List Span} {after : Scanner Region} :
    scanner.Walked after spans mark none → Tiles pending left spans → left ≤ mark →
    mark ≤ scanner.rangeEnd → scanner.Turned outer pending (some left) after
  | last {after : Scanner Region} (passage : Passage) :
    scanner.Walked after passage.spans passage.stop passage.parked →
    passage.Fits outer scanner.rangeEnd → Tiles pending passage.stop passage.spans →
      scanner.Turned outer pending none after

/-- Where no rule has claimed text one character is content. -/
theorem unclaimed_turned {tried : Scanner Region} {left : Nat} (hs : scanner.Sees text .whole)
    (htried : scanner.Walked tried spans scanner.mark none) (htiles : Tiles pending left spans)
    (hleft : left ≤ scanner.mark) (token : Token) :
    (contentTurn token left).Leads tried fun next after => scanner.Turned outer pending next after ∧
      (next = none → after.mark = scanner.rangeEnd) := by
  have hmark := htried.mark_eq
  have hrange := htried.rangeEnd_eq
  apply (contentTurn_tiles (htried.sees hs hs.mark_le) token (hmark ▸ hleft)).mono
  rw [hmark, hrange, htried.parked_eq]
  rintro next after (⟨rfl, hlt, hstep⟩ | ⟨rfl, hend, hreport⟩)
  · exact ⟨.onward (htried.still hstep) htiles (Nat.le_succ_of_le hleft) hlt, by simp⟩
  · exact ⟨.last ⟨_, scanner.mark, none⟩ (htried.trans hreport)
      ⟨hs.mark_le, by simp⟩ (htiles.append (tiles_content hleft)),
      fun _ => hreport.mark_eq.trans hend⟩

theorem regionTurn_strands (hcustoms : grammar.FailsInPlace)
    (hattempt : AttemptStrands grammar text attempt) (hopen : region.embedded = false)
    (hs : scanner.Sees text .whole) (hparked : scanner.parked = none)
    (hregions : scanner.openRegions = region :: outer) (hpending : pending ≤ scanner.mark) :
    (regionTurn grammar attempt region pending).Ensures scanner (scanner.Turned outer pending)
      (scanner.StrandedFrom grammar pending) := by
  have hle := hs.mark_le
  have hend := hs.end_le
  have hsmall := hs.shows.small
  apply Scan.Ensures.get
  apply Scan.Leads.first
  apply (matchAtMark_leads hs region.endPattern).mono
  rintro own middle ⟨hown, hwalked⟩
  rw [hparked] at hwalked
  have hs' := hwalked.sees hs hle
  rcases own with _ | length
  · apply Scan.Leads.first
    apply (outerEnd_leads hs' (hwalked.openRegions_eq.trans hregions)).mono
    rintro found middle' ⟨houter, hwalked'⟩
    rw [hwalked.mark_eq, hwalked.rangeEnd_eq] at houter
    rw [hwalked.mark_eq, hwalked.parked_eq] at hwalked'
    have hto := hwalked.trans hwalked'
    rw [List.nil_append] at hto
    have hs'' := hto.sees hs hle
    rcases found with _ | ⟨found, length⟩
    · apply Scan.Ensures.bind
      apply (tryRules_strands hcustoms hattempt (some region.contentToken) region.rules
        hs'' hto.parked_eq hto.mark_eq hpending nofun).mono
      · intro result tried htried
        replace htried := htried.behind hto rfl
        cases htried with
        | unclaimed htried htiles hleft =>
          exact ((unclaimed_turned hs htried htiles hleft _).mono fun _ _ h => h.1).ensures
        | claimed passage hafter hfits hforward htiles =>
          dsimp only
          rw [Option.isSome_some, if_pos rfl]
          apply Scan.Ensures.get
          rw [hafter.parked_eq]
          rcases hwaiting : passage.parked with _ | waiting
          · rw [hwaiting] at hafter
            refine Scan.Ensures.get (Scan.Ensures.pure ?_)
            rw [hafter.mark_eq]
            exact .onward hafter htiles (Nat.le_refl _) hfits.stop_le
          · rw [hregions] at hfits
            have hfit := hfits.parked waiting hwaiting
            apply Scan.Leads.first
            by_cases hid : waiting.region.id = region.id
            · apply (takeParked_leads hafter.current hid).mono
              intro _ taken htaken
              refine Scan.Ensures.pure (.last ⟨_, waiting.stop, none⟩
                (hafter.trans htaken) ⟨hfit.stop_le, by simp⟩ (htiles.append ?_))
              rw [hfit.delimiter_eq, ← hfit.start_eq]
              exact tiles_content hfit.start_le
            · -- The end that waits is that of a region further out.
              have hleave : takeParked region waiting = pure () := by
                unfold takeParked
                exact if_neg hid
              rw [hleave]
              refine Scan.Leads.pure
                (Scan.Ensures.pure (.last passage hafter ⟨hfits.stop_le, ?_⟩ htiles))
              intro other hother
              obtain rfl := Option.some.inj (hwaiting.symm.trans hother)
              exact hfit.further hopen hid
      · intro error after hstranded
        exact hstranded.behind hto rfl
    · -- The end of a region around it is parked.
      obtain ⟨hmem, hlength⟩ := houter.fits
      apply Scan.Leads.first
      apply (reportContent_leads hs''.current (some region.contentToken) hpending).mono
      rintro _ reported ⟨-, hreported⟩
      rw [hto.mark_eq, hto.parked_eq] at hreported
      have hall := hto.trans hreported
      refine Scan.Leads.first (Scan.Leads.sum (by omega) ?_)
      apply Scan.Leads.first
      apply (park_leads hall.current hall.parked_eq _).mono
      intro _ after hafter
      rw [hall.mark_eq] at hafter
      refine Scan.Ensures.pure (.last ⟨_, scanner.mark, some _⟩ (hall.still hafter)
        ⟨hle, ?_⟩ (tiles_content hpending))
      intro waiting hwaiting
      cases hwaiting
      exact ⟨rfl, Nat.le_add_right _ _, hlength, hmem, by simp⟩
  · -- The region itself ends here.
    have hlength := hown.length.2
    apply Scan.Leads.first
    apply (reportContent_leads hs'.current (some region.contentToken) hpending).mono
    rintro _ reported ⟨-, hreported⟩
    rw [hwalked.mark_eq, hwalked.parked_eq] at hreported
    have hto := hwalked.trans hreported
    apply Scan.Leads.first
    apply (report_leads hto.current region.endToken scanner.mark length).mono
    intro _ ended hended
    rw [hto.mark_eq, hto.parked_eq] at hended
    have hall := hto.trans hended
    refine Scan.Leads.first (Scan.Leads.sum (by omega) ?_)
    apply Scan.Leads.first
    apply (endMatchAt_leads hall.current _).mono
    intro _ after hafter
    rw [hall.parked_eq] at hafter
    exact Scan.Ensures.pure (.last ⟨_, scanner.mark + length, none⟩
      (hall.still hafter) ⟨hlength, by simp⟩ ((tiles_content hpending).append (tiles_piece _ _ _)))

theorem scanRegion_strands (hcustoms : grammar.FailsInPlace)
    (hattempt : AttemptStrands grammar text attempt) (hopen : region.embedded = false)
    (turns : Nat) (hs : scanner.Sees text .whole) (hparked : scanner.parked = none)
    (hregions : scanner.openRegions = region :: outer) (hpending : pending ≤ scanner.mark) :
    (scanRegion grammar attempt region turns pending).Ensures scanner
      (fun _ after => ∃ passage : Passage,
        scanner.Walked after passage.spans passage.stop passage.parked ∧
        passage.Fits outer scanner.rangeEnd ∧ Tiles pending passage.stop passage.spans)
      (scanner.StrandedFrom grammar pending) := by
  induction turns generalizing scanner pending with
  | zero => exact Scan.Yields.of_fault rfl
  | succ turns ih =>
    rw [scanRegion_succ]
    apply Scan.Ensures.bind
    apply (regionTurn_strands hcustoms hattempt hopen hs hparked hregions hpending).mono
    · intro next after hturned
      cases hturned with
      | last passage hafter hfits htiles => exact Scan.Ensures.pure ⟨_, hafter, hfits, htiles⟩
      | onward hafter htiles hleft hrange =>
        apply (ih (hafter.sees hs hrange) hafter.parked_eq (hafter.openRegions_eq.trans hregions)
          (hafter.mark_eq ▸ hleft)).mono
        · rintro _ final ⟨passage, hmore, hfits, hrest⟩
          rw [hafter.rangeEnd_eq] at hfits
          exact ⟨passage.behind _, hafter.trans hmore, ⟨hfits.stop_le, hfits.parked⟩,
            htiles.append hrest⟩
        · exact fun _ _ hstranded => hstranded.behind hafter htiles
    · exact fun _ _ hstranded => hstranded

/-! ## The inside of a block -/

/-- A block that goes on has nothing parked, and it ends with its range. -/
theorem blockTurn_strands (hcustoms : grammar.FailsInPlace)
    (hattempt : AttemptStrands grammar text attempt) (hsealed : region.embedded = true)
    (hs : scanner.Sees text .whole) (hparked : scanner.parked = none)
    (hregions : scanner.openRegions = region :: outer) (hpending : pending ≤ scanner.mark) :
    (blockTurn grammar attempt region pending).Ensures scanner
      (fun next after => scanner.Turned [] pending next after ∧
        (next = none → after.mark = scanner.rangeEnd))
      (scanner.StrandedFrom grammar pending) := by
  apply Scan.Ensures.get
  apply Scan.Ensures.bind
  apply (tryRules_strands hcustoms hattempt (some region.contentToken) region.rules hs
    hparked rfl hpending nofun).mono
  · intro result tried htried
    cases htried with
    | unclaimed htried htiles hleft => exact (unclaimed_turned hs htried htiles hleft _).ensures
    | claimed passage hafter hfits hforward htiles =>
      dsimp only
      rw [Option.isSome_some, if_pos rfl]
      rw [hregions] at hfits
      rw [hfits.parked_eq (endable_sealed hsealed)] at hafter
      refine Scan.Ensures.get (Scan.Ensures.pure ⟨?_, by simp⟩)
      rw [hafter.mark_eq]
      exact .onward hafter htiles (Nat.le_refl _) hfits.stop_le
  · exact fun _ _ hstranded => hstranded

theorem scanBlock_strands (hcustoms : grammar.FailsInPlace)
    (hattempt : AttemptStrands grammar text attempt) (hsealed : region.embedded = true)
    (turns : Nat) (hs : scanner.Sees text .whole) (hparked : scanner.parked = none)
    (hregions : scanner.openRegions = region :: outer) (hpending : pending ≤ scanner.mark) :
    (scanBlock grammar attempt region turns pending).Ensures scanner
      (fun _ after => ∃ spans, scanner.Walked after spans scanner.rangeEnd none ∧
        Tiles pending scanner.rangeEnd spans)
      (scanner.StrandedFrom grammar pending) := by
  induction turns generalizing scanner pending with
  | zero => exact Scan.Yields.of_fault rfl
  | succ turns ih =>
    rw [scanBlock_succ]
    apply Scan.Ensures.bind
    apply (blockTurn_strands hcustoms hattempt hsealed hs hparked hregions hpending).mono
    · rintro next after ⟨hturned, hlast⟩
      cases hturned with
      | last passage hafter hfits htiles =>
        have hstop : passage.stop = scanner.rangeEnd := hafter.mark_eq.symm.trans (hlast rfl)
        rw [hstop, hfits.parked_eq rfl] at hafter
        rw [hstop] at htiles
        exact Scan.Ensures.pure ⟨_, hafter, htiles⟩
      | onward hafter htiles hleft hrange =>
        apply (ih (hafter.sees hs hrange) hafter.parked_eq (hafter.openRegions_eq.trans hregions)
          (hafter.mark_eq ▸ hleft)).mono
        · rintro _ final ⟨spans, hmore, hrest⟩
          rw [hafter.rangeEnd_eq] at hmore hrest
          exact ⟨_, hafter.trans hmore, htiles.append hrest⟩
        · exact fun _ _ hstranded => hstranded.behind hafter htiles
    · exact fun _ _ hstranded => hstranded

/-! ## Leaving what was entered -/

/-- A region is closed behind a failure inside it. -/
theorem Scanner.Stranded.closed (hregion : region ∈ grammar.regions)
    (hopen : region.embedded = false)
    (h : (scanner.openRegion region).Stranded grammar first error inside inner opened saved) :
    Scanner.closeRegion.Leads inside fun closed after => closed = region ∧
      scanner.Stranded grammar first error after inner (opened ++ [region]) saved := by
  obtain ⟨spans, hwalked, htiles⟩ := h.walked
  apply (closeRegion_leads hwalked).mono
  rintro closed after ⟨rfl, hclosed⟩
  exact ⟨rfl, {
    failed := h.failed
    openRegions_eq := by rw [h.openRegions_eq, List.append_assoc]; rfl
    opened_mem :=
      List.forall_mem_append.mpr ⟨h.opened_mem, List.forall_mem_singleton.mpr hregion⟩
    frames_eq := h.frames_eq
    saved_length := by rw [h.saved_length]; simp [hopen]
    queue_eq := by rw [hclosed.queue_eq, ← h.queue_eq, hwalked.queue_eq]; rfl
    mark_eq := by rw [hclosed.mark_eq, h.mark_eq]
    mark_le := hclosed.mark_eq.symm ▸ h.mark_le
    end_le := hclosed.mark_eq.symm ▸ h.end_le
    walked := ⟨spans, by rw [hclosed.mark_eq]; exact hclosed, htiles⟩ }⟩

/-- A block is left behind a failure inside it, and the mark goes to where the range that comes
back begins. -/
theorem Scanner.Stranded.left {entered : Scanner Region} {stop : Nat}
    (hregion : region ∈ grammar.regions) (hsealed : region.embedded = true)
    (hentered : (scanner.inRange stop).Walked entered [] start none)
    (hstop : stop ≤ scanner.mark) (hend : scanner.mark ≤ scanner.rangeEnd)
    (h : (entered.openRegion region).Stranded grammar first error inside inner opened saved) :
    Scanner.closeRegion.Leads inside fun _ closed => Scanner.leaveRange.Leads closed fun _ after =>
      scanner.Stranded grammar first error after inner (opened ++ [region])
        (saved ++ [scanner.frame]) := by
  obtain ⟨spans, hwalked, htiles⟩ := h.walked
  apply (closeRegion_leads hwalked).mono
  rintro _ closed ⟨-, hclosed⟩
  apply (leaveRange_leads (hentered.trans hclosed)).mono
  intro _ after hafter
  have hrange : inside.mark ≤ entered.rangeEnd := h.end_le
  rw [show entered.rangeEnd = stop from hentered.rangeEnd_eq] at hrange
  exact {
    failed := h.failed
    openRegions_eq := by
      rw [h.openRegions_eq, List.append_assoc]
      show opened ++ region :: entered.openRegions = _
      rw [hentered.openRegions_eq]
      rfl
    opened_mem :=
      List.forall_mem_append.mpr ⟨h.opened_mem, List.forall_mem_singleton.mpr hregion⟩
    frames_eq := by
      rw [h.frames_eq, List.append_assoc]
      show saved ++ entered.frames = _
      rw [hentered.frames_eq]
      rfl
    saved_length := by rw [List.length_append, h.saved_length]; simp [hsealed]
    queue_eq := by
      rw [hafter.queue_eq, ← h.queue_eq, hwalked.queue_eq]
      show scanner.queue ++ spans = entered.queue ++ spans
      rw [hentered.queue_eq, List.append_nil]
      rfl
    mark_eq := by
      rw [hafter.mark_eq, List.getLast?_concat]
      rfl
    mark_le := by
      rw [hafter.mark_eq]
      exact Nat.le_trans h.mark_le (Nat.le_trans hrange hstop)
    end_le := hafter.mark_eq.symm ▸ hend
    walked := ⟨spans, by rw [hafter.mark_eq]; exact hafter, htiles⟩ }

theorem attemptRegion_strands (hcustoms : grammar.FailsInPlace)
    (hattempt : AttemptStrands grammar text attempt) (hregion : region ∈ grammar.regions)
    (hbegin : region.beginToken ≠ .undefined) (hopen : region.embedded = false)
    (hs : scanner.Sees text .whole) (hparked : scanner.parked = none) :
    (attemptRegion grammar turnsLeft attempt region).Ensures scanner
      (fun token after => scanner.Gave token after)
      (scanner.StrandedFrom grammar scanner.mark) := by
  have hend := hs.end_le
  have hsmall := hs.shows.small
  obtain ⟨found, middle, hclaim, hclaims, hwalked⟩ := claimAtMark_leads hs region.beginPattern
  rcases found with _ | length
  · rw [hparked] at hwalked
    exact Scan.Leads.ensures ⟨_, middle, attemptRegion_nothing hclaim, .bare hwalked hs.mark_le⟩
  · obtain ⟨-, hlength, hpos⟩ := hclaims.length
    obtain ⟨opening, hopening, hopens⟩ := attemptRegion_opens hclaim hwalked hpos (by omega)
    rw [hparked] at hopening
    have hlead : Tiles scanner.mark (scanner.mark + length)
        [⟨region.beginToken, scanner.mark, length⟩] := Tiles.single hpos
    have hsinside := (hopening.sees hs hlength).openRegion region
    have hmark : (opening.openRegion region).mark = scanner.mark + length := hopening.mark_eq
    have hrange : (opening.openRegion region).rangeEnd = scanner.rangeEnd := hopening.rangeEnd_eq
    refine Scan.Ensures.of_eq hopens ?_
    apply Scan.Ensures.bind
    apply (Scan.Ensures.outcome (Scan.Ensures.get (scanRegion_strands hcustoms hattempt hopen _
      hsinside hopening.parked_eq rfl (Nat.le_of_eq hmark.symm))) fun _ _ => False).mono
    · intro scanned inside hinside
      cases scanned with
      | ok =>
        obtain ⟨passage, hinside, hfits, htiles⟩ := hinside
        apply ((closeOpened_leads hinside).mono _).ensures
        rintro _ after ⟨rfl, hclosed⟩
        rw [hrange, hopening.openRegions_eq] at hfits
        have hle := htiles.le
        exact .spans (passage.behind _) hbegin (hopening.trans hclosed)
          ⟨hfits.stop_le, hfits.parked⟩ (show _ < passage.stop by omega) (hlead.append htiles)
      | error error =>
        obtain ⟨inner, opened, saved, hstranded⟩ := hinside
        apply Scan.Leads.first
        apply (hstranded.closed hregion hopen).mono
        rintro closed after ⟨rfl, hclosed⟩
        dsimp only
        rw [if_neg (fun hne => hne rfl)]
        exact ⟨inner, _, saved, hclosed.behind hopening hlead⟩
    · exact fun _ _ hnone => hnone.elim

theorem attemptBlock_strands (hcustoms : grammar.FailsInPlace)
    (hattempt : AttemptStrands grammar text attempt) (hregion : region ∈ grammar.regions)
    (hbegin : region.beginToken ≠ .undefined) (hsealed : region.embedded = true)
    (hs : scanner.Sees text .whole) (hparked : scanner.parked = none) :
    (attemptBlock grammar turnsLeft attempt region).Ensures scanner
      (fun token after => scanner.Gave token after)
      (scanner.StrandedFrom grammar scanner.mark) := by
  obtain ⟨found, middle, hclaim, hclaims, hwalked⟩ := claimAtMark_leads hs region.beginPattern
  rcases found with _ | length
  · rw [hparked] at hwalked
    exact Scan.Leads.ensures ⟨_, middle, attemptBlock_nothing hclaim, .bare hwalked hs.mark_le⟩
  · obtain ⟨-, hlength, hpos⟩ := hclaims.length
    obtain ⟨contentEnd, endLength, back, entered, hseeks, hresume, hentered, hsinside, henters⟩ :=
      attemptBlock_seeks turnsLeft_enough hs hclaim hclaims hwalked
    rw [hparked] at hresume hentered
    obtain ⟨hstart, hstop⟩ := hseeks.fits hlength
    have hlead : Tiles scanner.mark (scanner.mark + length)
        [⟨region.beginToken, scanner.mark, length⟩] := Tiles.single hpos
    have hmark : (entered.openRegion region).mark = scanner.mark + length := hentered.mark_eq
    have hrange : (entered.openRegion region).rangeEnd = contentEnd := hentered.rangeEnd_eq
    refine Scan.Ensures.of_eq henters ?_
    apply Scan.Ensures.bind
    apply (Scan.Ensures.outcome (Scan.Ensures.get (scanBlock_strands hcustoms hattempt hsealed _
      hsinside hentered.parked_eq rfl (Nat.le_of_eq hmark.symm))) fun _ _ => False).mono
    · intro scanned inside hinside
      cases scanned with
      | ok =>
        obtain ⟨spans, hinside, htiles⟩ := hinside
        rw [hrange] at htiles
        apply ((closeEntered_leads hentered hinside).mono _).ensures
        rintro _ after ⟨rfl, hclosed⟩
        rw [hresume.mark_eq] at hclosed
        exact .spans ⟨_, contentEnd + endLength, none⟩ hbegin (hresume.trans hclosed)
          ⟨hstop, by simp⟩ (show _ < contentEnd + endLength by omega)
          (hlead.append (htiles.append (tiles_piece _ _ _)))
      | error error =>
        obtain ⟨inner, opened, saved, hstranded⟩ := hinside
        have hresumed := hresume.mark_eq
        have hwhole := hresume.rangeEnd_eq
        apply Scan.Leads.first
        apply (hstranded.left hregion hsealed hentered (by omega) (by omega)).mono
        intro _ closed hclosed
        apply Scan.Leads.first
        apply hclosed.mono
        intro _ after hafter
        exact ⟨inner, _, _, hafter.behind hresume hlead⟩
    · exact fun _ _ hnone => hnone.elim

/-! ## Rules at any depth -/

theorem attemptWithin_strands (hcustoms : grammar.FailsInPlace)
    (hbegins : grammar.BeginsDefined) (depth : Nat) :
    AttemptStrands grammar text (grammar.attemptWithin turnsLeft depth) := by
  induction depth with
  | zero => exact fun _ _ _ => Scan.Yields.of_fault rfl
  | succ depth ih =>
    intro scanner rule hs hparked
    have hend := hs.end_le
    have hsmall := hs.shows.small
    have hstays := hs.current.stays
    rw [hparked] at hstays
    unfold Grammar.attemptWithin
    rcases rule with ⟨pattern, token⟩ | id | index
    · apply Scan.Leads.first
      apply (claimAtMark_leads hs pattern).mono
      rintro found middle ⟨hclaims, hwalked⟩
      rw [hparked] at hwalked
      rcases found with _ | length
      · exact Scan.Ensures.pure (.bare hwalked hs.mark_le)
      · obtain ⟨-, hlength, -⟩ := hclaims.length
        apply Scan.Ensures.get
        rw [hwalked.mark_eq]
        refine Scan.Leads.first (Scan.Leads.sum (by omega) (Scan.Leads.first
          ((endMatchAt_leads hwalked.current _).mono fun _ after h => Scan.Ensures.pure ?_)))
        rw [hwalked.parked_eq] at h
        exact .bare (hwalked.trans h) hlength
    · dsimp only
      rcases hregion : grammar.regions[id]? with _ | region
      · exact Scan.Ensures.pure (.bare hstays hs.mark_le)
      · have hmem := List.mem_of_getElem? hregion
        dsimp only
        rcases hsealed : region.embedded with _ | _
        · rw [if_neg (by decide)]
          exact attemptRegion_strands hcustoms ih hmem (hbegins region hmem) hsealed hs hparked
        · rw [if_pos rfl]
          exact attemptBlock_strands hcustoms ih hmem (hbegins region hmem) hsealed hs hparked
    · dsimp only
      rcases hcustom : grammar.customs[index]? with _ | custom
      · exact Scan.Ensures.pure (.bare hstays hs.mark_le)
      · -- The rule fails here, with no region and no block around it.
        have hmem := List.mem_of_getElem? hcustom
        apply ((hcustoms custom hmem).attempt scanner hs.current hs.mark_le
          hparked).failing.mono fun _ _ h => h
        rintro error after ⟨hwalked, hfails⟩
        exact ⟨scanner, [], [], {
          failed := ⟨custom, hmem, after, hfails⟩
          openRegions_eq := rfl
          opened_mem := fun _ hmem => by cases hmem
          frames_eq := rfl
          saved_length := rfl
          queue_eq := hwalked.queue_eq.trans (List.append_nil _)
          mark_eq := hwalked.mark_eq
          mark_le := Nat.le_of_eq hwalked.mark_eq.symm
          end_le := hwalked.mark_eq.symm ▸ hs.mark_le
          walked := ⟨[], by rw [hwalked.mark_eq]; exact hwalked, rfl⟩ }⟩

theorem attempt_strands (hcustoms : grammar.FailsInPlace)
    (hbegins : grammar.BeginsDefined) : AttemptStrands grammar text grammar.attempt :=
  fun rule hs hparked =>
    Scan.Ensures.get (attemptWithin_strands hcustoms hbegins _ rule hs hparked)

end RegionScan
