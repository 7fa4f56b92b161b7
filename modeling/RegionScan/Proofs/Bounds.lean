-- Bounds that a scan keeps to, whatever its document refuses and whatever tokens its
-- rules have. Marks and parked ends stay within a limit in the text, and a step comes
-- through unless it parks an end while another one is waiting. That can only happen
-- where a region is entered with the undefined token.
import RegionScan.Proofs.RuleWalks

namespace RegionScan

/-! ## Steps that end -/

/-- A step comes through, with a value and a state of which `post` holds, or it stops because an
end is parked twice, if there can be such a clash. -/
def Scan.Ends {ρ α : Type} (clash : Prop) (step : Scan ρ α) (scanner : Scanner ρ)
    (post : α → Scanner ρ → Prop) : Prop :=
  step.Leads scanner post ∨
    clash ∧ ∃ after, step scanner = .error (.faulted .endAlreadyParked) after

namespace Scan

variable {ρ α β : Type} {clash : Prop} {scanner : Scanner ρ} {step : Scan ρ α}
  {next : α → Scan ρ β} {post : β → Scanner ρ → Prop}

/-- The first of two steps has stopped short. -/
theorem bind_of_error {halt : Halt} {after : Scanner ρ} (h : step scanner = .error halt after) :
    (step >>= next) scanner = .error halt after := by
  simp only [Bind.bind, EStateM.bind, h]

theorem Ends.bind (h : step.Ends clash scanner fun value after =>
    (next value).Ends clash after post) : (step >>= next).Ends clash scanner post := by
  rcases h with ⟨value, middle, hstep, hnext⟩ | ⟨hclash, after, hstep⟩
  · rcases hnext with ⟨final, after, hnext, hpost⟩ | ⟨hclash, after, hnext⟩
    · exact Or.inl ⟨final, after, (bind_of_ok hstep).trans hnext, hpost⟩
    · exact Or.inr ⟨hclash, after, (bind_of_ok hstep).trans hnext⟩
  · exact Or.inr ⟨hclash, after, bind_of_error hstep⟩

theorem Ends.mono {post post' : α → Scanner ρ → Prop} (h : step.Ends clash scanner post)
    (himp : ∀ value after, post value after → post' value after) :
    step.Ends clash scanner post' :=
  h.imp_left fun hleads => hleads.mono himp

theorem Ends.of_eq {other : Scan ρ α} {middle : Scanner ρ} {post : α → Scanner ρ → Prop}
    (heq : step scanner = other middle) (h : other.Ends clash middle post) :
    step.Ends clash scanner post := by
  rcases h with hleads | ⟨hclash, after, hstop⟩
  · exact Or.inl (.of_eq heq hleads)
  · exact Or.inr ⟨hclash, after, heq.trans hstop⟩

/-- The first of two steps comes through. -/
theorem Leads.then (h : step.Leads scanner fun value after => (next value).Ends clash after post) :
    (step >>= next).Ends clash scanner post := .bind (Or.inl h)

theorem Ends.pure {value : β} (h : post value scanner) :
    (Pure.pure value : Scan ρ β).Ends clash scanner post := Or.inl (.pure h)

theorem Ends.get {next : Scanner ρ → Scan ρ β} (h : (next scanner).Ends clash scanner post) :
    (MonadState.get >>= next).Ends clash scanner post :=
  Leads.then ⟨scanner, scanner, rfl, h⟩

/-- Errors become values, and a fault remains one. -/
theorem Ends.outcome {post : α → Scanner ρ → Prop} (h : step.Ends clash scanner post) :
    (Scan.outcome step).Ends clash scanner fun result after => ∃ value, result = .ok value ∧
      post value after := by
  rcases h with ⟨value, after, hstep, hpost⟩ | ⟨hclash, after, hstep⟩
  · exact Or.inl ⟨.ok value, after, by simp only [Scan.outcome, hstep], value, rfl, hpost⟩
  · exact Or.inr ⟨hclash, after, by simp only [Scan.outcome, hstep]⟩

end Scan

/-! ## Scanners within a limit -/

/-- The scanner is over a text, and neither its mark nor its range nor the end that is parked
goes past a limit in it. -/
structure Scanner.Within (scanner : Scanner Region) (text : Text) (limit : Nat) : Prop where
  current : scanner.Current
  holds : scanner.document.Over text
  small : text.length < maxOffset
  limit_le : limit ≤ text.length
  mark_le : scanner.mark ≤ limit
  end_le : scanner.rangeEnd ≤ limit
  parked_le : ∀ waiting, scanner.parked = some waiting → waiting.stop ≤ limit

/-- The mark is in the range, and no end is parked. -/
structure Scanner.Calm (scanner : Scanner Region) : Prop where
  mark_le : scanner.mark ≤ scanner.rangeEnd
  parked_eq : scanner.parked = none

/-- The mark is in the range, and an end that is parked is that of an open region, at the mark. -/
structure Scanner.Settled (scanner : Scanner Region) (openRegions : List Region) : Prop where
  mark_le : scanner.mark ≤ scanner.rangeEnd
  parked : ∀ waiting, scanner.parked = some waiting →
    waiting.Fits openRegions scanner.mark scanner.rangeEnd

/-- Between the two states spans were queued, the mark and the parked end were changed within
the limit, and all else is as it was, but for lookups and for the last match. -/
structure Scanner.Moved (scanner after : Scanner Region) (text : Text) (limit : Nat) : Prop where
  walked : ∃ spans, scanner.Walked after spans after.mark after.parked
  within : after.Within text limit

variable {clash : Prop} {text : Text} {limit : Nat} {scanner middle after : Scanner Region}
  {spans : List Span} {mark : Nat} {parked : Option (ParkedEnd Region)}

theorem Scanner.Calm.settled (h : scanner.Calm) (openRegions : List Region) :
    scanner.Settled openRegions :=
  ⟨h.mark_le, fun _ hparked => by rw [h.parked_eq] at hparked; cases hparked⟩

namespace Scanner.Walked

theorem document_eq (h : scanner.Walked after spans mark parked) :
    after.document = scanner.document := by
  obtain ⟨cache, lastMatch, rfl⟩ := h.eq
  rfl

theorem capacity_eq (h : scanner.Walked after spans mark parked) :
    after.window.capacity = scanner.window.capacity := by
  obtain ⟨cache, lastMatch, rfl⟩ := h.eq
  rfl

theorem within (h : scanner.Walked after spans mark parked) (hs : scanner.Within text limit)
    (hmark : mark ≤ limit) (hparked : ∀ waiting, parked = some waiting → waiting.stop ≤ limit) :
    after.Within text limit where
  current := h.current
  holds := h.document_eq ▸ hs.holds
  small := hs.small
  limit_le := hs.limit_le
  mark_le := h.mark_eq ▸ hmark
  end_le := h.rangeEnd_eq ▸ hs.end_le
  parked_le := h.parked_eq ▸ hparked

/-- Where the parked end stays, only the mark matters. -/
theorem keeps (h : scanner.Walked after spans mark scanner.parked)
    (hs : scanner.Within text limit) (hmark : mark ≤ limit) : after.Within text limit :=
  h.within hs hmark hs.parked_le

theorem calm (h : scanner.Walked after spans mark none) (hmark : mark ≤ scanner.rangeEnd) :
    after.Calm :=
  ⟨by rw [h.mark_eq, h.rangeEnd_eq]; exact hmark, h.parked_eq⟩

theorem moved (h : scanner.Walked after spans mark parked) (hw : after.Within text limit) :
    scanner.Moved after text limit :=
  ⟨⟨spans, by rw [h.mark_eq, h.parked_eq]; exact h⟩, hw⟩

end Scanner.Walked

namespace Scanner.Moved

theorem rangeEnd_eq (h : scanner.Moved after text limit) : after.rangeEnd = scanner.rangeEnd := by
  obtain ⟨spans, hwalked⟩ := h.walked
  exact hwalked.rangeEnd_eq

theorem openRegions_eq (h : scanner.Moved after text limit) :
    after.openRegions = scanner.openRegions := by
  obtain ⟨spans, hwalked⟩ := h.walked
  exact hwalked.openRegions_eq

theorem document_eq (h : scanner.Moved after text limit) : after.document = scanner.document := by
  obtain ⟨spans, hwalked⟩ := h.walked
  exact hwalked.document_eq

theorem capacity_eq (h : scanner.Moved after text limit) :
    after.window.capacity = scanner.window.capacity := by
  obtain ⟨spans, hwalked⟩ := h.walked
  exact hwalked.capacity_eq

theorem trans (h : scanner.Moved middle text limit) (hmore : middle.Moved after text limit) :
    scanner.Moved after text limit := by
  obtain ⟨spans, hwalked⟩ := h.walked
  obtain ⟨more, hwalked'⟩ := hmore.walked
  exact ⟨⟨spans ++ more, hwalked.trans hwalked'⟩, hmore.within⟩

end Scanner.Moved

/-! ## Matching and reading -/

theorem matchAtMark_bounded (hs : scanner.Within text limit) (pattern : Pattern) :
    (matchAtMark pattern).Leads scanner fun found after =>
      (∀ length, found = some length → scanner.mark + length ≤ scanner.rangeEnd) ∧
        scanner.Walked after [] scanner.mark scanner.parked := by
  have hmark := hs.mark_le
  have hlimit := hs.limit_le
  have hsmall := hs.small
  have heq := matchAtMark_eq pattern scanner
  by_cases hrange : scanner.rangeEnd < scanner.mark
  · rw [if_pos hrange] at heq
    exact ⟨none, scanner, heq, by simp, hs.current.stays⟩
  · rw [if_neg hrange] at heq
    obtain ⟨found, cache, hplace, hcurrent, _, hat⟩ :=
      Scanner.placeAt_spec hs.current hs.holds scanner.mark (by omega)
    have hwalked : scanner.Walked (scanner.withCache cache) [] scanner.mark scanner.parked :=
      ⟨⟨cache, scanner.lastMatch, by simp only [List.append_nil]⟩, hcurrent⟩
    rw [hplace] at heq
    rcases found with reason | place
    · exact ⟨none, _, heq, by simp, hwalked⟩
    · obtain ⟨hline, hcolumn, _⟩ := hat place rfl
      have hlength : pattern.matchLength? place.line.chars place.column =
          pattern.lengthIn? text scanner.mark := by
        rw [hline, hcolumn]
        rfl
      dsimp only at heq
      rw [hlength] at heq
      rcases hfound : pattern.lengthIn? text scanner.mark with _ | length
      · rw [hfound] at heq
        exact ⟨none, _, heq, by simp, hwalked⟩
      · rw [hfound] at heq
        dsimp only at heq
        have hle := Pattern.lengthIn?_le_length hfound (by omega)
        rw [if_pos (by omega)] at heq
        refine ⟨_, _, heq, ?_, hwalked⟩
        intro other hother
        split at hother
        · cases hother
          assumption
        · cases hother

theorem claimAtMark_bounded (hs : scanner.Within text limit) (pattern : Pattern) :
    (claimAtMark pattern).Leads scanner fun found after =>
      (∀ length, found = some length →
        0 < length ∧ scanner.mark + length ≤ scanner.rangeEnd) ∧
        scanner.Walked after [] scanner.mark scanner.parked := by
  apply Scan.Leads.bind
  apply (matchAtMark_bounded hs pattern).mono
  intro found after h
  refine Scan.Leads.pure ⟨?_, h.2⟩
  intro length hlength
  obtain ⟨hfound, hpos⟩ := Option.filter_eq_some_iff.mp hlength
  exact ⟨of_decide_eq_true hpos, h.1 length hfound⟩

theorem firstEnd_bounded (hs : scanner.Within text limit) (regions : List Region) :
    (firstEnd regions).Leads scanner fun found after =>
      (∀ region length, found = some (region, length) →
        region ∈ endable regions ∧ scanner.mark + length ≤ scanner.rangeEnd) ∧
        scanner.Walked after [] scanner.mark scanner.parked := by
  induction regions generalizing scanner with
  | nil => exact Scan.Leads.pure ⟨by simp, hs.current.stays⟩
  | cons region outer ih =>
    unfold firstEnd
    split
    · exact Scan.Leads.pure ⟨by simp, hs.current.stays⟩
    · rename_i hopen
      simp only [Bool.not_eq_true] at hopen
      rw [endable_open hopen]
      apply Scan.Leads.bind
      apply (matchAtMark_bounded hs region.endPattern).mono
      intro own middle h
      obtain ⟨hown, hwalked⟩ := h
      rcases own with _ | length
      · apply (ih (hwalked.keeps hs hs.mark_le)).mono
        intro found final h
        rw [hwalked.mark_eq, hwalked.rangeEnd_eq, hwalked.parked_eq] at h
        refine ⟨fun outer length hfound => ?_, hwalked.still h.2⟩
        obtain ⟨hmem, hle⟩ := h.1 outer length hfound
        exact ⟨List.mem_cons_of_mem _ hmem, hle⟩
      · refine Scan.Leads.pure ⟨fun other found hfound => ?_, hwalked⟩
        cases hfound
        exact ⟨List.mem_cons_self, hown length rfl⟩

/-- A read that is taken back where there is no character leaves the mark in its place. -/
theorem read_bounded (hs : scanner.Within text limit) :
    Scanner.read.Leads scanner fun char after =>
      (char.isSome = true → scanner.mark < scanner.rangeEnd ∧
        scanner.Walked after [] (scanner.mark + 1) scanner.parked) ∧
      (char = none → (scanner.rangeEnd ≤ scanner.mark ∨
          scanner.document.Withholds scanner.window.capacity scanner.mark) ∧
        scanner.Walked after.stepBack [] scanner.mark scanner.parked) := by
  have hmark := hs.mark_le
  have hlimit := hs.limit_le
  have hend := hs.end_le
  have hsmall := hs.small
  obtain ⟨char, cache, hread, hcurrent, hbehind, hinside⟩ :=
    Scanner.read_spec hs.current hs.holds (by omega)
  have hwalked : scanner.Walked ({ scanner with mark := scanner.mark + 1 }.withCache cache) []
      (scanner.mark + 1) scanner.parked :=
    ⟨⟨cache, scanner.lastMatch, by simp only [List.append_nil]⟩, hcurrent⟩
  refine ⟨char, _, hread, fun hsome => ⟨?_, hwalked⟩, fun hnone => ⟨?_, ?_⟩⟩
  · by_cases hlt : scanner.mark < scanner.rangeEnd
    · exact hlt
    · rw [(hbehind (Nat.le_of_not_lt hlt)).1] at hsome
      cases hsome
  · by_cases hlt : scanner.mark < scanner.rangeEnd
    · rcases hinside hlt with ⟨hfound, _⟩ | ⟨_, hwithheld⟩
      · rw [hnone, eq_comm, List.getElem?_eq_none_iff] at hfound
        omega
      · exact Or.inr hwithheld
    · exact Or.inl (Nat.le_of_not_lt hlt)
  · obtain ⟨cache', hback, hcurrent'⟩ := Scanner.stepBack_spec hcurrent
    rw [hback]
    exact ⟨⟨cache', scanner.lastMatch, by simp only [List.append_nil]; rfl⟩, hcurrent'⟩

/-! ## Parking and taking back -/

/-- An end is parked, unless another one is waiting. -/
theorem park_bounded (hs : scanner.Current) (hclash : clash ∨ scanner.parked = none)
    (waiting : ParkedEnd Region) :
    (Scanner.park waiting).Ends clash scanner fun _ after =>
      scanner.Walked after [] scanner.mark (some waiting) := by
  rcases hparked : scanner.parked with _ | other
  · exact Or.inl (park_leads hs hparked waiting)
  · refine Or.inr ⟨hclash.resolve_right (by simp [hparked]), scanner, ?_⟩
    unfold Scanner.park
    rw [Scan.get_bind, hparked]
    rfl

end RegionScan
