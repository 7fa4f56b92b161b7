-- A scan by the rules of a grammar meets no fault. Where every region is entered with a
-- token, a scan of a text, or of what is left of one, goes on from token to token, and
-- is refused only a character that its document withholds.
import RegionScan.Proofs.TokenBounds
import RegionScan.Proofs.Holes

namespace RegionScan

/-! ## Places -/

/-- The place that is kept is exact. -/
def Scanner.KeepsExact {ρ : Type} (scanner : Scanner ρ) : Prop :=
  ∀ place, scanner.place = some place → place.Exact

namespace Scanner.KeepsExact

variable {ρ : Type} {scanner : Scanner ρ}

/-- So is every place from which a lookup goes on. -/
theorem placeNear (h : scanner.KeepsExact) (offset : Nat) :
    (scanner.placeNear offset).2.KeepsExact ∧
      ∀ place, (scanner.placeNear offset).1 = .ok place → place.Exact := by
  unfold Scanner.placeNear
  split
  · rename_i place hplace
    refine ⟨h, fun other hother => ?_⟩
    cases hother
    exact h place (Option.filter_eq_some_iff.mp hplace).1
  · obtain ⟨tally, hline⟩ := scanner.lineHolding_spec offset
    rw [hline]
    rcases scanner.document.lineHolding? offset with reason | line
    · exact ⟨h, fun _ hother => by cases hother⟩
    · refine ⟨fun place hplace => ?_, fun place hplace => ?_⟩ <;> cases hplace <;>
        exact LinePlace.exact_atStart line

/-- So is every place that is looked up, and it is kept instead. -/
theorem placeAt (h : scanner.KeepsExact) (offset : Nat) :
    (scanner.placeAt offset).2.KeepsExact ∧
      ∀ place, (scanner.placeAt offset).1 = .ok place → place.Exact := by
  obtain ⟨hafter, hexact⟩ := h.placeNear offset
  unfold Scanner.placeAt
  rcases hnear : scanner.placeNear offset with ⟨reason | place, after⟩ <;>
    rw [hnear] at hafter hexact
  · exact ⟨hafter, fun _ hother => by cases hother⟩
  · dsimp only
    rcases hat : place.at? offset with _ | found
    · exact ⟨hafter, fun _ hother => by cases hother⟩
    · have hfound := (hexact place rfl).at? hat
      refine ⟨fun other hother => ?_, fun other hother => ?_⟩ <;> cases hother <;> exact hfound

theorem refill (h : scanner.KeepsExact) (offset : Nat) : (scanner.refill offset).KeepsExact := by
  unfold Scanner.refill Scanner.slice
  split
  · exact h
  · rcases scanner.document.slice offset _ with _ | part <;> exact h

theorem assign {after : Scanner ρ} {document : Document} {offset length : Nat}
    (h : scanner.assign document offset length = .ok () after) : after.KeepsExact := by
  obtain ⟨-, rfl⟩ := Scanner.assign_eq_ok_iff.mp h
  have hnone : ({ scanner with document, place := none } : Scanner ρ).KeepsExact :=
    fun _ hplace => by cases hplace
  exact hnone.refill offset

/-- Every operation keeps it so. -/
theorem kept (Admits : Document → Prop) :
    KeptByCalls Admits (KeepsExact : Scanner ρ → Prop) := Grounded.kept {
  congr := fun h hsame place hplace => h place (hsame.place ▸ hplace)
  refill := fun offset h => h.refill offset
  placeAt := fun offset h => (h.placeAt offset).1
  enter := fun h _ => h
  leave := fun h _ => h
  assign := fun _ _ hassign => assign hassign }

end Scanner.KeepsExact

/-! ## Runs -/

variable {grammar : Grammar} {text : Text} {offset length : Nat} {settings : Settings}
  {first document : Document} {doc : VersionedText} {scanner : Scanner Region}

theorem behind_exact (hcustoms : grammar.customs = []) (hs : scanner.KeepsExact) (count : Nat) :
    (grammar.behind count scanner).KeepsExact := by
  induction count generalizing scanner with
  | zero => exact hs
  | succ count ih =>
    apply ih
    refine (Scanner.KeepsExact.kept fun _ => True).nextToken ?_ scanner hs
    intro custom hmem
    rw [hcustoms] at hmem
    cases hmem

/-- A fresh scanner that is given a range keeps to it. -/
theorem fresh_bounded (hover : document.Over text) (hsmall : text.length < maxOffset)
    (hassign : (Scanner.fresh first settings).assign document offset length = .ok () scanner) :
    scanner.Within text scanner.rangeEnd ∧ scanner.Calm ∧ scanner.openRegions = [] ∧
      scanner.document = document ∧ scanner.window.capacity = settings.capacity := by
  obtain ⟨hrange, rfl⟩ := Scanner.assign_eq_ok_iff.mp hassign
  obtain ⟨cache, hfresh, hcurrent⟩ :=
    Scanner.fresh_withRange Region document first settings offset length
  rw [hfresh]
  refine ⟨⟨⟨hcurrent.1, hcurrent.2⟩, hover, hsmall, ?_, Nat.le_add_right _ _, Nat.le_refl _,
    fun _ h => by cases h⟩, ⟨Nat.le_add_right _ _, rfl⟩, rfl, rfl, rfl⟩
  rw [← hover.length_eq]
  exact hrange

/-! ## The law -/

/-- In a run over any range of a text, or of a document that refuses some of its lookups, each
token comes through, or the character at the mark is in the range and withheld. Behind each, no
end is parked and no region is open, and all along every place in a line is exact. -/
theorem a_scan_is_refused_only_what_is_withheld (hdocument : document.Thins doc.toDocument)
    (hsmall : doc.text.length < maxOffset) (hcustoms : grammar.customs = [])
    (hbegins : grammar.BeginsDefined)
    (hassign : (Scanner.fresh first settings).assign document offset length = .ok () scanner)
    (count : Nat) :
    let state := grammar.behind count scanner
    ((∃ token after, grammar.nextToken state = .ok token after) ∨
      (∃ after, grammar.nextToken state = .error (.failed (.unreadable state.mark)) after) ∧
        state.mark < state.rangeEnd ∧ document.Withholds settings.capacity state.mark) ∧
    (grammar.nextToken.after state).parked = none ∧
    (grammar.nextToken.after state).openRegions = [] ∧
    ∀ inner, Follows (fun _ => True) state inner →
      ∀ offset place, (inner.placeAt offset).1 = .ok place →
        place.Exact ∧ place.byte ≤ place.line.bytes.length := by
  intro state
  obtain ⟨hs, hcalm, hopen, hscans, hcapacity⟩ := fresh_bounded hdocument.over_text hsmall hassign
  have hexact := behind_exact hcustoms (Scanner.KeepsExact.assign hassign) count
  have hstate := behind_bounded hcustoms hbegins hs hcalm count
  have hnext := nextToken_bounded hcustoms (Or.inr hbegins) hstate.within hstate.calm
  have hbehind := hstate.trans hnext.handed
  refine ⟨?_, (hbehind.calm.resolve_left id).parked_eq, hbehind.openRegions_eq.trans hopen, ?_⟩
  · rcases hnext with ⟨token, after, hok, _⟩ | ⟨after, herror, _, hlt, hwithheld⟩ | ⟨hclash, _⟩
    · exact Or.inl ⟨token, after, hok⟩
    · rw [hstate.document_eq, hstate.capacity_eq, hscans, hcapacity] at hwithheld
      exact Or.inr ⟨⟨after, herror⟩, hlt, hwithheld⟩
    · exact hclash.elim
  · intro inner hinner offset place hplace
    have hkept := hinner.keeps (Scanner.KeepsExact.kept fun _ => True) hexact
    have hplaced := (hkept.placeAt offset).2 place hplace
    exact ⟨hplaced, hplaced.byte_le⟩

/-- Brackets over two lines, of which the second one is lost: those of the first line are closed,
and then the scan is refused the character behind it. -/
theorem a_scan_is_refused_a_lost_line :
    ∃ (doc : PatchyDocument) (scanner : Scanner Region), doc.Unreadable 7 ∧
      (Scanner.fresh doc.toDocument ⟨3, by decide⟩).assign doc.toDocument 0 8 = .ok () scanner ∧
      (Grammar.brackets.trace 9 scanner).2 = some (.failed (.unreadable 6)) ∧
      ∀ count, (Grammar.brackets.nextToken.after (Grammar.brackets.behind count scanner)).parked =
        none := by
  let doc := PatchyDocument.holed ['(', 'a', '[', 'b', ')', '\n', '(', 'c'] [(7, 8)]
  have hassign : (Scanner.fresh doc.toDocument ⟨3, by decide⟩ : Scanner Region).assign
      doc.toDocument 0 8 = .ok () _ := rfl
  refine ⟨doc, _, ⟨(7, 8), by decide, by decide⟩, hassign, by decide +kernel, fun count => ?_⟩
  exact (a_scan_is_refused_only_what_is_withheld (doc.toDocument_thins rfl) (by decide) rfl
    Grammar.brackets_begin hassign count).2.1

end RegionScan
