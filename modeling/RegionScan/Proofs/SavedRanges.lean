-- Ranges that are saved while another one is scanned. A range is checked against
-- the document when it is set or entered, but not when it comes back, and ranges
-- stay saved when the document is switched. The laws say when the active range
-- still lies in the document that is scanned.
import RegionScan.Proofs.Switches
import RegionScan.Proofs.WindowLaws

namespace RegionScan

/-! ## From one accepted range to the next -/

/-- A scan begins on a document, with the ranges that are saved at the time: the scanner is fresh,
or a range of the document has just been accepted. -/
inductive Scanner.BeginsOn (document : Document) : List Frame → Scanner Region → Prop
  | fresh (settings : Settings) : BeginsOn document [] (Scanner.fresh document settings)
  | set {call : Call Region} {before after : Scanner Region} {offset : Nat} :
    call.sets? = some (document, offset) → call.step before = .ok () after →
      BeginsOn document before.frames after

/-- The states that a session goes through until the next range is accepted. -/
inductive UntilNextRange (first : Scanner Region) : Scanner Region → Prop
  | same : UntilNextRange first first
  | call {scanner : Scanner Region} (call : Call Region) : UntilNextRange first scanner →
    (∀ document, call.document? = some document →
      ∃ halt refused, call.step scanner = .error halt refused) →
      UntilNextRange first (call.step.after scanner)

namespace UntilNextRange

variable {first scanner : Scanner Region}

theorem kept : KeptByCalls (fun _ => False) (UntilNextRange first) :=
  fun call hadmits _ h => .call call h fun document hdoc => (hadmits document hdoc).elim

/-- Tokens go through the operations, so they bring no other range. -/
theorem nextToken {grammar : Grammar}
    (hcustoms : ∀ custom ∈ grammar.customs, custom.ByCalls fun _ => False)
    (h : UntilNextRange first scanner) :
    UntilNextRange first (grammar.nextToken.after scanner) :=
  kept.nextToken (kept.customs hcustoms) scanner h

/-- What the operations keep that bring in no document is kept until the next range. -/
theorem keeps {P : Scanner Region → Prop} (hkept : KeptByCalls (fun _ => False) P)
    (hfirst : P first) (h : UntilNextRange first scanner) : P scanner := by
  induction h with
  | same => exact hfirst
  | @call scanner call _ hrefused ih =>
    rcases hdoc : call.document? with _ | document
    · exact hkept.keeps call hdoc scanner ih
    · obtain ⟨halt, refused, hhalt⟩ := hrefused document hdoc
      rwa [Call.after_refused hdoc hhalt]

end UntilNextRange

/-! ## Ranges up to a limit -/

/-- The document, the active range and the saved ranges all end by a limit. -/
structure Scanner.EndsBy {ρ : Type} (limit : Nat) (scanner : Scanner ρ) : Prop where
  document : scanner.document.length ≤ limit
  active : scanner.rangeEnd ≤ limit
  saved : ∀ frame ∈ scanner.frames, frame.rangeEnd ≤ limit

variable {ρ : Type}

/-- Lookups keep the document and the ranges, and a range is entered only within the document. -/
theorem Scanner.EndsBy.grounded {limit : Nat} {Admits : Document → Prop}
    (hlength : ∀ document, Admits document → document.length ≤ limit) :
    Grounded Admits (EndsBy limit : Scanner ρ → Prop) where
  congr := fun h hsame =>
    ⟨hsame.document ▸ h.document, hsame.rangeEnd ▸ h.active, hsame.frames ▸ h.saved⟩
  refill := by
    intro scanner offset h
    obtain ⟨cache, hrefill⟩ := scanner.refill_cached offset
    rw [hrefill]
    exact ⟨h.document, h.active, h.saved⟩
  placeAt := by
    intro scanner offset h
    obtain ⟨found, place, tally, hplace⟩ := scanner.placeAt_cached offset
    rw [hplace]
    exact ⟨h.document, h.active, h.saved⟩
  enter := by
    intro scanner offset length rangeEnd h hrange
    refine ⟨h.document, ?_, List.forall_mem_cons.mpr ⟨h.active, h.saved⟩⟩
    exact Nat.le_trans (Scanner.rangeEndIn_le hrange) h.document
  leave := by
    intro scanner saved frames h hframes
    obtain ⟨hsaved, hrest⟩ := List.forall_mem_cons.mp (hframes ▸ h.saved)
    exact ⟨h.document, hsaved, hrest⟩
  assign := by
    intro scanner after document offset length hadmits h hassign
    obtain ⟨-, hend, hdocument, hframes, -⟩ := Scanner.assign_eq_ok hassign
    have hle := hlength document hadmits
    exact ⟨hdocument ▸ hle, Nat.le_trans hend hle, hframes ▸ h.saved⟩

/-! ## One document -/

namespace Scanner.BeginsOn

variable {document : Document} {frames : List Frame} {first : Scanner Region}

/-- The range that a scan begins with lies in its document, and no saved range is dropped. -/
theorem facts (h : first.BeginsOn document frames) :
    first.document = document ∧ first.rangeEnd ≤ document.length ∧ first.frames = frames := by
  cases h with
  | fresh settings => exact ⟨rfl, Nat.zero_le _, rfl⟩
  | set hset hdone =>
    obtain ⟨-, hend, hdocument, hframes, -⟩ := Call.set_eq_ok hset hdone
    exact ⟨hdocument, hend, hframes⟩

theorem document_stays (h : first.BeginsOn document frames) {later : Scanner Region}
    (hlater : UntilNextRange first later) : later.document = document :=
  hlater.keeps (document_grounded (Q := (· = document)) fun _ hadmits => hadmits.elim).kept
    h.facts.1

end Scanner.BeginsOn

/-- Whatever was scanned before, once a scan has begun on a document, the active range lies in the
document in every state up to the next accepted range if and only if all ranges do that are saved
when it begins. -/
theorem the_active_range_stays_in_the_document_iff {document : Document} {frames : List Frame}
    {first : Scanner Region} (h : first.BeginsOn document frames) :
    (∀ later, UntilNextRange first later → later.rangeEnd ≤ later.document.length) ↔
      ∀ frame ∈ frames, frame.rangeEnd ≤ document.length := by
  obtain ⟨hdocument, hend, hframes⟩ := h.facts
  constructor
  · intro hall frame hframe
    have hstart : UntilNextRange first first := .same
    obtain ⟨later, hlater, hback⟩ := UntilNextRange.kept.comes_back hstart (hframes ▸ hframe)
    rw [← hback, ← h.document_stays hlater]
    exact hall later hlater
  · intro hfit later hlater
    have hfirst : first.EndsBy document.length := ⟨hdocument ▸ Nat.le_refl _, hend, hframes ▸ hfit⟩
    have hlast := hlater.keeps (Scanner.EndsBy.grounded fun _ hadmits => hadmits.elim).kept hfirst
    rw [h.document_stays hlater]
    exact hlast.active

/-- A saved range that fits into the new document as well: whatever token comes next, the active
range lies in the document. -/
theorem a_saved_range_that_fits_stays_in_the_document :
    ∃ before after : Scanner Region, Reached IsText ⟨3, by decide⟩ before ∧
      before.frames = [⟨0, 2, 0⟩] ∧
      (Call.assign (VersionedText.ofText ['x', 'y']).toDocument 0 1).step before = .ok () after ∧
      ∀ grammar : Grammar, grammar.customs = [] →
        (Call.leaveRange.step.after (grammar.nextToken.after after)).rangeEnd ≤
          (Call.leaveRange.step.after (grammar.nextToken.after after)).document.length := by
  let first : VersionedText := .ofText ['a', 'b', 'c', 'd', 'e', 'f']
  let second : VersionedText := .ofText ['x', 'y']
  let before : Scanner Region := (Call.enterRange 1 1).step.after
    ((Call.assign first.toDocument 0 2).step.after (Scanner.fresh first.toDocument ⟨3, by decide⟩))
  have hreached : Reached IsText ⟨3, by decide⟩ before :=
    .call (.enterRange 1 1) (fun _ hdoc => by cases hdoc)
      (.call (.assign first.toDocument 0 2) (fun _ hdoc => ⟨first, (Option.some.inj hdoc).symm⟩)
        (.fresh _ ⟨first, rfl⟩))
  have hframes : before.frames = [⟨0, 2, 0⟩] := rfl
  have hdone : (Call.assign second.toDocument 0 1).step before =
    .ok () ((Call.assign second.toDocument 0 1).step.after before) := rfl
  have hstays := (the_active_range_stays_in_the_document_iff (.set rfl hdone)).mpr (by
    rw [hframes]
    decide)
  refine ⟨before, _, hreached, hframes, hdone, fun grammar hcustoms => hstays _ ?_⟩
  exact .call .leaveRange (.nextToken (by simp [hcustoms]) .same) fun _ hdoc => by cases hdoc

/-! ## Whole sessions -/

/-- A range of one document can be saved, and come back over any other one. -/
theorem a_range_comes_back_over_any_document {Admits : Document → Prop} {document other : Document}
    (hdocument : Admits document) (hother : Admits other) (settings : Settings) :
    ∃ scanner : Scanner Region, Reached Admits settings scanner ∧ scanner.document = other ∧
      scanner.rangeEnd = document.length := by
  let whole : Scanner Region :=
    (Scanner.fresh document settings).withRange document 0 document.length
  let part := (Call.enterRange 0 0).step.after whole
  have hwhole : Reached Admits settings whole :=
    (Reached.fresh document hdocument).withRange hdocument (Nat.le_of_eq (Nat.zero_add _))
  have hpart : Reached Admits settings part := hwhole.call _ fun _ hdoc => by cases hdoc
  have hnone : 0 + 0 ≤ other.length := Nat.zero_le _
  obtain ⟨-, -, hover, hframes, -⟩ := Scanner.assign_eq_ok (part.assign_withRange hnone)
  have hsaved : whole.frame ∈ (part.withRange other 0 0).frames := by
    have hentered : part.frames = whole.frame :: whole.frames := by
      simp only [part]
      rw [Call.enterRange_after (Nat.zero_le whole.document.length)]
      simp
    simp [hframes, hentered]
  have hkept : KeptByCalls (fun _ => False) fun scanner =>
      Reached Admits settings scanner ∧ scanner.document = other :=
    fun call hbrings scanner ⟨hreached, hdoc⟩ =>
      ⟨hreached.call call fun document hbrought => (hbrings document hbrought).elim,
        (Scanner.document_grounded (Q := (· = other)) fun _ hadmits => hadmits.elim).kept call
          hbrings scanner hdoc⟩
  obtain ⟨later, ⟨hreached, hlater⟩, hend⟩ :=
    hkept.comes_back ⟨hpart.withRange hother hnone, hover⟩ hsaved
  exact ⟨later, hreached, hlater, hend.trans (Nat.zero_add _)⟩

/-- In every session over some documents the active range always lies in the document that is
scanned, if and only if the documents are all of one length. -/
theorem ranges_lie_in_the_documents_of_a_session_iff {Admits : Document → Prop} :
    (∀ settings scanner, Reached Admits settings scanner →
      scanner.rangeEnd ≤ scanner.document.length) ↔
        ∀ document other, Admits document → Admits other → document.length = other.length := by
  constructor
  · intro hall
    have hle : ∀ document other, Admits document → Admits other →
        document.length ≤ other.length := by
      intro document other hdocument hother
      obtain ⟨scanner, hreached, hover, hend⟩ :=
        a_range_comes_back_over_any_document hdocument hother ⟨1, by decide⟩
      rw [← hend, ← hover]
      exact hall _ scanner hreached
    exact fun document other hdocument hother =>
      Nat.le_antisymm (hle document other hdocument hother) (hle other document hother hdocument)
  · intro hone settings scanner hreached
    have hadmits : Admits scanner.document :=
      hreached.invariant (P := fun scanner => Admits scanner.document) (fun _ h => h)
        (Scanner.document_grounded fun _ h => h).kept
    have hbound : ∀ document, Admits document → document.length ≤ scanner.document.length :=
      fun document h => Nat.le_of_eq (hone document _ h hadmits)
    have hends : scanner.EndsBy scanner.document.length :=
      hreached.invariant
        (fun document h => ⟨hbound document h, Nat.zero_le _, by simp [Scanner.fresh]⟩)
        (Scanner.EndsBy.grounded hbound).kept
    exact hends.active

/-- A range of six characters is saved, a text of two characters comes in, and the saved range
comes back. -/
theorem a_saved_range_ends_behind_a_new_document :
    ∃ scanner : Scanner Region, Reached IsText ⟨3, by decide⟩ scanner ∧
      scanner.document = (VersionedText.ofText ['x', 'y']).toDocument ∧
      scanner.document.length = 2 ∧ scanner.rangeEnd = 6 := by
  have hlong : IsText (VersionedText.ofText ['a', 'b', 'c', 'd', 'e', 'f']).toDocument := ⟨_, rfl⟩
  have hshort : IsText (VersionedText.ofText ['x', 'y']).toDocument := ⟨_, rfl⟩
  obtain ⟨scanner, hreached, hover, hend⟩ :=
    a_range_comes_back_over_any_document hlong hshort ⟨3, by decide⟩
  exact ⟨scanner, hreached, hover, by rw [hover]; rfl, hend⟩

end RegionScan
