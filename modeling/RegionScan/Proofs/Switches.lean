-- Documents that are switched under a scan. A range of another document that is
-- accepted fills the window from its start; if the new document refuses that, the
-- window of the old one stays. The laws say when a later read is still a character
-- of the new document.
import RegionScan.Proofs.Calls

namespace RegionScan

/-! ## What a window says of a text -/

theorem stretch_succ {text : Text} {offset count : Nat} {c : Char}
    (h : text[offset]? = some c) :
    stretch text offset (count + 1) = c :: stretch text (offset + 1) count := by
  obtain ⟨hlt, rfl⟩ := List.getElem?_eq_some_iff.mp h
  rw [stretch, List.drop_eq_getElem_cons hlt, List.take_succ_cons, stretch]

/-- A window that a document has filled shows nothing but its text. -/
theorem Window.get?_showing {window : Window} {document : Document} {text : Text}
    (hover : document.Over text) {first offset : Nat} {part : Text} {c : Char}
    (hslice : document.slice first (document.reach window.capacity first) = .ok part)
    (h : (window.showing first part).get? offset = some c) : text[offset]? = some c := by
  have hshows : (window.showing first part).Shows document := Or.inr hslice
  have hin : (window.showing first part).contains offset = true := by
    unfold Window.get? at h
    split at h
    · assumption
    · cases h
  rw [← hshows.get? hover hin, h]

/-! ## Reads that give a character -/

namespace Scanner

variable {ρ : Type}

/-- The scanner with the character at the mark in its window, if the document serves it. -/
def filled (scanner : Scanner ρ) : Scanner ρ :=
  if scanner.window.contains scanner.mark then scanner else scanner.refill scanner.mark

/-- A read gives what the window shows at the mark, once it has been filled there. -/
theorem read_eq_some {scanner after : Scanner ρ} {c : Char} :
    read scanner = .ok (some c) after ↔
      scanner.mark < maxOffset ∧ scanner.mark < scanner.rangeEnd ∧
        scanner.filled.window.get? scanner.mark = some c ∧
        after = { scanner.filled with mark := scanner.mark + 1, column := none } := by
  unfold read
  rw [Scan.get_bind]
  by_cases hfar : maxOffset ≤ scanner.mark
  · rw [if_pos hfar]
    constructor
    · intro h
      cases h
    · intro h
      omega
  · rw [if_neg hfar]
    by_cases hend : scanner.rangeEnd ≤ scanner.mark
    · rw [if_pos hend]
      constructor
      · intro h
        cases h
      · intro h
        omega
    · rw [if_neg hend]
      have hread : (do
          set { scanner.filled with mark := scanner.mark + 1, column := none }
          return scanner.filled.window.get? scanner.mark : Scan ρ (Option Char)) scanner =
            .ok (scanner.filled.window.get? scanner.mark)
              { scanner.filled with mark := scanner.mark + 1, column := none } := rfl
      constructor
      · intro h
        have heq := hread.symm.trans h
        simp only [EStateM.Result.ok.injEq] at heq
        exact ⟨by omega, by omega, heq.1, heq.2.symm⟩
      · rintro ⟨_, _, hget, rfl⟩
        exact hread.trans (by rw [hget])

end Scanner

/-! ## What a read gives -/

/-- Whether a read can come to an offset: a range of the document can hold it, or a range that
was saved does. Ranges stay saved when the document is switched. -/
def Scanner.InReach {ρ : Type} (scanner : Scanner ρ) (offset : Nat) : Prop :=
  offset < maxOffset ∧ (offset < scanner.document.length ∨
    ∃ frame ∈ scanner.frames, offset < frame.rangeEnd)

/-- Reads and excerpts give characters of the text alone. -/
def Scanner.ReadsOnly {ρ : Type} (text : Text) (scanner : Scanner ρ) : Prop :=
  (∀ c after, Scanner.read scanner = .ok (some c) after → text[scanner.mark]? = some c) ∧
    ∀ offset count part after, Scanner.excerpt offset count scanner = .ok part after →
      part = stretch text offset part.length

/-! ## Between two switches -/

/-- The states that a session goes through until the next range of another document is accepted.
The document keeps its text all the while and may change its mind about what it refuses. -/
inductive Continues (text : Text) (first : Scanner Region) : Scanner Region → Prop
  | same : Continues text first first
  | call {scanner : Scanner Region} (call : Call Region) : Continues text first scanner →
    (∀ document, call.document? = some document →
      ∃ halt refused, call.step scanner = .error halt refused) →
      Continues text first (call.step.after scanner)
  | changed {scanner : Scanner Region} (document : Document) : document.Over text →
    Continues text first scanner → Continues text first { scanner with document }

/-- Tokens and rules go through the operations, so a session goes on with them as well. -/
theorem Continues.kept {text : Text} {first : Scanner Region} :
    KeptByCalls (fun _ => False) (Continues text first) :=
  fun call hadmits _ h => .call call h fun document hdoc => (hadmits document hdoc).elim

/-- A range that is refused changes nothing. -/
theorem Call.after_refused {call : Call Region} {document : Document}
    {scanner refused : Scanner Region} {halt : Halt} (hdoc : call.document? = some document)
    (h : call.step scanner = .error halt refused) : call.step.after scanner = scanner := by
  rw [Scan.after_of_error h]
  cases call <;> cases hdoc
  case assign offset length =>
    exact (Scanner.assign_atomic document offset length).refused h
  case assignPart offset length contentType partitionStart =>
    exact (Scanner.assignPart_atomic document offset length contentType partitionStart).refused h

/-! ## Windows that are right within reach -/

/-- The document is over the text, and wherever a range can reach, the window shows the text. -/
structure RightWithin {ρ : Type} (text : Text) (reach : Nat → Prop) (scanner : Scanner ρ) :
    Prop where
  holds : scanner.document.Over text
  window : ∀ offset, reach offset → ∀ c, scanner.window.get? offset = some c →
    text[offset]? = some c
  range : ∀ offset, offset < maxOffset → offset < scanner.rangeEnd → reach offset
  frames : ∀ frame ∈ scanner.frames, ∀ offset, offset < maxOffset →
    offset < frame.rangeEnd → reach offset
  document : ∀ offset, offset < maxOffset → offset < text.length → reach offset

namespace RightWithin

variable {ρ : Type} {text : Text} {reach : Nat → Prop} {scanner : Scanner ρ}

theorem refill (h : RightWithin text reach scanner) (offset : Nat) :
    RightWithin text reach (scanner.refill offset) := by
  unfold Scanner.refill
  rcases hreach : scanner.window.reach? scanner.document.length offset with _ | count
  · exact h
  · have hcount : count = scanner.document.reach scanner.window.capacity offset := by
      unfold Window.reach? at hreach
      split at hreach
      · exact (Option.some.inj hreach).symm
      · cases hreach
    dsimp only [Scanner.slice]
    rcases hslice : scanner.document.slice offset count with _ | part
    · exact ⟨h.holds, h.window, h.range, h.frames, h.document⟩
    · rw [hcount] at hslice
      exact ⟨h.holds, fun _ _ _ hget => Window.get?_showing h.holds hslice hget, h.range, h.frames,
        h.document⟩

theorem grounded : Grounded (fun _ => False) (RightWithin text reach : Scanner ρ → Prop) where
  congr := by
    intro scanner other h hsame
    refine ⟨hsame.document ▸ h.holds, ?_, ?_, ?_, h.document⟩
    · rw [hsame.window]
      exact h.window
    · rw [hsame.rangeEnd]
      exact h.range
    · rw [hsame.frames]
      exact h.frames
  refill := fun offset h => h.refill offset
  placeAt := by
    intro scanner offset h
    obtain ⟨found, place, tally, hplace⟩ := scanner.placeAt_cached offset
    rw [hplace]
    exact ⟨h.holds, h.window, h.range, h.frames, h.document⟩
  enter := by
    intro scanner offset length rangeEnd h hrange
    have hle : rangeEnd ≤ text.length := h.holds.length_eq ▸ Scanner.rangeEndIn_le hrange
    refine ⟨h.holds, h.window, ?_, ?_, h.document⟩
    · intro o hfar hlt
      exact h.document o hfar (by dsimp only at hlt; omega)
    · intro frame hframe
      rcases List.mem_cons.mp hframe with rfl | hframe
      · exact h.range
      · exact h.frames frame hframe
  leave := by
    intro scanner saved frames h hframes
    refine ⟨h.holds, h.window, ?_, ?_, h.document⟩
    · exact h.frames saved (by simp [hframes])
    · intro frame hframe
      exact h.frames frame (by simp [hframes, hframe])
  assign := fun hadmits _ _ => hadmits.elim

/-- A read at the mark is a character of the text. -/
theorem read_eq (h : RightWithin text reach scanner) {c : Char} {after : Scanner ρ}
    (hread : Scanner.read scanner = .ok (some c) after) : text[scanner.mark]? = some c := by
  obtain ⟨hfar, hlt, hget, _⟩ := Scanner.read_eq_some.mp hread
  have hfilled : RightWithin text reach scanner.filled := by
    unfold Scanner.filled
    split
    · exact h
    · exact h.refill _
  exact hfilled.window _ (h.range _ hfar hlt) c hget

theorem readUpTo_eq (h : RightWithin text reach scanner) {count : Nat} {part : Text}
    {after : Scanner ρ} (hread : Scanner.readUpTo count scanner = .ok part after) :
    part = stretch text scanner.mark part.length := by
  induction count generalizing scanner part after with
  | zero =>
    cases hread
    simp [stretch]
  | succ count ih =>
    obtain ⟨char, next, hchar, hrest⟩ := Scan.bind_eq_ok.mp hread
    rcases char with _ | c
    · cases hrest
      simp [stretch]
    · obtain ⟨rest, last, hrest, hpart⟩ := Scan.bind_eq_ok.mp hrest
      cases hpart
      have hnext : RightWithin text reach next := by
        have hkept := grounded.read scanner h
        rwa [Scan.after, hchar] at hkept
      have hmark : next.mark = scanner.mark + 1 := by
        rw [(Scanner.read_eq_some.mp hchar).2.2.2]
      rw [List.length_cons, stretch_succ (h.read_eq hchar), ← hmark, ← ih hnext hrest]

theorem readsOnly (h : RightWithin text reach scanner) : scanner.ReadsOnly text := by
  refine ⟨fun _ _ hread => h.read_eq hread, ?_⟩
  intro offset count part after hexcerpt
  unfold Scanner.excerpt at hexcerpt
  rw [Scan.get_bind, Scan.modify_bind] at hexcerpt
  obtain ⟨found, next, hread, hpart⟩ := Scan.bind_eq_ok.mp hexcerpt
  cases hpart
  have hfound := (grounded.moveTo h offset).readUpTo_eq hread
  rwa [Scanner.moveTo_mark] at hfound

end RightWithin

/-! ## A document that has gone mute -/

/-- A document of a text that refuses all lookups. -/
def Document.mute (text : Text) : Document where
  length := text.length
  slice := fun offset count => .error (.outOfRange offset count text.length)
  lineOf := fun offset => .error (.outOfRange offset 0 text.length)
  lineStart := fun line => .error (.lineOutOfRange line 0)
  lineCount := 0
  delimiters := []
  ownLineText := none

theorem Document.mute_over (text : Text) : (mute text).Over text where
  length_eq := rfl
  slice_eq := fun h => by cases h
  line_eq := fun h => by cases h

/-- The document has gone mute, so the window stays what it was. -/
structure Stuck (text : Text) (window : Window) (scanner : Scanner Region) : Prop where
  document : scanner.document = .mute text
  window : scanner.window = window

namespace Stuck

variable {text : Text} {window : Window} {scanner first : Scanner Region}

theorem grounded : Grounded (fun _ => False) (Stuck text window) where
  congr := fun h hsame => ⟨hsame.document.trans h.document, hsame.window.trans h.window⟩
  refill := by
    intro scanner offset h
    have hover : scanner.document.Over text := h.document ▸ Document.mute_over text
    obtain ⟨cache, hcache⟩ := scanner.refill_cached offset
    have hdocument : (scanner.refill offset).document = .mute text := by
      rw [hcache]
      exact h.document
    rcases Scanner.refill_window hover offset with ⟨hwindow, _⟩ | ⟨part, hslice, _⟩
    · exact ⟨hdocument, hwindow.trans h.window⟩
    · rw [h.document] at hslice
      cases hslice
  placeAt := by
    intro scanner offset h
    obtain ⟨found, place, tally, hplace⟩ := scanner.placeAt_cached offset
    rw [hplace]
    exact ⟨h.document, h.window⟩
  enter := fun h _ => ⟨h.document, h.window⟩
  leave := fun h _ => ⟨h.document, h.window⟩
  assign := fun hadmits _ _ => hadmits.elim

/-- A range that was saved comes back. -/
theorem comes_back (h : Stuck text window scanner) (hreached : Continues text first scanner)
    {frame : Frame} (hframe : frame ∈ scanner.frames) :
    ∃ later, Continues text first later ∧ Stuck text window later ∧
      later.rangeEnd = frame.rangeEnd := by
  have hkept : KeptByCalls (fun _ => False) fun scanner =>
      Continues text first scanner ∧ Stuck text window scanner :=
    fun call hadmits scanner ⟨hreached, h⟩ =>
      ⟨Continues.kept call hadmits scanner hreached, grounded.kept call hadmits scanner h⟩
  obtain ⟨later, ⟨hreached, hstuck⟩, hend⟩ := hkept.comes_back ⟨hreached, h⟩ hframe
  exact ⟨later, hreached, hstuck, hend⟩

/-- Whatever the window shows within reach can be read. -/
theorem read_within (h : Stuck text window scanner) (hreached : Continues text first scanner)
    {offset : Nat} {c : Char} (hreach : scanner.InReach offset)
    (hget : window.get? offset = some c) :
    ∃ later after, Continues text first later ∧ later.mark = offset ∧
      Scanner.read later = .ok (some c) after := by
  obtain ⟨hfar, hrange⟩ := hreach
  -- First a range is made active that holds the offset.
  obtain ⟨ranged, hranged, hstuck, hlt⟩ : ∃ later, Continues text first later ∧
      Stuck text window later ∧ offset < later.rangeEnd := by
    rcases hrange with hlt | ⟨frame, hframe, hlt⟩
    · have hnext := grounded.kept (.enterRange 0 text.length) (fun _ hdoc => by cases hdoc) _ h
      have hcontinues :=
        Continues.kept (.enterRange 0 text.length) (fun _ hdoc => by cases hdoc) _ hreached
      rw [Call.enterRange_after (by simp [h.document, Document.mute])] at hnext hcontinues
      rw [h.document] at hlt
      refine ⟨_, hcontinues, hnext, ?_⟩
      simpa [Document.mute] using hlt
    · obtain ⟨later, hcontinues, hstuck, hend⟩ := h.comes_back hreached hframe
      exact ⟨later, hcontinues, hstuck, by omega⟩
  -- Then the mark is put at the offset, and the old window still shows it.
  have hnext := grounded.moveTo hstuck offset
  have hmoved : Continues text first (ranged.moveTo offset) :=
    .call (.moveTo offset) hranged (fun _ hdoc => by cases hdoc)
  have hcontains : window.contains offset = true := by
    unfold Window.get? at hget
    split at hget
    · assumption
    · cases hget
  refine ⟨_, _, hmoved, ranged.moveTo_mark offset,
    Scanner.read_eq_some.mpr ⟨by simp [hfar], by simp [hlt], ?_, rfl⟩⟩
  simp [Scanner.filled, hnext.window, hcontains, hget]

end Stuck

/-! ## The law -/

/-- The document of a range that is set, and the offset from which its window is to be filled. -/
def Call.sets? {ρ : Type} : Call ρ → Option (Document × Nat)
  | assign document offset _ => some (document, offset)
  | assignPart document offset _ _ partitionStart =>
    some (document, min (partitionStart.getD offset) offset)
  | _ => none

theorem Scanner.assign_eq_ok {ρ : Type} {scanner after : Scanner ρ} {document : Document}
    {offset length : Nat} (h : scanner.assign document offset length = .ok () after) :
    offset ≤ document.length ∧ after.rangeEnd ≤ document.length ∧
      after.document = document ∧ after.frames = scanner.frames ∧
      after.window = ({ scanner with document, place := none }.refill offset).window := by
  obtain ⟨hrange, rfl⟩ := assign_eq_ok_iff.mp h
  obtain ⟨cache, hrefill⟩ :=
    ({ scanner with document, place := none } : Scanner ρ).refill_cached offset
  refine ⟨by omega, hrange, ?_, ?_, rfl⟩
  · show ({ scanner with document, place := none }.refill offset).document = _
    rw [hrefill]
    rfl
  · show ({ scanner with document, place := none }.refill offset).frames = _
    rw [hrefill]
    rfl

/-- A range that is accepted brings its document in; the window is that of the new document, or
the old one if the new document refuses to fill it. The ranges that were saved stay. -/
theorem Call.set_eq_ok {call : Call Region} {before after : Scanner Region}
    {document : Document} {first : Nat} (hset : call.sets? = some (document, first))
    (h : call.step before = .ok () after) :
    first ≤ document.length ∧ after.rangeEnd ≤ document.length ∧
      after.document = document ∧ after.frames = before.frames ∧
      after.window = ({ before with document, place := none }.refill first).window := by
  cases call <;> cases hset
  case assign length =>
    exact Scanner.assign_eq_ok (Scan.ofTrial_eq_ok.mp h)
  case assignPart offset length contentType partitionStart =>
    obtain ⟨found, hfound, rfl⟩ := Scanner.assignPart_eq_ok (Scan.ofTrial_eq_ok.mp h)
    have hfacts := Scanner.assign_eq_ok hfound
    exact hfacts

/-- Whatever the state before, once a range of a document has been accepted, all reads and
excerpts up to the next one give characters of that document, whatever it refuses from then on,
if and only if it has filled the window at once, or the window from before shows nothing within
reach that is not in the document. -/
theorem reads_after_a_switch_are_right_iff {call : Call Region} {before after : Scanner Region}
    {document : Document} {first : Nat} {text : Text}
    (hset : call.sets? = some (document, first)) (hover : document.Over text)
    (hdone : call.step before = .ok () after) :
    (∀ later, Continues text after later → later.ReadsOnly text) ↔
      ¬ document.Withholds before.window.capacity first ∨
        ∀ offset, after.InReach offset → ∀ c, before.window.get? offset = some c →
          text[offset]? = some c := by
  obtain ⟨hfirst, hend, hdocument, hframes, hwindow⟩ := Call.set_eq_ok hset hdone
  let switched : Scanner Region := { before with document, place := none }
  have hfilled := @Scanner.refill_window _ switched _ hover first
  constructor
  · intro hreads
    by_cases hwithheld : document.Withholds before.window.capacity first
    · right
      intro offset hreach c hget
      have hkept : after.window = before.window := by
        rcases hfilled with ⟨hkept, _⟩ | ⟨part, hslice, _⟩
        · exact hwindow.trans hkept
        · exact absurd hslice (hwithheld part)
      have hmute : Continues text after { after with document := .mute text } :=
        .changed _ (Document.mute_over text) .same
      have hreach' : ({ after with document := .mute text } : Scanner Region).InReach offset := by
        refine ⟨hreach.1, hreach.2.imp_left fun hlt => ?_⟩
        rwa [hdocument, hover.length_eq] at hlt
      obtain ⟨later, next, hlater, hmark, hread⟩ :=
        (⟨rfl, hkept⟩ : Stuck text before.window { after with document := .mute text }).read_within
          hmute hreach' hget
      rw [← hmark]
      exact (hreads later hlater).1 c next hread
    · exact Or.inl hwithheld
  · intro hright later hlater
    have hstart : RightWithin text after.InReach after := by
      refine ⟨hdocument ▸ hover, ?_, ?_, ?_, ?_⟩
      · intro offset hreach c hget
        rw [hwindow] at hget
        rcases hfilled with ⟨hkept, hwhy⟩ | ⟨part, hslice, hnew⟩
        · have hwithheld : document.Withholds before.window.capacity first := by
            refine hwhy.resolve_left ?_
            rw [← hover.length_eq]
            omega
          rw [hkept] at hget
          exact hright.resolve_left (fun h => h hwithheld) offset hreach c hget
        · rw [hnew] at hget
          exact Window.get?_showing hover hslice hget
      · intro offset hfar hlt
        exact ⟨hfar, Or.inl (by rw [hdocument]; omega)⟩
      · intro frame hframe offset hfar hlt
        exact ⟨hfar, Or.inr ⟨frame, hframe, hlt⟩⟩
      · intro offset hfar hlt
        exact ⟨hfar, Or.inl (by rw [hdocument, hover.length_eq]; exact hlt)⟩
    have hkept : RightWithin text after.InReach later := by
      induction hlater with
      | same => exact hstart
      | @call scanner call hbefore hrefused ih =>
        rcases hdoc : call.document? with _ | other
        · exact RightWithin.grounded.kept call
            (fun _ hbrought => by rw [hdoc] at hbrought; cases hbrought) scanner ih
        · obtain ⟨halt, refused, hhalt⟩ := hrefused other hdoc
          rw [Call.after_refused hdoc hhalt]
          exact ih
      | changed other hother _ ih =>
        exact ⟨hother, ih.window, ih.range, ih.frames, ih.document⟩
    exact hkept.readsOnly

/-- From one text to another of the same length: after a token of it, too, every read is right. -/
theorem reads_between_two_texts_are_right :
    ∃ before after : Scanner Region, Reached (fun document => ∃ text, document.Over text)
        ⟨3, by decide⟩ before ∧ before.window.get? 0 = some 'a' ∧
      (Call.assign (VersionedText.ofText ['x', 'y', 'z']).toDocument 0 3).step before =
        .ok () after ∧
      ∀ grammar : Grammar, grammar.customs = [] →
        (grammar.nextToken.after after).ReadsOnly ['x', 'y', 'z'] := by
  let first : VersionedText := .ofText ['a', 'b', 'c']
  let second : VersionedText := .ofText ['x', 'y', 'z']
  let fresh : Scanner Region := Scanner.fresh first.toDocument ⟨3, by decide⟩
  let before : Scanner Region := { fresh with
    window := ⟨#['a', 'b', 'c'], 0, 3, by decide⟩, rangeEnd := 3, tally := ⟨1, 0⟩ }
  let after : Scanner Region := { before with
    document := second.toDocument, window := ⟨#['x', 'y', 'z'], 0, 3, by decide⟩,
    tally := ⟨2, 0⟩ }
  have h0 : Reached (fun document => ∃ text, document.Over text) ⟨3, by decide⟩ fresh :=
    .fresh _ ⟨_, first.toDocument_over⟩
  have h1 : Reached (fun document => ∃ text, document.Over text) ⟨3, by decide⟩ before :=
    h0.call (.assign first.toDocument 0 3) fun _ hdoc => ⟨first.text, by
      cases hdoc
      exact first.toDocument_over⟩
  have hserved : ¬ second.toDocument.Withholds 3 0 :=
    fun hwithheld => hwithheld _ (VersionedText.toDocument_slice.mpr ⟨by decide, rfl⟩)
  have hdone : (Call.assign second.toDocument 0 3).step before = .ok () after := rfl
  have hreads := (reads_after_a_switch_are_right_iff rfl second.toDocument_over hdone).mpr
    (Or.inl hserved)
  refine ⟨before, after, h1, rfl, rfl, fun grammar hcustoms => hreads _ ?_⟩
  refine Continues.kept.nextToken ?_ after .same
  intro custom hmem
  rw [hcustoms] at hmem
  cases hmem

/-- A range of `xyz` is accepted, although nothing of it can be served, and the next read gives
the `a` of the text that was scanned before. -/
theorem a_read_gives_a_character_of_the_old_document :
    ∃ (before scanner after : Scanner Region) (document : Document),
      Reached (fun document => ∃ text, document.Over text) ⟨3, by decide⟩ before ∧
      document.Over ['x', 'y', 'z'] ∧
      (Call.assign document 0 3).step before = .ok () scanner ∧
      scanner.mark = 0 ∧ Scanner.read scanner = .ok (some 'a') after ∧
      ¬ scanner.ReadsOnly ['x', 'y', 'z'] := by
  let first : VersionedText := .ofText ['a', 'b', 'c']
  let second : PatchyDocument := ⟨.ofText ['x', 'y', 'z'], [(0, 3)], [], none, none⟩
  let fresh : Scanner Region := Scanner.fresh first.toDocument ⟨3, by decide⟩
  let before : Scanner Region := { fresh with
    window := ⟨#['a', 'b', 'c'], 0, 3, by decide⟩, rangeEnd := 3, tally := ⟨1, 0⟩ }
  have h0 : Reached (fun document => ∃ text, document.Over text) ⟨3, by decide⟩ fresh :=
    .fresh _ ⟨_, first.toDocument_over⟩
  have h1 : Reached (fun document => ∃ text, document.Over text) ⟨3, by decide⟩ before :=
    h0.call (.assign first.toDocument 0 3) fun _ hdoc => ⟨first.text, by
      cases hdoc
      exact first.toDocument_over⟩
  exact ⟨before, { before with document := second.toDocument, tally := ⟨2, 0⟩ }, _,
    second.toDocument, h1, second.toDocument_over rfl, rfl, rfl, rfl,
    fun hreads => absurd (hreads.1 _ _ rfl) (by decide)⟩

end RegionScan
