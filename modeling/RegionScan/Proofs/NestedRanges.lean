-- Ranges inside ranges. However a session goes on in a range that was entered, and however many
-- ranges it enters and leaves there, what comes back when that range is left is what was active
-- before: the mark, the range and the last match. And the same text is read from there.
import RegionScan.Proofs.Excerpts
import RegionScan.Proofs.Stacks

namespace RegionScan

/-! ## Inside a range -/

/-- The states that a session goes through in a range that was entered, until it is left, each with
the number of ranges that have been entered in it and not been left by then. -/
inductive Inside (entered : Scanner Region) : Nat → Scanner Region → Prop
  | same : Inside entered 0 entered
  | call {depth : Nat} {scanner : Scanner Region} (call : Call Region) : call.StaysInRange →
    Inside entered depth scanner → Inside entered depth (call.step.after scanner)
  | nextToken {depth : Nat} {scanner : Scanner Region} (grammar : Grammar) :
    (∀ custom ∈ grammar.customs, custom.Neutral ∧ custom.ByCalls fun _ => False) →
    (∀ fault, grammar.nextToken.result scanner ≠ .error (.faulted fault)) →
      Inside entered depth scanner → Inside entered depth (grammar.nextToken.after scanner)
  | refused {depth offset length : Nat} {scanner after : Scanner Region} {halt : Halt} :
    Scanner.enterRange offset length scanner = .error halt after →
      Inside entered depth scanner → Inside entered depth after
  | enter {depth offset length : Nat} {scanner after : Scanner Region} :
    Scanner.enterRange offset length scanner = .ok () after →
      Inside entered depth scanner → Inside entered (depth + 1) after
  | leave {depth : Nat} {scanner after : Scanner Region} :
    Scanner.leaveRange scanner = .ok () after →
      Inside entered (depth + 1) scanner → Inside entered depth after

/-- Calls that stay in the range save no range and take none back. -/
theorem Call.StaysInRange.frames_after {call : Call Region} (h : call.StaysInRange)
    (scanner : Scanner Region) : (call.step.after scanner).frames = scanner.frames :=
  Steady.kept (P := fun after => after.frames = scanner.frames) {
    congr := fun hframes hsame => hsame.frames.trans hframes
    refill := by
      intro after offset hframes
      obtain ⟨cache, hrefill⟩ := after.refill_cached offset
      rw [hrefill]
      exact hframes
    placeAt := by
      intro after offset hframes
      obtain ⟨found, place, tally, hplace⟩ := after.placeAt_cached offset
      rw [hplace]
      exact hframes } h scanner rfl

/-- A step that returns leaves the stacks as they were, if it does so whenever it returns. -/
theorem Scan.Neutral.sameStacks {α : Type} {step : RuleScan α} (h : step.Neutral)
    {scanner : Scanner Region} (hreturns : ∀ fault, step.result scanner ≠ .error (.faulted fault)) :
    scanner.SameStacks (step.after scanner) := by
  have hsame := h scanner
  unfold Yields Meets at hsame
  unfold result at hreturns
  unfold after
  rcases hstep : step scanner with ⟨value, after⟩ | ⟨error | fault, after⟩ <;>
    rw [hstep] at hsame hreturns
  · exact hsame
  · exact hsame
  · exact absurd rfl (hreturns fault)

/-- A range that is entered saves the one that was active. -/
theorem Scanner.frames_of_entered {scanner after : Scanner Region} {offset length : Nat}
    (h : enterRange offset length scanner = .ok () after) :
    after.frames = scanner.frame :: scanner.frames := by
  by_cases hrange : offset + length ≤ scanner.document.length
  · rw [enterRange_of_le hrange] at h
    cases h
    simp
  · rw [enterRange_refused (Nat.lt_of_not_le hrange)] at h
    cases h

namespace Inside

variable {entered last : Scanner Region} {depth : Nat}

/-- What all operations keep that bring in no document is kept inside a range. -/
theorem keeps {P : Scanner Region → Prop} (hkept : KeptByCalls (fun _ => False) P)
    (hfirst : P entered) (h : Inside entered depth last) : P last := by
  have hafter : ∀ (call : Call Region) {scanner after : Scanner Region}, call.document? = none →
      call.step.after scanner = after → P scanner → P after :=
    fun call _ _ hnone hstep hs => hstep ▸ hkept.keeps call hnone _ hs
  induction h with
  | same => exact hfirst
  | call call hstays _ ih => exact hafter call hstays.document? rfl ih
  | nextToken grammar hcustoms _ _ ih =>
    exact hkept.nextToken (hkept.customs fun custom hmem => (hcustoms custom hmem).2) _ ih
  | refused hrefused _ ih => exact hafter (.enterRange _ _) rfl (Scan.after_of_error hrefused) ih
  | enter hentered _ ih => exact hafter (.enterRange _ _) rfl (Scan.after_of_ok hentered) ih
  | leave hleft _ ih => exact hafter .leaveRange rfl (Scan.after_of_ok hleft) ih

/-- The ranges that have been saved since lie on top of those that were saved before. -/
theorem frames_eq (h : Inside entered depth last) :
    ∃ inner : List Frame, inner.length = depth ∧ last.frames = inner ++ entered.frames := by
  induction h with
  | same => exact ⟨[], rfl, rfl⟩
  | @call depth scanner call hstays _ ih =>
    obtain ⟨inner, hlength, hframes⟩ := ih
    exact ⟨inner, hlength, (hstays.frames_after scanner).trans hframes⟩
  | nextToken grammar hcustoms hreturns _ ih =>
    obtain ⟨inner, hlength, hframes⟩ := ih
    have hneutral : grammar.nextToken.Neutral :=
      Scan.Neutral.inherited.nextToken fun custom hmem => (hcustoms custom hmem).1
    exact ⟨inner, hlength, (hneutral.sameStacks hreturns).frames.trans hframes⟩
  | @refused depth offset length scanner after halt hrefused _ ih =>
    by_cases hrange : offset + length ≤ scanner.document.length
    · rw [Scanner.enterRange_of_le hrange] at hrefused
      cases hrefused
    · rw [Scanner.enterRange_refused (Nat.lt_of_not_le hrange)] at hrefused
      cases hrefused
      exact ih
  | @enter depth offset length scanner after hentered _ ih =>
    obtain ⟨inner, hlength, hframes⟩ := ih
    exact ⟨scanner.frame :: inner, congrArg (· + 1) hlength, by
      rw [Scanner.frames_of_entered hentered, hframes, List.cons_append]⟩
  | @leave depth scanner after hleft _ ih =>
    obtain ⟨inner, hlength, hframes⟩ := ih
    obtain ⟨saved, inner, rfl⟩ := List.exists_cons_of_length_eq_add_one hlength
    rw [Scanner.leaveRange_of_cons hframes] at hleft
    cases hleft
    exact ⟨inner, Nat.succ.inj hlength, by simp⟩

end Inside

/-! ## What comes back -/

/-- A range comes back as it was when another one was entered. -/
theorem Scanner.leaveRange_frame {scanner : Scanner Region} {saved : Frame} {frames : List Frame}
    (h : scanner.frames = saved :: frames) :
    ∃ after, leaveRange scanner = .ok () after ∧ after.frame = saved ∧ after.frames = frames := by
  refine ⟨_, leaveRange_of_cons h, ?_, by simp⟩
  obtain ⟨cache, hmove⟩ := ({ scanner with
    frames, rangeEnd := saved.rangeEnd, lastMatch := saved.lastMatch } :
      Scanner Region).moveTo_cached saved.offset
  rw [hmove]
  rfl

/-- Two scanners of a text at one place in one range. -/
structure Scanner.ReadsAlike (doc : VersionedText) (scanner other : Scanner Region) : Prop where
  document : scanner.document = doc.toDocument
  document' : other.document = doc.toDocument
  current : scanner.Current
  current' : other.Current
  mark : scanner.mark = other.mark
  rangeEnd : scanner.rangeEnd = other.rangeEnd

namespace Scan.Uniform

variable {doc : VersionedText}

theorem read_alike : Uniform (Scanner.ReadsAlike doc) Scanner.read := by
  intro scanner other h
  rcases Scanner.read_same h.current h.current' h.document h.document' h.mark h.rangeEnd with
    ⟨char, cache, cache', hread, hs, hread', ho⟩ | ⟨hread, hread'⟩ <;> rw [hread, hread']
  · exact .ok char ⟨h.document, h.document', hs, ho, rfl, h.rangeEnd⟩
  · exact .error _ h

/-- From there they read the same characters, however many. -/
theorem readMany (count : Nat) :
    Uniform (Scanner.ReadsAlike doc) (Session.readMany count : RuleScan (List (Option Char))) := by
  induction count with
  | zero => exact pure _
  | succ count ih => exact read_alike.bind fun _ => ih.bind fun _ => pure _

end Scan.Uniform

/-! ## The law -/

/-- In every session over one text: a range that is entered saves the active one. However the
session goes on, as long as it leaves no range that was saved before, the range that comes back
in the end is the one that was active, with its mark and its last match, the saved ranges are those
that were saved, and from there the same characters are read. A range that the text does not
reach is refused, and so is leaving where no range is saved; neither changes anything. -/
theorem a_range_comes_back_as_it_was {doc : VersionedText} {settings : Settings}
    {before : Scanner Region} (h : Reached (· = doc.toDocument) settings before) :
    (∀ offset length entered, Scanner.enterRange offset length before = .ok () entered →
      ∀ last, Inside entered 0 last →
        ∃ after, Scanner.leaveRange last = .ok () after ∧ after.frame = before.frame ∧
          after.frames = before.frames ∧
          ∀ count, (Session.readMany count).result after = (Session.readMany count).result before) ∧
    (∀ offset length, doc.text.length < offset + length →
      Scanner.enterRange offset length before =
        .error (.failed (.invalidRange offset length doc.text.length)) before) ∧
    (before.frames = [] →
      Scanner.leaveRange before = .error (.failed .noSavedRange) before) := by
  obtain ⟨hdocument, honText, -⟩ := h.over_one_text
  refine ⟨?_, fun offset length hlt => ?_, Scanner.leaveRange_refused⟩
  · intro offset length entered hentered last hinside
    obtain ⟨inner, hnone, hframes⟩ := hinside.frames_eq
    rw [List.eq_nil_of_length_eq_zero hnone, Scanner.frames_of_entered hentered] at hframes
    obtain ⟨after, hleft, hframe, hrest⟩ := Scanner.leaveRange_frame hframes
    have hkept : KeptByCalls (fun _ => False) (Reached (· = doc.toDocument) settings) :=
      fun call hbrings scanner hs => hs.call call fun document hset => (hbrings document hset).elim
    have hfirst : Reached (· = doc.toDocument) settings entered :=
      Scan.after_of_ok hentered ▸ hkept.keeps (.enterRange offset length) rfl before h
    have hreached : Reached (· = doc.toDocument) settings after :=
      Scan.after_of_ok hleft ▸ hkept.keeps .leaveRange rfl last (hinside.keeps hkept hfirst)
    obtain ⟨hdocument', honText', -⟩ := hreached.over_one_text
    refine ⟨after, hleft, hframe, hrest, fun count => ?_⟩
    exact (Scan.Uniform.readMany count after before ⟨hdocument', hdocument, honText'.current,
      honText.current, congrArg Frame.offset hframe, congrArg Frame.rangeEnd hframe⟩).result_eq
  · have hlength : before.document.length = doc.text.length := congrArg Document.length hdocument
    rw [Scanner.enterRange_refused (hlength ▸ hlt), hlength]

/-- A token of brackets is found in a range inside another one, both are left, and the first range
goes on in its middle. -/
theorem a_range_comes_back_from_under_a_token :
    ∃ before entered nested last after : Scanner Region,
      before.frame = ⟨3, 6, 2⟩ ∧ Scanner.enterRange 6 4 before = .ok () entered ∧
      Scanner.enterRange 0 6 entered = .ok () nested ∧
      Grammar.brackets.nextToken.result nested = .ok (.other "open") ∧
      Scanner.leaveRange (Grammar.brackets.nextToken.after nested) = .ok () last ∧
      Scanner.leaveRange last = .ok () after ∧ after.frame = ⟨3, 6, 2⟩ ∧
      (Session.readMany 4).result after = .ok [some 'b', some ']', some ')', none] := by
  let doc : VersionedText := .ofText ['(', 'a', '[', 'b', ']', ')', '\n', '[', 'c', ']']
  let fresh : Scanner Region := Scanner.fresh doc.toDocument ⟨3, by decide⟩
  let before : Scanner Region := { fresh with
    window := ⟨#['a', '[', 'b'], 1, 3, by decide⟩, mark := 3, rangeEnd := 6, tokenStart := 1
    lastMatch := 2, tally := ⟨1, 0⟩ }
  have h0 : Reached (· = doc.toDocument) ⟨3, by decide⟩ fresh := .fresh _ rfl
  have h1 := h0.call (.assign doc.toDocument 1 5) fun _ hset => by cases hset; rfl
  have h2 := h1.call (.moveTo 3) fun _ hset => by cases hset
  have hreached : Reached (· = doc.toDocument) ⟨3, by decide⟩ before :=
    h2.call (.setLastMatch 2) fun _ hset => by cases hset
  let entered : Scanner Region := (Call.enterRange 6 4).step.after before
  let nested : Scanner Region := (Call.enterRange 0 6).step.after entered
  have hentered : Scanner.enterRange 6 4 before = .ok () entered := rfl
  have hnested : Scanner.enterRange 0 6 entered = .ok () nested := rfl
  have htoken : Grammar.brackets.nextToken.result nested = .ok (.other "open") := by
    decide +kernel
  have hreads : (Session.readMany 4).result before = .ok [some 'b', some ']', some ')', none] := by
    decide +kernel
  have hinside : Inside entered 1 (Grammar.brackets.nextToken.after nested) :=
    .nextToken _ nofun (by rw [htoken]; nofun) (.enter hnested .same)
  obtain ⟨inner, hlength, hframes⟩ := hinside.frames_eq
  obtain ⟨saved, rfl⟩ := List.length_eq_one_iff.mp hlength
  obtain ⟨last, hleft, -⟩ := Scanner.leaveRange_frame hframes
  obtain ⟨after, hback, hframe, -, hsame⟩ := (a_range_comes_back_as_it_was hreached).1 6 4
    entered hentered last (.leave hleft hinside)
  exact ⟨before, entered, nested, last, after, rfl, hentered, hnested, htoken, hleft, hback, hframe,
    (hsame 4).trans hreads⟩

end RegionScan
