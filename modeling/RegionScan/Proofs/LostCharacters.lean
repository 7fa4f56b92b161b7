-- A character that is lost is not skipped. The mark moves by matches, by ends that were
-- parked and by reads, and a document that has lost a character shows neither its line
-- nor a window over it. So whatever moves the mark in front of the first such character
-- leaves it there, and the scan stops.
import RegionScan.Proofs.Leftovers
import RegionScan.Proofs.Holes

namespace RegionScan

/-! ## Fences -/

/-- Nothing that is shown of the text in front of a fence reaches past it. -/
structure Sight.Fenced (sight : Sight) (text : Text) (fence : Nat) : Prop where
  matched : ∀ {pattern : Pattern} {here length : Nat}, here ≤ fence → ¬ sight.hides here →
    pattern.lengthIn? text here = some length → here + length ≤ fence
  granted : ∀ {here : Nat}, here ≤ fence → sight.grants here → here < fence

/-- The first of the lost characters is a fence. -/
theorem Sight.missing_fenced {text : Text} {lost : Nat → Prop} {fence : Nat} (capacity : Nat)
    (hlost : lost fence) (hlt : fence < text.length) :
    (Sight.missing text lost capacity).Fenced text fence where
  matched := by
    intro pattern here length hle hshown hlength
    have hline := Pattern.lengthIn?_le hlength (by omega)
    have hstart := lineAt_start_le text here
    refine Nat.le_of_not_lt fun hpast => hshown ⟨fence, hlost, by omega, by omega⟩
  granted := by
    rintro here hle ⟨first, hfirst, hin, hfree⟩
    have := hfree fence hlost (by omega)
    omega

/-- The spans end at the fence or in front of it. -/
def EndBy (fence : Nat) (spans : List Span) : Prop :=
  ∀ span ∈ spans, span.offset + span.length ≤ fence

theorem endBy_append {fence : Nat} {spans more : List Span} :
    EndBy fence (spans ++ more) ↔ EndBy fence spans ∧ EndBy fence more :=
  List.forall_mem_append

theorem endBy_piece {fence : Nat} {span : Span} (h : span.offset + span.length ≤ fence) :
    EndBy fence (piece span) := by
  unfold piece
  split
  · exact List.forall_mem_singleton.mpr h
  · exact fun _ hspan => by cases hspan

/-! ## Walks in front of a fence -/

/-- A passage with all that it queues and parks ends at the fence or in front of it. -/
structure Passage.EndsBy (passage : Passage) (fence : Nat) : Prop where
  spans : EndBy fence passage.spans
  stop_le : passage.stop ≤ fence
  parked : ∀ waiting, passage.parked = some waiting →
    waiting.stop ≤ fence ∧ EndBy fence (piece waiting.delimiter)

/-- Regions that start in front of the fence pass no text behind it. -/
def EntersEndBy (fence : Nat) (enters : Region → List Region → Nat → Nat → Passage → Prop) :
    Prop :=
  ∀ ⦃region openRegions stop here passage⦄, here ≤ fence →
    enters region openRegions stop here passage → passage.EndsBy fence

variable {grammar : Grammar} {text : Text} {sight : Sight} {fence : Nat}
  {enters : Region → List Region → Nat → Nat → Passage → Prop} {region : Region}
  {openRegions outer : List Region} {rules : List Rule} {passage : Passage} {pattern : Pattern}
  {stop here pending start length : Nat} {started : Bool}

theorem Passage.EndsBy.behind {spans : List Span} (h : passage.EndsBy fence)
    (hspans : EndBy fence spans) : (passage.behind spans).EndsBy fence :=
  ⟨endBy_append.mpr ⟨hspans, h.spans⟩, h.stop_le, h.parked⟩

theorem Sight.Fenced.finds (hfence : sight.Fenced text fence) (hhere : here ≤ fence)
    (h : sight.Finds text pattern here stop (some length)) : here + length ≤ fence := by
  have hlength := h.length.1
  rcases h with ⟨hshown, _⟩ | ⟨_, hnone⟩
  · exact hfence.matched hhere hshown hlength
  · cases hnone

theorem Sight.Fenced.claims (hfence : sight.Fenced text fence) (hhere : here ≤ fence)
    (h : sight.Claims text pattern here stop (some length)) : here + length ≤ fence := by
  have hlength := h.length.1
  rcases h with ⟨hshown, _⟩ | ⟨_, hnone⟩
  · exact hfence.matched hhere hshown hlength
  · cases hnone

theorem Tries.endsBy (hfence : sight.Fenced text fence) (henters : EntersEndBy fence enters)
    (hhere : here ≤ fence)
    (h : Tries grammar text sight enters openRegions stop here rules started (some passage)) :
    passage.EndsBy fence := by
  generalize hfound : some passage = found at h
  induction h with
  | done => cases hfound
  | skip _ _ ih => exact ih hfound
  | reject _ _ _ ih => exact ih hfound
  | word hclaims _ =>
    cases hfound
    have hle := hfence.claims hhere hclaims
    exact ⟨List.forall_mem_singleton.mpr hle, hle, fun _ hparked => by cases hparked⟩
  | enter _ _ henter =>
    cases hfound
    exact henters hhere henter

theorem OuterEnd.endsBy {found : Region} (hfence : sight.Fenced text fence) (hhere : here ≤ fence)
    (h : OuterEnd text sight stop here outer (some (found, length))) : here + length ≤ fence := by
  generalize hresult : some (found, length) = result at h
  induction h with
  | none => cases hresult
  | sealed _ => cases hresult
  | found _ hfinds =>
    cases hresult
    exact hfence.finds hhere hfinds
  | further _ _ _ ih => exact ih hresult

theorem Interior.endsBy (hfence : sight.Fenced text fence) (henters : EntersEndBy fence enters)
    (hhere : here ≤ fence) (hpending : pending ≤ here)
    (h : Interior grammar text sight enters region outer stop here pending passage) :
    passage.EndsBy fence := by
  -- Content that is pending ends where the walk is.
  have hcontent : ∀ {here pending : Nat}, here ≤ fence → pending ≤ here →
      EndBy fence (piece ⟨region.contentToken, pending, here - pending⟩) := fun hhere hpending =>
    endBy_piece (by dsimp only; omega)
  induction h with
  | ownEnd _ hfinds =>
    have hle := hfence.finds hhere hfinds
    exact ⟨endBy_append.mpr ⟨hcontent hhere hpending, endBy_piece hle⟩, hle,
      fun _ hparked => by cases hparked⟩
  | outerEnd _ _ houter =>
    have hle := houter.endsBy hfence hhere
    refine ⟨hcontent hhere hpending, hhere, ?_⟩
    rintro waiting ⟨⟩
    exact ⟨hle, endBy_piece hle⟩
  | onward _ htries _ _ ih =>
    have hends := htries.endsBy hfence henters hhere
    exact (ih hends.stop_le (Nat.le_refl _)).behind
      (endBy_append.mpr ⟨hcontent hhere hpending, hends.spans⟩)
  | taken _ _ htries hparked _ =>
    have hends := htries.endsBy hfence henters hhere
    obtain ⟨hstop, hdelimiter⟩ := hends.parked _ hparked
    exact ⟨endBy_append.mpr ⟨endBy_append.mpr ⟨hcontent hhere hpending, hends.spans⟩, hdelimiter⟩,
      hstop, fun _ hnone => by cases hnone⟩
  | passed _ _ htries _ _ =>
    exact (htries.endsBy hfence henters hhere).behind (hcontent hhere hpending)
  | @char here pending started rest _ _ _ hgrants _ ih =>
    have hlt := hfence.granted hhere hgrants
    refine (ih hlt (by split <;> omega)).behind ?_
    split
    · exact hcontent hhere hpending
    · exact fun _ hspan => by cases hspan
  | stopped _ _ _ =>
    exact ⟨hcontent hhere hpending, hhere, fun _ hparked => by cases hparked⟩

theorem Seeks.endsBy (hfence : sight.Fenced text fence) (hhere : here ≤ fence)
    (h : Seeks text sight pattern stop here start length) : start + length ≤ fence := by
  induction h with
  | found hfinds => exact hfence.finds hhere hfinds
  | further _ _ hgrants _ ih => exact ih (hfence.granted hhere hgrants)
  | ended _ _ => exact hhere

theorem EntersOnce.endsBy (hfence : sight.Fenced text fence) (henters : EntersEndBy fence enters) :
    EntersEndBy fence (EntersOnce grammar text sight enters) := by
  intro region openRegions stop here passage hhere h
  cases h with
  | region _ hclaims hinterior =>
    have hle := hfence.claims hhere hclaims
    exact (hinterior.endsBy hfence henters hle (Nat.le_refl _)).behind
      (List.forall_mem_singleton.mpr hle)
  | block _ hclaims hseeks hinterior =>
    have hle := hfence.claims hhere hclaims
    have hend := hseeks.endsBy hfence hle
    have hinside := hinterior.endsBy hfence henters hle (Nat.le_refl _)
    exact ⟨endBy_append.mpr ⟨List.forall_mem_cons.mpr ⟨hle, hinside.spans⟩, endBy_piece hend⟩,
      hend, fun _ hparked => by cases hparked⟩

theorem EntersWithin.endsBy (hfence : sight.Fenced text fence) (depth : Nat) :
    EntersEndBy fence (EntersWithin grammar text sight depth) := by
  induction depth with
  | zero => exact fun _ _ _ _ _ _ h => h.elim
  | succ depth ih => exact EntersOnce.endsBy hfence ih

theorem Enters.endsBy (hfence : sight.Fenced text fence) :
    EntersEndBy fence (Enters grammar text sight) := fun _ _ _ _ _ hhere ⟨depth, h⟩ =>
  EntersWithin.endsBy hfence depth hhere h

theorem Strides.endsBy {spans : List Span} {last : Nat} (hfence : sight.Fenced text fence)
    (hhere : here ≤ fence) (h : Strides grammar text sight openRegions stop here spans last) :
    EndBy fence spans ∧ last ≤ fence := by
  induction h with
  | stay => exact ⟨fun _ hspan => (by cases hspan), hhere⟩
  | claim htries _ ih =>
    have hends := htries.endsBy hfence (Enters.endsBy hfence) hhere
    obtain ⟨hspans, hlast⟩ := ih hends.stop_le
    exact ⟨endBy_append.mpr ⟨hends.spans, hspans⟩, hlast⟩
  | char _ _ hgrants _ ih =>
    have hlt := hfence.granted hhere hgrants
    obtain ⟨hspans, hlast⟩ := ih hlt
    exact ⟨List.forall_mem_cons.mpr ⟨hlt, hspans⟩, hlast⟩

/-! ## Tokens in front of a fence -/

/-- The scan is in front of a fence in its range, with all that it has queued. -/
structure Scanner.InFront (scanner : Scanner Region) (grammar : Grammar) (text : Text)
    (sight : Sight) (fence : Nat) : Prop where
  sees : scanner.Sees text sight
  rest : scanner.AtRest grammar
  queue : EndBy fence scanner.queue
  mark_le : scanner.mark ≤ fence
  lt_end : fence < scanner.rangeEnd

/-- So many tokens come through, none of them `eof` and each of them in front of the fence; then
the scan stops at a character in front of the fence, or at the fence, that cannot be read. -/
def Grammar.StopsShort (grammar : Grammar) (fence stopped : Nat) (scanner after : Scanner Region) :
    Prop :=
  stopped ≤ fence ∧ ∃ count,
    (∀ earlier < count, ∃ token middle,
      grammar.nextToken (grammar.behind earlier scanner) = .ok token middle ∧ token ≠ .eof ∧
        middle.tokenOffset + middle.tokenLength ≤ fence) ∧
    grammar.nextToken (grammar.behind count scanner) =
      .error (.failed (.unreadable stopped)) after

variable {scanner middle after : Scanner Region} {stopped : Nat}

theorem Grammar.StopsShort.now (hle : stopped ≤ fence)
    (hnext : grammar.nextToken scanner = .error (.failed (.unreadable stopped)) after) :
    grammar.StopsShort fence stopped scanner after :=
  ⟨hle, 0, fun _ hlt => absurd hlt (Nat.not_lt_zero _), hnext⟩

theorem Grammar.StopsShort.token {token : Token}
    (hnext : grammar.nextToken scanner = .ok token middle) (htoken : token ≠ .eof)
    (hend : middle.tokenOffset + middle.tokenLength ≤ fence)
    (h : grammar.StopsShort fence stopped middle after) :
    grammar.StopsShort fence stopped scanner after := by
  obtain ⟨hle, count, hpassed, hstops⟩ := h
  have hbehind : ∀ more, grammar.behind (more + 1) scanner = grammar.behind more middle := by
    intro more
    rw [Grammar.behind, Scan.after, hnext]
  refine ⟨hle, count + 1, fun earlier hlt => ?_, hbehind count ▸ hstops⟩
  cases earlier with
  | zero => exact ⟨token, middle, hnext, htoken, hend⟩
  | succ earlier =>
    rw [hbehind]
    exact hpassed earlier (Nat.lt_of_succ_lt_succ hlt)

section

variable (hcustoms : grammar.customs = []) (hbegins : grammar.BeginsDefined)
  (heof : ¬ grammar.Gives .eof) (hfence : sight.Fenced text fence)

include hcustoms hbegins heof hfence

/-- In front of a fence there is another token in front of it, or the character at the mark cannot
be read. -/
theorem nextToken_inFront (h : scanner.InFront grammar text sight fence) :
    (∃ token after, grammar.nextToken scanner = .ok token after ∧ token ≠ .eof ∧
      after.tokenOffset + after.tokenLength ≤ fence ∧ after.InFront grammar text sight fence ∧
      after.rangeEnd = scanner.rangeEnd ∧ (scanner.mark < after.mark ∨
        after.mark = scanner.mark ∧ after.queue.length < scanner.queue.length)) ∨
    ∃ after, grammar.nextToken scanner = .error (.failed (.unreadable scanner.mark)) after := by
  have hmark := h.mark_le
  have hrange := h.lt_end
  rcases nextToken_cases hcustoms hbegins h.sees h.rest.parked_eq with
    ⟨span, after, hnext, hoffset, hlength, hpassed⟩ | ⟨after, _, hend, _⟩ | ⟨after, hnext, _⟩
  · left
    obtain ⟨hrest, hhands⟩ := (nextToken_leaves hcustoms hbegins h.rest).ok hnext
    obtain ⟨strides, hqueue, hstrides⟩ := hpassed.spans_eq
    obtain ⟨hends, hstop⟩ := hstrides.endsBy hfence hmark
    have hall := endBy_append.mpr ⟨h.queue, hends⟩
    rw [hqueue] at hall
    obtain ⟨hspan, hqueued⟩ := List.forall_mem_cons.mp hall
    refine ⟨span.token, after, hnext, ?_, by rw [hoffset, hlength]; exact hspan,
      ⟨hpassed.sees, hrest, hqueued, hstop, hpassed.rangeEnd_eq ▸ hrange⟩, hpassed.rangeEnd_eq, ?_⟩
    · rintro htoken
      rcases hhands with hgives | ⟨_, _, hover⟩
      · exact heof (htoken ▸ hgives)
      · omega
    · obtain ⟨hforward, _, hstill⟩ := hstrides.fits h.sees.mark_le
      rcases Nat.lt_or_eq_of_le hforward with hlt | heq
      · exact Or.inl hlt
      · rw [hstill heq, List.append_nil] at hqueue
        exact Or.inr ⟨heq.symm, by simp [hqueue]⟩
  · omega
  · exact Or.inr ⟨after, hnext⟩

end

/-! ## Whole runs -/

/-- Spans in front of a fence are joined without any sum of lengths that is too large. -/
theorem addToken_endBy {spans : List Span} (hspans : EndBy fence spans) (span : Span)
    (hspan : span.offset + span.length ≤ fence) (hsmall : fence ≤ maxOffset)
    (scanner : Scanner Region) :
    ∃ more, addToken spans span scanner = .ok more scanner ∧ EndBy fence more := by
  unfold addToken
  by_cases hnone : span.length = 0
  · rw [if_pos hnone]
    exact ⟨spans, rfl, hspans⟩
  · rw [if_neg hnone]
    rcases spans with _ | ⟨last, earlier⟩
    · exact ⟨[span], rfl, List.forall_mem_singleton.mpr hspan⟩
    · obtain ⟨hlast, hearlier⟩ := List.forall_mem_cons.mp hspans
      have hmore : EndBy fence (span :: last :: earlier) := List.forall_mem_cons.mpr ⟨hspan, hspans⟩
      have hstop : last.stop? = some (last.offset + last.length) := by
        unfold Span.stop?
        exact if_pos (by omega)
      dsimp only
      rw [hstop]
      dsimp only
      by_cases htoken : last.token = span.token
      · rw [if_pos htoken]
        by_cases hmeet : last.offset + last.length = span.offset
        · rw [if_pos hmeet, if_neg (by omega)]
          exact ⟨_, rfl, List.forall_mem_cons.mpr ⟨by dsimp only; omega, hearlier⟩⟩
        · rw [if_neg hmeet]
          exact ⟨_, rfl, hmore⟩
      · rw [if_neg htoken]
        exact ⟨_, rfl, hmore⟩

section

variable (hcustoms : grammar.customs = []) (hbegins : grammar.BeginsDefined)
  (heof : ¬ grammar.Gives .eof) (hfence : sight.Fenced text fence)

include hcustoms hbegins heof hfence

theorem addTokens_inFront (count : Nat) {spans : List Span} (hspans : EndBy fence spans)
    (h : scanner.InFront grammar text sight fence) :
    (∃ stopped after, grammar.addTokens count spans scanner =
      .error (.failed (.unreadable stopped)) after ∧
      grammar.StopsShort fence stopped scanner after) ∨
    ∃ more after, grammar.addTokens count spans scanner = .ok (more, false) after ∧
      EndBy fence more ∧ after.InFront grammar text sight fence ∧
      after.rangeEnd = scanner.rangeEnd ∧ (scanner.mark < after.mark ∨
        after.mark = scanner.mark ∧ after.queue.length + count ≤ scanner.queue.length) ∧
      ∀ stopped final, grammar.StopsShort fence stopped after final →
        grammar.StopsShort fence stopped scanner final := by
  induction count generalizing scanner spans with
  | zero => exact Or.inr ⟨spans, scanner, rfl, hspans, h, rfl, Or.inr ⟨rfl, Nat.le_refl _⟩,
      fun _ _ => id⟩
  | succ count ih =>
    have hmark := h.mark_le
    have hend := h.sees.end_le
    have hsmall := h.sees.shows.small
    have hrange := h.lt_end
    rcases nextToken_inFront hcustoms hbegins heof hfence h with
      ⟨token, middle, hnext, htoken, hbefore, hmiddle, hsame, hprogress⟩ | ⟨after, hnext⟩
    · obtain ⟨more, hadd, hmore⟩ := addToken_endBy hspans
        ⟨token, middle.tokenOffset, middle.tokenLength⟩ hbefore (by omega) middle
      have hone : grammar.addNext spans scanner = .ok (some more) middle := by
        have hgoes : token.isEof = false := by rcases heq : token <;> simp_all [Token.isEof]
        unfold Grammar.addNext
        rw [Scan.bind_of_ok hnext, hgoes, if_neg (by decide), Scan.get_bind, Scan.bind_of_ok hadd]
        rfl
      have hfirst : grammar.addTokens (count + 1) spans scanner =
          grammar.addTokens count more middle := by
        rw [Grammar.addTokens, Scan.bind_of_ok hone]
      rw [hfirst]
      rcases ih hmore hmiddle with ⟨stopped, after, hstops, hshort⟩ |
        ⟨all, after, hadded, hall, hafter, hrangeEnd, hprogress', hon⟩
      · exact Or.inl ⟨stopped, after, hstops, hshort.token hnext htoken hbefore⟩
      · exact Or.inr ⟨all, after, hadded, hall, hafter, hrangeEnd.trans hsame, by omega,
          fun stopped final hshort => (hon stopped final hshort).token hnext htoken hbefore⟩
    · left
      refine ⟨scanner.mark, after, ?_, .now hmark hnext⟩
      rw [Grammar.addTokens, Grammar.addNext]
      exact Scan.bind_of_error (Scan.bind_of_error hnext)

theorem addAll_inFront (turns : Nat) {spans : List Span} (hspans : EndBy fence spans)
    (h : scanner.InFront grammar text sight fence)
    (hturns : scanner.rangeEnd - scanner.mark < turns) :
    ∃ stopped after, grammar.addAll turns spans scanner =
      .error (.failed (.unreadable stopped)) after ∧
      grammar.StopsShort fence stopped scanner after := by
  induction turns generalizing scanner spans with
  | zero => omega
  | succ turns ih =>
    rw [Grammar.addAll, Scan.get_bind]
    rcases addTokens_inFront hcustoms hbegins heof hfence (scanner.queue.length + 1) hspans h with
      ⟨stopped, after, hstops, hshort⟩ | ⟨more, after, hadded, hmore, hafter, hsame, hprogress, hon⟩
    · exact ⟨stopped, after, Scan.bind_of_error hstops, hshort⟩
    · have hmark := h.mark_le
      have hrange := h.lt_end
      obtain ⟨stopped, final, hstops, hshort⟩ := ih hmore hafter (by omega)
      refine ⟨stopped, final, ?_, hon stopped final hshort⟩
      rw [Scan.bind_of_ok hadded]
      exact hstops

theorem tokenize_inFront (h : scanner.InFront grammar text sight fence) :
    ∃ stopped after, grammar.tokenize scanner = .error (.failed (.unreadable stopped)) after ∧
      grammar.StopsShort fence stopped scanner after := by
  have hnothing : EndBy fence [] := fun _ hspan => by cases hspan
  obtain ⟨stopped, after, hstops, hshort⟩ := addAll_inFront hcustoms hbegins heof hfence
    (turnsLeft scanner) hnothing h (by unfold turnsLeft; omega)
  refine ⟨stopped, after, ?_, hshort⟩
  rw [Grammar.tokenize, Scan.get_bind]
  exact Scan.bind_of_error hstops

end

/-! ## The law -/

/-- A fresh scanner that has been given a range of a document, as a whole or from inside a
partition, stands in the range with nothing found yet. -/
theorem Call.fresh_sees {document other : Document} {settings : Settings} {call : Call Region}
    (hshows : document.Shows settings.capacity text sight)
    (hset : call.document? = some document)
    (h : call.step (.fresh other settings) = .ok () scanner) :
    scanner.Sees text sight ∧ scanner.queue = [] ∧ scanner.parked = none ∧
      scanner.openRegions = [] := by
  cases call <;> cases hset
  case assign offset length =>
    obtain ⟨hs, _, _, hclear⟩ := Scanner.fresh_assign_sees hshows (Scan.ofTrial_eq_ok.mp h)
    exact ⟨hs, hclear⟩
  case assignPart offset length contentType partitionStart =>
    obtain ⟨found, hfound, rfl⟩ := Scanner.assignPart_eq_ok (Scan.ofTrial_eq_ok.mp h)
    obtain ⟨hs, _, hend, hclear⟩ := Scanner.fresh_assign_sees hshows hfound
    refine ⟨⟨⟨hs.current.window, hs.current.place⟩, hs.shows, ?_, hs.end_le⟩, hclear⟩
    show offset ≤ found.rangeEnd
    omega

/-- The document is that of a text, but for characters that are lost. However its line texts and
windows fall, a scan of a range with such a character in it does not come to its end: every token
ends in front of all of them, and then the scan stops at a character that is no further, with the
mark there, nothing queued, and the stacks and the range as they were. -/
theorem a_lost_character_is_never_skipped {document other : Document} {doc : VersionedText}
    {lost : Nat → Prop} {settings : Settings} {call : Call Region}
    (hloses : document.Loses doc.toDocument lost) (hsmall : doc.text.length < maxOffset)
    (hcustoms : grammar.customs = []) (hbegins : grammar.BeginsDefined)
    (heof : ¬ grammar.Gives .eof) (hset : call.document? = some document)
    (hstart : call.step (.fresh other settings) = .ok () scanner)
    (hlost : ∃ o, lost o ∧ scanner.mark ≤ o ∧ o < scanner.rangeEnd) :
    ∃ stopped after, grammar.tokenize scanner = .error (.failed (.unreadable stopped)) after ∧
      (∀ o, lost o → scanner.mark ≤ o → o < scanner.rangeEnd →
        grammar.StopsShort o stopped scanner after) ∧
      after.mark = stopped ∧ after.queue = [] ∧ scanner.SameStacks after := by
  obtain ⟨hs, hqueue, hparked, hopen⟩ :=
    Call.fresh_sees (hloses.shows settings.capacity hsmall) hset hstart
  have hrest : scanner.AtRest grammar := .of_nothing hqueue hparked hopen
  -- Every lost character of the range is a fence.
  have hshort : ∀ o, lost o → scanner.mark ≤ o → o < scanner.rangeEnd →
      ∃ stopped after, grammar.tokenize scanner = .error (.failed (.unreadable stopped)) after ∧
        grammar.StopsShort o stopped scanner after := by
    intro o ho hmark hend
    have hle := hs.end_le
    refine tokenize_inFront hcustoms hbegins heof
      (Sight.missing_fenced settings.capacity ho (by omega)) ⟨hs, hrest, ?_, by omega, by omega⟩
    rw [hqueue]
    exact fun _ hspan => by cases hspan
  obtain ⟨o, ho, hmark, hend⟩ := hlost
  obtain ⟨stopped, after, hstops, _⟩ := hshort o ho hmark hend
  obtain ⟨hstopped, hclear⟩ :=
    (tokenize_leaves hcustoms hbegins heof hrest).failed hstops stopped rfl
  refine ⟨stopped, after, hstops, fun o ho hmark hend => ?_, hstopped, hclear.queue_eq,
    (Scan.Neutral.inherited.tokenize (.of_nil hcustoms)).of_failed hstops⟩
  obtain ⟨_, _, hsame, hshort⟩ := hshort o ho hmark hend
  cases hstops.symm.trans hsame
  exact hshort

/-- Two brackets that are opened and not closed in front of a hole. -/
def PatchyDocument.torn : PatchyDocument := .holed ['(', '[', '\n', 'a', 'b', 'c'] [(5, 6)]

/-- The start of a scan over it. -/
def Scanner.facingHole : Scanner Region :=
  { Scanner.fresh PatchyDocument.torn.toDocument ⟨2, Nat.two_pos⟩ with
    window := ⟨#['(', '['], 0, 2, Nat.two_pos⟩, rangeEnd := 6, tally := ⟨1, 0⟩ }

/-- The window would be filled from the character in front of the hole on, so the scan stops at
that character. -/
theorem a_hole_behind_brackets_is_not_skipped :
    (Call.assign PatchyDocument.torn.toDocument 0 6).step
      (.fresh PatchyDocument.torn.toDocument ⟨2, Nat.two_pos⟩) = .ok () .facingHole ∧
    ∃ after, Grammar.brackets.tokenize .facingHole = .error (.failed (.unreadable 4)) after ∧
      Grammar.brackets.StopsShort 5 4 .facingHole after ∧ after.mark = 4 ∧ after.queue = [] ∧
      Scanner.facingHole.SameStacks after := by
  have hstart : (Call.assign PatchyDocument.torn.toDocument 0 6).step
      (.fresh PatchyDocument.torn.toDocument ⟨2, Nat.two_pos⟩) = .ok () .facingHole := rfl
  have hlost : PatchyDocument.torn.Unreadable 5 := ⟨(5, 6), by decide, by decide⟩
  obtain ⟨stopped, after, hstops, hshort, hmark, hqueue, hsame⟩ :=
    a_lost_character_is_never_skipped (PatchyDocument.torn.toDocument_loses rfl rfl) (by decide)
      Grammar.brackets_plain.customs Grammar.brackets_begin Grammar.brackets_lack_eof rfl hstart
      ⟨5, hlost, by decide⟩
  have hresult : Grammar.brackets.tokenize.result .facingHole =
      .error (.failed (.unreadable 4)) := by decide +kernel
  cases (Scan.result_eq_error.mp hresult).symm.trans hstops
  exact ⟨hstart, _, hstops, hshort 5 hlost (by decide) (by decide), hmark, hqueue, hsame⟩

end RegionScan
