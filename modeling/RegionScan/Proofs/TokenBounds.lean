-- Tokens keep to the bounds that rules keep to. From token to token a scan hands out
-- what is queued or moves its mark forward, until it is at the end of its range or at
-- a character that its document withholds.
import RegionScan.Proofs.RuleBounds
import RegionScan.Proofs.TokenWalks

namespace RegionScan

variable {grammar : Grammar} {clash : Prop} {text : Text} {limit : Nat}
  {scanner middle after : Scanner Region}

/-! ## One token -/

/-- What every token leaves as it was, and the bounds that hold again behind it. -/
structure Scanner.Handed (clash : Prop) (text : Text) (limit : Nat)
    (scanner after : Scanner Region) : Prop where
  within : after.Within text limit
  calm : clash ∨ after.Calm
  rangeEnd_eq : after.rangeEnd = scanner.rangeEnd
  openRegions_eq : after.openRegions = scanner.openRegions
  document_eq : after.document = scanner.document
  capacity_eq : after.window.capacity = scanner.window.capacity

/-- What is shown as the token does not matter, nor what is queued. -/
theorem Scanner.Handed.showing (h : scanner.Handed clash text limit after) (queue : List Span)
    (token : Option Token) (currentSpan : Option Span) :
    scanner.Handed clash text limit { after with queue, token, currentSpan } where
  within := ⟨⟨h.within.current.1, h.within.current.2⟩, h.within.holds, h.within.small,
    h.within.limit_le, h.within.mark_le, h.within.end_le, h.within.parked_le⟩
  calm := h.calm.imp_right fun h => ⟨h.mark_le, h.parked_eq⟩
  rangeEnd_eq := h.rangeEnd_eq
  openRegions_eq := h.openRegions_eq
  document_eq := h.document_eq
  capacity_eq := h.capacity_eq

/-- The rules leave a token's state as they leave the state in which they are tried. -/
theorem Scanner.Moved.handed (h : scanner.tokenStarted.Moved after text limit)
    (hcalm : clash ∨ after.Calm) : scanner.Handed clash text limit after :=
  ⟨h.within, hcalm, h.rangeEnd_eq, h.openRegions_eq, h.document_eq, h.capacity_eq⟩

/-- A fault among the rules ends the scan. -/
theorem nextToken_stopped {halt : Halt} {tried : Scanner Region} (hqueue : scanner.queue = [])
    (htry : grammar.tryAll scanner.mark scanner.tokenStarted = .error halt tried) :
    grammar.nextToken scanner = .error halt tried := by
  rw [nextToken_of_nil hqueue]
  exact Scan.bind_of_error htry

/-- A token shortens the queue, or moves the mark forward in the range, or is the last one. -/
def Scanner.Progress (scanner : Scanner Region) (token : Token) (after : Scanner Region) : Prop :=
  (after.mark = scanner.mark ∧ after.queue.length < scanner.queue.length) ∨
    (scanner.mark < scanner.rangeEnd ∧ scanner.mark < after.mark) ∨ token = .eof

/-- What comes of the next token: it is handed out, or the character at the mark cannot be read,
or a second end is parked, if that can be. -/
def Grammar.HandsOn (grammar : Grammar) (clash : Prop) (text : Text) (limit : Nat)
    (scanner : Scanner Region) : Prop :=
  (∃ token after, grammar.nextToken scanner = .ok token after ∧
    scanner.Handed clash text limit after ∧ scanner.Progress token after) ∨
  (∃ after, grammar.nextToken scanner = .error (.failed (.unreadable scanner.mark)) after ∧
    scanner.Handed clash text limit after ∧ scanner.mark < scanner.rangeEnd ∧
    scanner.document.Withholds scanner.window.capacity scanner.mark) ∨
  (clash ∧ ∃ after, grammar.nextToken scanner = .error (.faulted .endAlreadyParked) after)

/-- Where no rule claims anything there is one character, the end of the range, or neither. -/
theorem nextToken_unclaimed {left : Nat} {tried : Scanner Region} (hqueue : scanner.queue = [])
    (htry : grammar.tryAll scanner.mark scanner.tokenStarted = .ok (none, left) tried)
    (hmoved : scanner.tokenStarted.Moved tried text limit) (hback : tried.mark = scanner.mark)
    (hcalm : clash ∨ tried.Calm) : grammar.HandsOn clash text limit scanner := by
  have hs := hmoved.within
  have hend := hs.end_le
  have hrange : tried.rangeEnd = scanner.rangeEnd := hmoved.rangeEnd_eq
  have hdocument : tried.document = scanner.document := hmoved.document_eq
  have hcapacity : tried.window.capacity = scanner.window.capacity := hmoved.capacity_eq
  obtain ⟨char, read, hread, hsome, hnone⟩ := read_bounded hs
  rcases char with _ | c
  · obtain ⟨hover, hstay⟩ := hnone rfl
    have hnext := nextToken_none hqueue htry hread
    rw [hstay.rangeEnd_eq, hback, hrange] at hnext
    have hcalmBack : clash ∨ read.stepBack.Calm := hcalm.imp_right fun h => by
      rw [h.parked_eq] at hstay
      exact hstay.calm h.mark_le
    have hhanded := (hmoved.trans (hstay.moved (hstay.keeps hs hs.mark_le))).handed hcalmBack
    by_cases hlt : scanner.mark < scanner.rangeEnd
    · rw [if_pos hlt] at hnext
      rw [hback, hrange, hdocument, hcapacity] at hover
      exact Or.inr (Or.inl ⟨_, hnext, hhanded, hlt, hover.resolve_left (Nat.not_le_of_lt hlt)⟩)
    · rw [if_neg hlt] at hnext
      exact Or.inl ⟨_, _, hnext, hhanded.showing _ _ _, Or.inr (Or.inr rfl)⟩
  · obtain ⟨hlt, hstep⟩ := hsome rfl
    have hcalmRead : clash ∨ read.Calm := hcalm.imp_right fun h => by
      rw [h.parked_eq] at hstep
      exact hstep.calm hlt
    have hhanded := (hmoved.trans (hstep.moved (hstep.keeps hs (by omega)))).handed hcalmRead
    refine Or.inl ⟨_, _, nextToken_char hqueue htry hread, hhanded.showing _ _ _,
      Or.inr (Or.inl ⟨by omega, ?_⟩)⟩
    show scanner.mark < read.mark
    rw [hstep.mark_eq, hback]
    exact Nat.lt_succ_self _

theorem nextToken_bounded (hcustoms : grammar.customs = [])
    (hbegins : clash ∨ grammar.BeginsDefined) (hs : scanner.Within text limit)
    (hcalm : clash ∨ scanner.Calm) : grammar.HandsOn clash text limit scanner := by
  rcases hqueue : scanner.queue with _ | ⟨span, rest⟩
  · -- Nothing is queued, so the rules get their turn.
    have hsfirst : scanner.tokenStarted.Within text limit :=
      ⟨⟨hs.current.1, hs.current.2⟩, hs.holds, hs.small, hs.limit_le, hs.mark_le, hs.end_le,
        hs.parked_le⟩
    have hcalmFirst : clash ∨ scanner.tokenStarted.Calm :=
      hcalm.imp_right fun hcalm => ⟨hcalm.mark_le, hcalm.parked_eq⟩
    rcases tryRules_bounded hcustoms (attempt_bounded hcustoms hbegins _) none grammar.rules
      hsfirst hcalmFirst rfl (Nat.lt_succ_self _) (Nat.le_refl _) with
      ⟨⟨claimed, left⟩, tried, htry, htried⟩ | ⟨hclash, tried, htry⟩
    · rcases claimed with _ | token
      · exact nextToken_unclaimed hqueue htry htried.moved (htried.unclaimed rfl).1
          (htried.calm hcalmFirst rfl)
      · -- The first span of what a rule has claimed is handed out, and nothing stays parked.
        obtain ⟨hforward, hlt, hsettled⟩ := htried.claimed token rfl
        obtain ⟨span, rest, hspans⟩ := List.exists_cons_of_ne_nil (htried.queued token rfl)
        obtain ⟨spans, hwalked⟩ := htried.moved.walked
        have hunparked := hwalked.still (unpark_walks hwalked.current)
        have hcalmAfter : clash ∨ tried.unpark.Calm :=
          hsettled.imp_right fun h => ⟨h.mark_le, rfl⟩
        have hhanded := (hunparked.moved (hunparked.within hsfirst htried.moved.within.mark_le
          (by simp))).handed hcalmAfter
        exact Or.inl ⟨_, _, nextToken_claimed hqueue htry hspans, hhanded.showing _ _ _,
          Or.inr (Or.inl ⟨hlt, hforward⟩)⟩
    · exact Or.inr (Or.inr ⟨hclash, tried, nextToken_stopped hqueue htry⟩)
  · have hstay : scanner.Handed clash text limit scanner := ⟨hs, hcalm, rfl, rfl, rfl, rfl⟩
    refine Or.inl ⟨_, _, nextToken_queued hqueue, hstay.showing _ _ _,
      Or.inl ⟨rfl, ?_⟩⟩
    simp [hqueue, Scanner.setCurrentSpan]

/-! ## Runs -/

/-- The state behind so many tokens; one that is refused counts as well. -/
def Grammar.behind (grammar : Grammar) : Nat → Scanner Region → Scanner Region
  | 0, scanner => scanner
  | count + 1, scanner => grammar.behind count (grammar.nextToken.after scanner)

theorem Scanner.Handed.trans (h : scanner.Handed clash text limit middle)
    (hmore : middle.Handed clash text limit after) : scanner.Handed clash text limit after :=
  ⟨hmore.within, hmore.calm, hmore.rangeEnd_eq.trans h.rangeEnd_eq,
    hmore.openRegions_eq.trans h.openRegions_eq, hmore.document_eq.trans h.document_eq,
    hmore.capacity_eq.trans h.capacity_eq⟩

theorem Grammar.HandsOn.handed (h : grammar.HandsOn False text limit scanner) :
    scanner.Handed False text limit (grammar.nextToken.after scanner) := by
  rcases h with ⟨token, after, hnext, hhanded, _⟩ | ⟨after, hnext, hhanded, _⟩ | ⟨hclash, _⟩
  · rw [Scan.after, hnext]
    exact hhanded
  · rw [Scan.after, hnext]
    exact hhanded
  · exact hclash.elim

/-- The bounds hold behind every number of tokens. -/
theorem behind_bounded (hcustoms : grammar.customs = []) (hbegins : grammar.BeginsDefined)
    (hs : scanner.Within text limit) (hcalm : scanner.Calm) (count : Nat) :
    scanner.Handed False text limit (grammar.behind count scanner) := by
  induction count generalizing scanner with
  | zero => exact ⟨hs, Or.inr hcalm, rfl, rfl, rfl, rfl⟩
  | succ count ih =>
    have hone := (nextToken_bounded hcustoms (Or.inr hbegins) hs (Or.inr hcalm)).handed
    exact hone.trans (ih hone.within (hone.calm.resolve_left id))

end RegionScan
