-- A finished scanner is as good as new. Setting a range resets only a part of the
-- scanner; the rest is what the last scan has left behind, which is nothing that the
-- next one could notice.
import RegionScan.Proofs.WindowIndependence
import RegionScan.Proofs.LostCharacters

namespace RegionScan

variable {grammar next : Grammar} {scanner after again : Scanner Region}

/-! ## What is cleared anyway -/

/-- With no token under way. -/
def Scanner.cleared (scanner : Scanner Region) : Scanner Region :=
  { scanner with token := none, currentSpan := none }

/-- What follows a step sees of two states only what the step makes of them. -/
theorem Scan.bind_congr {α β : Type} {step : RuleScan α} {next : α → RuleScan β}
    {scanner other : Scanner Region} (h : step scanner = step other) :
    (step >>= next) scanner = (step >>= next) other := by
  simp only [Bind.bind, EStateM.bind, h]

/-- A token that is not taken from the queue clears the token before it. -/
theorem nextToken_cleared (hqueue : scanner.queue = []) :
    grammar.nextToken scanner = grammar.nextToken scanner.cleared := by
  have hcleared : scanner.cleared.queue = [] := hqueue
  rw [nextToken_of_nil hqueue, nextToken_of_nil hcleared]
  rfl

theorem tokenize_cleared (hqueue : scanner.queue = []) :
    grammar.tokenize scanner = grammar.tokenize scanner.cleared := by
  have hfirst : grammar.addTokens 1 [] scanner = grammar.addTokens 1 [] scanner.cleared :=
    Scan.bind_congr (Scan.bind_congr (nextToken_cleared hqueue))
  have hcleared : scanner.cleared.queue = [] := hqueue
  unfold Grammar.tokenize
  rw [Scan.get_bind, Scan.get_bind]
  apply Scan.bind_congr
  unfold turnsLeft Grammar.addAll
  rw [Scan.get_bind, Scan.get_bind, hqueue, hcleared]
  exact Scan.bind_congr hfirst

/-! ## Setting the range again -/

/-- Whether a range is set depends on the document alone. -/
theorem Scanner.assign_accepts {first : Scanner Region} {document : Document}
    {offset length : Nat} (h : first.assign document offset length = .ok () again)
    (second : Scanner Region) : ∃ new, second.assign document offset length = .ok () new := by
  exact ⟨_, Scanner.assign_eq_ok_iff.mpr ⟨(Scanner.assign_eq_ok_iff.mp h).1, rfl⟩⟩

/-- A range of a text makes a scanner with nothing left over like a fresh one, but for the token
under way and the last match. -/
theorem Scanner.Clear.assign_alike {document : Document} {settings : Settings}
    {doc : VersionedText} {offset length : Nat} {new : Scanner Region} (h : after.Clear)
    (hopen : after.openRegions = []) (hframes : after.frames = [])
    (hagain : after.assign doc.toDocument offset length = .ok () again)
    (hnew : (Scanner.fresh document settings).assign doc.toDocument offset length = .ok () new) :
    again.queue = [] ∧ again.cleared.Alike (fun _ _ => True) new := by
  obtain ⟨hs, tally, rfl⟩ := Scanner.assign_text hagain
  obtain ⟨ho, tally', rfl⟩ := Scanner.assign_text hnew
  refine ⟨h.queue_eq, ⟨doc, rfl⟩, rfl, ⟨hs.1, hs.2⟩, ho, ?_, ?_, trivial⟩
  · exact ⟨rfl, rfl, rfl, rfl, rfl, h.queue_eq, hopen, h.parked_eq⟩
  · show List.Forall₂ _ after.frames []
    rw [hframes]
    exact .nil

/-- The scan has come to the end of its range, or to a character that cannot be read. -/
def Grammar.Finishes (grammar : Grammar) (scanner after : Scanner Region) : Prop :=
  (∃ spans, grammar.tokenize scanner = .ok spans after) ∨
    ∃ lost, grammar.tokenize scanner = .error (.failed (.unreadable lost)) after

/-- A scan that finishes leaves nothing behind that it has not found. -/
theorem Grammar.Finishes.leaves (hcustoms : grammar.customs = [])
    (hbegins : grammar.BeginsDefined) (heof : ¬ grammar.Gives .eof)
    (hrest : scanner.AtRest grammar) (h : grammar.Finishes scanner after) :
    after.Clear ∧ scanner.SameStacks after := by
  have hleaves := tokenize_leaves hcustoms hbegins heof hrest
  have hneutral : grammar.tokenize.Neutral := Scan.Neutral.inherited.tokenize (.of_nil hcustoms)
  rcases h with ⟨spans, htokenize⟩ | ⟨lost, htokenize⟩
  · exact ⟨hleaves.ok htokenize, hneutral.of_ok htokenize⟩
  · exact ⟨(hleaves.failed htokenize lost rfl).2, hneutral.of_failed htokenize⟩

/-! ## The law -/

/-- After a scan of any document, by any scanner that stood in no region and had nothing saved,
queued or parked, the spans of a range of a text are those that a fresh scanner finds there. -/
theorem a_finished_scanner_is_as_good_as_new {doc : VersionedText} {offset length : Nat}
    (hcustoms : grammar.customs = []) (hbegins : grammar.BeginsDefined)
    (heof : ¬ grammar.Gives .eof) (hnext : next.customs = []) (hqueue : scanner.queue = [])
    (hparked : scanner.parked = none) (hopen : scanner.openRegions = [])
    (hframes : scanner.frames = []) (hfinished : grammar.Finishes scanner after)
    (hagain : after.assign doc.toDocument offset length = .ok () again) :
    ∀ document settings, ∃ new : Scanner Region,
      (Scanner.fresh document settings).assign doc.toDocument offset length = .ok () new ∧
        next.tokenize.result again = next.tokenize.result new := by
  intro document settings
  obtain ⟨new, hnew⟩ := Scanner.assign_accepts hagain (Scanner.fresh document settings)
  refine ⟨new, hnew, ?_⟩
  obtain ⟨hclear, hsame⟩ :=
    hfinished.leaves hcustoms hbegins heof (.of_nothing hqueue hparked hopen)
  obtain ⟨hempty, halike⟩ := hclear.assign_alike (hsame.openRegions.trans hopen)
    (hsame.frames.trans hframes) hagain hnew
  have hrun := halike.tokenize (fun _ => trivial) hnext
  rw [← tokenize_cleared hempty] at hrun
  exact hrun.result_eq

/-- The scan stops at the hole, and the scanner goes on to another text as a fresh one would. -/
theorem a_scanner_that_met_a_hole_is_as_good_as_new :
    ∃ after again : Scanner Region,
      Grammar.brackets.tokenize .facingHole = .error (.failed (.unreadable 4)) after ∧
      after.assign (VersionedText.ofText ['x', '(', 'a', ')']).toDocument 0 4 = .ok () again ∧
      ∀ document settings, ∃ new : Scanner Region,
        (Scanner.fresh document settings).assign
          (VersionedText.ofText ['x', '(', 'a', ')']).toDocument 0 4 = .ok () new ∧
        Grammar.brackets.tokenize.result again = Grammar.brackets.tokenize.result new := by
  have hstops : Grammar.brackets.tokenize.result .facingHole =
      .error (.failed (.unreadable 4)) := by decide +kernel
  have htokenize := Scan.result_eq_error.mp hstops
  let doc : VersionedText := .ofText ['x', '(', 'a', ')']
  obtain ⟨again, hagain⟩ := Scanner.assign_accepts
    (show (Scanner.fresh doc.toDocument .standard).assign doc.toDocument 0 4 = .ok () _ from rfl)
    (Grammar.brackets.tokenize.after .facingHole)
  exact ⟨_, again, htokenize, hagain, a_finished_scanner_is_as_good_as_new
    Grammar.brackets_plain.customs Grammar.brackets_begin Grammar.brackets_lack_eof
    Grammar.brackets_plain.customs rfl rfl rfl rfl (Or.inr ⟨4, htokenize⟩) hagain⟩

end RegionScan
