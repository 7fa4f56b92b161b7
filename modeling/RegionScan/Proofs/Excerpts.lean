-- Excerpts. An excerpt gives a stretch of the text, cut off at the end of the range, wherever the
-- window is. The window goes there and back for it, and the line and the column that are kept may
-- be others afterwards, but nothing that can be asked of the scanner tells whether there was one.
import RegionScan.Proofs.Columns
import RegionScan.Proofs.SavedRanges

namespace RegionScan

/-! ## What an excerpt gives -/

namespace Scanner

variable {ρ : Type} {scanner : Scanner ρ} {doc : VersionedText}

/-- Reading gives the text from the mark up to the end of the range, and moves nothing but the
mark. -/
theorem readUpTo_text (hs : scanner.Current) (hdoc : scanner.document = doc.toDocument)
    (hsmall : doc.text.length < maxOffset) (hmark : scanner.mark < maxOffset) (count : Nat) :
    ∃ mark cache, readUpTo count scanner =
        .ok (stretch doc.text scanner.mark
          (min (scanner.mark + count) scanner.rangeEnd - scanner.mark))
          ({ scanner with mark }.withCache cache) ∧
      ({ scanner with mark }.withCache cache).Current := by
  induction count generalizing scanner with
  | zero =>
    refine ⟨scanner.mark, scanner.cache, ?_, hs⟩
    rw [Nat.add_zero, Nat.sub_eq_zero_of_le (Nat.min_le_left _ _)]
    rfl
  | succ count ih =>
    obtain ⟨cache, hread, hcurrent, -⟩ := read_text hs hdoc hmark
    rw [readUpTo, Scan.bind_of_ok hread]
    by_cases hlt : scanner.mark < scanner.rangeEnd
    · rw [if_pos hlt]
      rcases hchar : doc.text[scanner.mark]? with _ | c
      · -- Behind the end of the text there is nothing to give.
        have hend := List.getElem?_eq_none_iff.mp hchar
        refine ⟨scanner.mark + 1, cache, ?_, hcurrent⟩
        rw [stretch, List.drop_eq_nil_of_le hend, List.take_nil]
        rfl
      · have hinside := (List.getElem?_eq_some_iff.mp hchar).1
        obtain ⟨mark, cache', hrest, hlast⟩ := ih hcurrent hdoc
          (show scanner.mark + 1 < maxOffset by omega)
        refine ⟨mark, cache', ?_, hlast⟩
        dsimp only
        rw [Scan.bind_of_ok hrest]
        have hcount : min (scanner.mark + (count + 1)) scanner.rangeEnd - scanner.mark =
            min (scanner.mark + 1 + count) scanner.rangeEnd - (scanner.mark + 1) + 1 := by omega
        rw [hcount, stretch_succ hchar]
        rfl
    · rw [if_neg hlt]
      refine ⟨scanner.mark + 1, cache, ?_, hcurrent⟩
      rw [Nat.sub_eq_zero_of_le (by omega)]
      rfl

/-- An excerpt is a stretch of the text, and the scanner is as before, after other lookups. -/
theorem excerpt_text (hs : scanner.Current) (hdoc : scanner.document = doc.toDocument)
    (hsmall : doc.text.length < maxOffset) {offset : Nat} (hoffset : offset < maxOffset)
    (count : Nat) :
    ∃ cache, excerpt offset count scanner =
        .ok (stretch doc.text offset (min (offset + count) scanner.rangeEnd - offset))
          (scanner.withCache cache) ∧
      (scanner.withCache cache).Current := by
  obtain ⟨cache₁, hthere, hcurrent₁⟩ := moveTo_spec hs offset
  obtain ⟨mark, cache₂, hread, hcurrent₂⟩ := readUpTo_text hcurrent₁ hdoc hsmall hoffset count
  obtain ⟨cache₃, hback, hcurrent₃⟩ := moveTo_spec hcurrent₂ scanner.mark
  refine ⟨cache₃, ?_, hcurrent₃⟩
  unfold excerpt
  rw [Scan.get_bind, Scan.modify_bind, hthere, Scan.bind_of_ok hread, Scan.modify_bind, hback]
  rfl

end Scanner

/-! ## What an excerpt leaves different -/

/-- Two scanners differ at most in the window, in the line and the column that are kept, and in the
partition. A column that is kept is right. -/
structure Scanner.SameButCache (scanner other : Scanner Region) : Prop where
  bare : scanner.bareBut (fun _ => none) = other.bareBut (fun _ => none)
  knows : scanner.KnowsColumn
  knows' : other.KnowsColumn

namespace Scanner.SameButCache

variable {scanner other : Scanner Region}

/-- The calls that rules are made of look at nothing that differs. -/
theorem kept {call : Call Region} (hby : call.ByRules) (h : scanner.AlikeWith SameButCache other) :
    SameButCache (call.step.after scanner) (call.step.after other) := by
  have hkept : KeptByCalls (fun _ => True) (KnowsColumn : Scanner Region → Prop) := KnowsColumn.kept
  have hknows := hkept.keeps call hby.document?
  exact ⟨bareBut_after_eq (fun _ => Eq.refl none) hby h.same.bare, hknows scanner h.same.knows,
    hknows other h.same.knows'⟩

/-- The column is told whether it is kept or not. -/
theorem column : Scan.Uniform (AlikeWith SameButCache)
    (modifyGet Scanner.columnOfMark : RuleScan Nat) := by
  intro scanner other h
  have htold : scanner.columnTold = other.columnTold := by
    have hlast : scanner.lastColumn = other.lastColumn := congrArg (·.lastColumn) h.same.bare
    rw [columnTold, columnTold, h.alike.document, h.alike.view.mark, hlast]
  have hknows := h.same.knows.columnOfMark
  have hknows' := h.same.knows'.columnOfMark
  obtain ⟨tally, hfound⟩ := h.same.knows.columnOfMark_eq
  obtain ⟨tally', hfound'⟩ := h.same.knows'.columnOfMark_eq
  show SameOutcome _ (.ok scanner.columnOfMark.1 scanner.columnOfMark.2)
    (.ok other.columnOfMark.1 other.columnOfMark.2)
  rw [hfound] at hknows ⊢
  rw [hfound', ← htold] at hknows' ⊢
  exact .ok _ ⟨h.alike.changed ⟨rfl, rfl, rfl, rfl⟩ ⟨rfl, rfl, rfl, rfl⟩ { h.alike.view with }
    h.alike.lastMatch, congrArg (fun bare : Scanner Region =>
      { bare with lastColumn := scanner.columnTold }) h.same.bare, hknows, hknows'⟩

end Scanner.SameButCache

/-- A rule of the host that does not ask what is kept of the document. -/
def CustomRule.Oblivious (custom : CustomRule) : Prop :=
  Scan.Uniform (Scanner.AlikeWith Scanner.SameButCache) custom.mayStart ∧
    Scan.Uniform (Scanner.AlikeWith Scanner.SameButCache) custom.attempt

theorem FixedRule.toCustom_oblivious (rule : FixedRule) : rule.toCustom.Oblivious :=
  have hrules : Inherited fun step => Scan.Uniform (Scanner.AlikeWith Scanner.SameButCache) step :=
    Scanner.AlikeWith.inherited fun _ hby _ _ => Scanner.SameButCache.kept hby
  hrules.fixedRule rule

/-- An answer without the column that is kept. -/
def Request.Answer.columnless (answer : Request.Answer) : Request.Answer :=
  { answer with scanner := { answer.scanner with column := none } }

/-- Whatever the caches hold, the answers are the same. -/
theorem Scanner.AlikeWith.answers_eq {scanner other : Scanner Region}
    (h : scanner.AlikeWith SameButCache other) {requests : List Request}
    (hcustoms : ∀ request ∈ requests, ∀ custom ∈ request.customs, custom.Oblivious) :
    (Request.answers requests scanner).map Request.Answer.columnless =
      (Request.answers requests other).map Request.Answer.columnless :=
  Request.answers_map_eq
    (fun result _ _ h => congrArg (Request.Answer.mk result) h.same.bare)
    (fun request hmem => Request.step_uniform (fun _ hby _ _ => SameButCache.kept hby)
      SameButCache.column (hcustoms request hmem)) h

/-- After other lookups a scanner is the same but for what they have left behind. -/
theorem Scanner.SameButCache.of_withCache {scanner : Scanner Region} {cache : Cache}
    (htext : IsText scanner.document) (hs : scanner.Current)
    (hcurrent : (scanner.withCache cache).Current) (hknows : scanner.KnowsColumn)
    (hknows' : (scanner.withCache cache).KnowsColumn) :
    (scanner.withCache cache).AlikeWith SameButCache scanner where
  alike := ⟨htext, rfl, hcurrent, hs, ⟨rfl, rfl, rfl, rfl, rfl, rfl, rfl, rfl⟩,
    List.forall₂_same.mpr fun _ _ => ⟨rfl, rfl, rfl⟩, rfl⟩
  same := ⟨rfl, hknows', hknows⟩

/-! ## The law -/

/-- In every session over one text the scanner scans that text, and the active range lies in it. -/
theorem Reached.over_one_text {doc : VersionedText} {settings : Settings}
    {scanner : Scanner Region} (h : Reached (· = doc.toDocument) settings scanner) :
    scanner.document = doc.toDocument ∧ OnText settings scanner ∧
      scanner.rangeEnd ≤ doc.text.length := by
  have hdocument : scanner.document = doc.toDocument :=
    h.invariant (P := fun scanner => scanner.document = doc.toDocument) (fun _ hadmits => hadmits)
      (Scanner.document_grounded fun _ hadmits => hadmits).kept
  have honText : OnText settings scanner :=
    h.invariant (fun _ hadmits => OnText.fresh ⟨doc, hadmits⟩) fun call hadmits =>
      OnText.kept call fun document hbrought => ⟨doc, hadmits document hbrought⟩
  have hlength : ∀ document, document = doc.toDocument → document.length ≤ doc.text.length :=
    fun document hadmits => Nat.le_of_eq (congrArg Document.length hadmits)
  have hends : scanner.EndsBy doc.text.length :=
    h.invariant
      (fun document hadmits => ⟨hlength document hadmits, Nat.zero_le _, by simp [Scanner.fresh]⟩)
      (Scanner.EndsBy.grounded hlength).kept
  exact ⟨hdocument, honText, hends.active⟩

/-- In every state of every session over one text, wherever the range and the window are, an
excerpt gives the text from its offset on, up to its length and the end of the range, which lies
in the text. The scanner stays as it is but for what lookups leave behind, and whatever is asked
of it from then on, in any order, the answers are the same as without the excerpt. -/
theorem an_excerpt_leaves_no_trace {doc : VersionedText} {settings : Settings}
    {scanner : Scanner Region} (h : Reached (· = doc.toDocument) settings scanner)
    (hsmall : doc.text.length < maxOffset) {offset : Nat} (hoffset : offset < maxOffset)
    (count : Nat) :
    scanner.rangeEnd ≤ doc.text.length ∧
    ∃ cache, Scanner.excerpt offset count scanner =
        .ok (stretch doc.text offset (min (offset + count) scanner.rangeEnd - offset))
          (scanner.withCache cache) ∧
      ∀ requests : List Request,
        (∀ request ∈ requests, ∀ custom ∈ request.customs, custom.Oblivious) →
          (Request.answers requests (scanner.withCache cache)).map Request.Answer.columnless =
            (Request.answers requests scanner).map Request.Answer.columnless := by
  obtain ⟨hdocument, honText, hend⟩ := h.over_one_text
  obtain ⟨cache, hexcerpt, hcurrent⟩ :=
    Scanner.excerpt_text honText.current hdocument hsmall hoffset count
  have hknows : (scanner.withCache cache).KnowsColumn := by
    rw [← Scan.after_of_ok hexcerpt, ← Call.excerpt_after]
    exact (h.call (.excerpt offset count) fun _ hset => by cases hset).knowsColumn
  have hsame : (scanner.withCache cache).AlikeWith Scanner.SameButCache scanner :=
    Scanner.SameButCache.of_withCache honText.text honText.current hcurrent h.knowsColumn hknows
  exact ⟨hend, cache, hexcerpt, fun requests hcustoms => hsame.answers_eq hcustoms⟩

/-- An excerpt from before the range to behind its end, asked for in a range in the middle of a
text longer than the window. The column of the mark is kept then. -/
theorem an_excerpt_from_before_its_range_leaves_no_trace :
    ∃ (scanner : Scanner Region) (cache : Cache),
      scanner.frame = ⟨5, 6, 0⟩ ∧ scanner.column = some 2 ∧
      Scanner.excerpt 0 9 scanner = .ok ['a', '(', '\n', ')', 'b', 'c'] (scanner.withCache cache) ∧
      (Request.answers [.column, .read, .moveTo 3, .nextToken .brackets, .excerpt 1 2]
          (scanner.withCache cache)).map Request.Answer.columnless =
        (Request.answers [.column, .read, .moveTo 3, .nextToken .brackets, .excerpt 1 2]
          scanner).map Request.Answer.columnless := by
  let doc : VersionedText := .ofText ['a', '(', '\n', ')', 'b', 'c', 'd', 'e']
  let fresh : Scanner Region := Scanner.fresh doc.toDocument ⟨3, by decide⟩
  have h0 : Reached (· = doc.toDocument) ⟨3, by decide⟩ fresh := .fresh _ rfl
  have h1 : Reached (· = doc.toDocument) ⟨3, by decide⟩
      { fresh with
        window := ⟨#['\n', ')', 'b'], 2, 3, by decide⟩, mark := 2, rangeEnd := 6, tokenStart := 2
        tally := ⟨1, 0⟩ } :=
    h0.call (.assign doc.toDocument 2 4) fun _ hset => by cases hset; rfl
  have h2 : Reached (· = doc.toDocument) ⟨3, by decide⟩
      { fresh with
        window := ⟨#['c', 'd', 'e'], 5, 3, by decide⟩, mark := 5, rangeEnd := 6, tokenStart := 2
        tally := ⟨2, 0⟩ } :=
    h1.call (.moveTo 5) fun _ hset => by cases hset
  have h3 : Reached (· = doc.toDocument) ⟨3, by decide⟩
      { fresh with
        window := ⟨#['c', 'd', 'e'], 5, 3, by decide⟩, mark := 5, rangeEnd := 6, tokenStart := 2
        column := some 2, lastColumn := 2, tally := ⟨2, 1⟩ } :=
    h2.call .column fun _ hset => by cases hset
  obtain ⟨-, cache, hexcerpt, hanswers⟩ :=
    an_excerpt_leaves_no_trace h3 (by decide) (show 0 < maxOffset by decide) 9
  refine ⟨_, cache, rfl, rfl, hexcerpt, hanswers _ ?_⟩
  simp only [List.forall_mem_cons]
  exact ⟨nofun, nofun, nofun, nofun, nofun, nofun⟩

end RegionScan
