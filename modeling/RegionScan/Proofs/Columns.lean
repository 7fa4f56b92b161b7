-- Columns. The column of the mark is worked out once and kept. Whatever may change it forgets
-- it, so a column that is kept is that of the mark, and where the document cannot tell the
-- column, the one that was worked out last is given again.
import RegionScan.Proofs.Partitions

namespace RegionScan

/-- The column of an offset in its line, by two lookups. -/
def Document.columnOf? (document : Document) (offset : Nat) : Except LookupError Nat := do
  let line ← document.lineOf offset
  let start ← document.lineStart line
  return offset - start

theorem Document.columnOf?_eq (document : Document) (offset : Nat) :
    document.columnOf? offset =
      ((document.lineOf offset).bind document.lineStart).map (offset - ·) := by
  unfold Document.columnOf?
  rcases document.lineOf offset with _ | line
  · rfl
  · simp only [bind, Except.bind]
    rcases document.lineStart line with _ | start <;> rfl

/-- The column that is told for the mark: the one that the document has, or else the last one. -/
def Scanner.columnTold {ρ : Type} (scanner : Scanner ρ) : Nat :=
  (scanner.document.columnOf? scanner.mark).toOption.getD scanner.lastColumn

/-- The column of the mark, asked for some times in a row. -/
def Scanner.columns {ρ : Type} : Nat → Scan ρ (List Nat)
  | 0 => return []
  | count + 1 => do
    let column ← modifyGet Scanner.columnOfMark
    return column :: (← columns count)

/-! ## Columns that are forgotten or kept -/

/-- The column is forgotten, or all is kept that it depends on. The column that was worked out
last stays. -/
structure Scanner.ColumnKept {ρ : Type} (scanner after : Scanner ρ) : Prop where
  lastColumn : after.lastColumn = scanner.lastColumn
  column : after.column = none ∨
    after.column = scanner.column ∧ after.mark = scanner.mark ∧ after.document = scanner.document

namespace Scanner.ColumnKept

variable {ρ : Type} {scanner middle after : Scanner ρ}

theorem trans (h : scanner.ColumnKept middle) (hmore : middle.ColumnKept after) :
    scanner.ColumnKept after := by
  refine ⟨hmore.lastColumn.trans h.lastColumn, ?_⟩
  rcases hmore.column with hnone | ⟨hcolumn, hmark, hdocument⟩
  · exact Or.inl hnone
  · rw [hcolumn, hmark, hdocument]
    exact h.column

/-- What changes neither the mark nor the document may keep the column. -/
theorem of_same (hlast : after.lastColumn = scanner.lastColumn)
    (hcolumn : after.column = scanner.column) (hmark : after.mark = scanner.mark)
    (hdocument : after.document = scanner.document) : scanner.ColumnKept after :=
  ⟨hlast, Or.inr ⟨hcolumn, hmark, hdocument⟩⟩

theorem refl (scanner : Scanner ρ) : scanner.ColumnKept scanner := of_same rfl rfl rfl rfl

/-- What moves the mark forgets the column. Only what a scanner has besides its window, its place
and its partition matters. -/
theorem of_bare {mark : Nat} (h : after.bare = { scanner.bare with mark, column := none }) :
    scanner.ColumnKept after :=
  ⟨congrArg (·.lastColumn) h, Or.inl (congrArg (·.column) h)⟩

theorem moveTo (h : scanner.ColumnKept middle) (offset : Nat) :
    scanner.ColumnKept (middle.moveTo offset) :=
  h.trans (of_bare (middle.moveTo_bare offset))

theorem assign {document : Document} {offset length : Nat}
    (h : scanner.assign document offset length = .ok () after) : scanner.ColumnKept after := by
  obtain ⟨-, rfl⟩ := Scanner.assign_eq_ok_iff.mp h
  have hbare := ({ scanner with document, place := none } : Scanner ρ).refill_bare offset
  have hlast := congrArg (·.lastColumn) hbare
  exact ⟨hlast, Or.inl rfl⟩

/-- The calls that rules are made of leave the column as they should. -/
theorem of_rules {call : Call ρ} (h : call.ByRules) (scanner : Scanner ρ) :
    scanner.ColumnKept (call.step.after scanner) := by
  cases call with
  | read =>
    rw [Call.read_after]
    have hbare := scanner.read_bare
    split at hbare
    · exact of_same (congrArg (·.lastColumn) hbare) (congrArg (·.column) hbare)
        (congrArg (·.mark) hbare) (congrArg (·.document) hbare)
    · exact of_bare hbare
  | stepBack => exact of_bare scanner.stepBack_bare
  | moveTo offset => exact (refl scanner).moveTo offset
  | enterRange offset length =>
    by_cases hrange : offset + length ≤ scanner.document.length
    · rw [Call.enterRange_after hrange]
      refine moveTo ?_ offset
      exact of_same rfl rfl rfl rfl
    · rw [Call.enterRange_after_refused (Nat.lt_of_not_le hrange)]
      exact refl scanner
  | leaveRange =>
    rcases hframes : scanner.frames with _ | ⟨saved, frames⟩
    · rw [Call.leaveRange_after_refused hframes]
      exact refl scanner
    · rw [Call.leaveRange_after hframes]
      refine moveTo ?_ saved.offset
      exact of_same rfl rfl rfl rfl
  | placeAt offset =>
    obtain ⟨found, place, tally, hplace⟩ := scanner.placeAt_cached offset
    rw [Call.placeAt_after, hplace]
    exact of_same rfl rfl rfl rfl
  | setLastMatch offset => exact of_same rfl rfl rfl rfl
  | startToken => exact ⟨rfl, Or.inl rfl⟩
  | setToken token => exact of_same rfl rfl rfl rfl
  | enqueue span => exact of_same rfl rfl rfl rfl
  | dequeue =>
    rw [Call.dequeue_after]
    exact of_same rfl rfl rfl rfl
  | openRegion region => exact of_same rfl rfl rfl rfl
  | closeRegion =>
    rw [Call.closeRegion_after]
    exact of_same rfl rfl rfl rfl
  | park parked =>
    rw [Call.park_after]
    exact of_same rfl rfl rfl rfl
  | unpark => exact of_same rfl rfl rfl rfl
  | _ => exact h.elim

/-- So do all rules. -/
theorem inherited (first : Scanner Region) : Inherited fun step => Keeps first.ColumnKept step :=
  KeptByRuleCalls.inherited fun _ hby scanner hs => hs.trans (of_rules hby scanner)

/-- Every operation but a question for the column leaves the column as it should. -/
theorem of_call {call : Call Region} (h : call ≠ .column) (scanner : Scanner Region) :
    scanner.ColumnKept (call.step.after scanner) := by
  by_cases hby : call.ByRules
  · exact of_rules hby scanner
  · cases call with
    | assign document offset length =>
      exact Keeps.ofTrial (Scanner.assign_atomic document offset length)
        (fun _ _ hs hassign => hs.trans (assign hassign)) scanner (refl scanner)
    | assignPart document offset length contentType partitionStart =>
      refine Keeps.ofTrial
        (Scanner.assignPart_atomic document offset length contentType partitionStart)
        (fun before after hs hassign => hs.trans ?_) scanner (refl scanner)
      obtain ⟨found, hfound, rfl⟩ := Scanner.assignPart_eq_ok hassign
      obtain ⟨-, rfl⟩ := Scanner.assign_eq_ok_iff.mp hfound
      exact ⟨(assign hfound).lastColumn, Or.inl rfl⟩
    | excerpt offset count =>
      rw [Call.excerpt_after]
      exact (inherited scanner).excerpt offset count scanner (refl scanner)
    | textToEnd offset =>
      show scanner.ColumnKept (scanner.textToEnd offset).2
      unfold Scanner.textToEnd Scanner.slice
      rcases scanner.document.slice offset (scanner.document.length - offset) with _ | part <;>
        exact of_same rfl rfl rfl rfl
    | column => exact absurd rfl h
    | lineOf offset =>
      rw [Call.step, Scan.after_lookup]
      exact of_same rfl rfl rfl rfl
    | lineNumbered number =>
      obtain ⟨tally, hline⟩ := scanner.lineNumbered_spec number
      rw [Call.step, Scan.after_lookup, hline]
      exact of_same rfl rfl rfl rfl
    | lineHolding offset =>
      obtain ⟨tally, hline⟩ := scanner.lineHolding_spec offset
      rw [Call.step, Scan.after_lookup, hline]
      exact of_same rfl rfl rfl rfl
    | setContinuing value => exact of_same rfl rfl rfl rfl
    | setCurrentSpan span => exact of_same rfl rfl rfl rfl
    | _ => exact absurd trivial hby

end Scanner.ColumnKept

/-! ## A column that is kept is right -/

/-- A column that is kept is the one that the document has for the mark, and none has been worked
out since. -/
def Scanner.KnowsColumn {ρ : Type} (scanner : Scanner ρ) : Prop :=
  ∀ column, scanner.column = some column →
    scanner.document.columnOf? scanner.mark = .ok column ∧ scanner.lastColumn = column

namespace Scanner.KnowsColumn

variable {ρ : Type} {scanner : Scanner ρ}

theorem after (h : scanner.KnowsColumn) {after : Scanner ρ} (hkept : scanner.ColumnKept after) :
    after.KnowsColumn := by
  intro column hcolumn
  rcases hkept.column with hnone | ⟨hsame, hmark, hdocument⟩
  · rw [hnone] at hcolumn
    cases hcolumn
  · rw [hdocument, hmark, hkept.lastColumn]
    exact h column (hsame ▸ hcolumn)

/-- The column that is told is kept if it is that of the mark. -/
theorem columnOfMark_eq (h : scanner.KnowsColumn) :
    ∃ tally, scanner.columnOfMark = (scanner.columnTold, { scanner with
      column := (scanner.document.columnOf? scanner.mark).toOption
      lastColumn := scanner.columnTold
      tally }) := by
  unfold Scanner.columnOfMark Scanner.lineOf Scanner.columnTold
  rcases hcolumn : scanner.column with _ | column
  · refine ⟨⟨scanner.tally.slices, scanner.tally.lineLookups + 1⟩, ?_⟩
    rw [Document.columnOf?_eq]
    dsimp only
    rcases (scanner.document.lineOf scanner.mark).bind scanner.document.lineStart with _ | start
    · simp only [Except.map, Except.toOption, Option.getD]
    · rfl
  · obtain ⟨hfound, hlast⟩ := h column hcolumn
    refine ⟨scanner.tally, ?_⟩
    rw [hfound]
    dsimp only [Except.toOption, Option.getD]
    rw [← hcolumn, ← hlast]

theorem columnOfMark (h : scanner.KnowsColumn) : scanner.columnOfMark.2.KnowsColumn := by
  obtain ⟨tally, htold⟩ := h.columnOfMark_eq
  rw [htold]
  intro column hcolumn
  change (scanner.document.columnOf? scanner.mark).toOption = some column at hcolumn
  show scanner.document.columnOf? scanner.mark = .ok column ∧ scanner.columnTold = column
  unfold Scanner.columnTold
  rcases hfound : scanner.document.columnOf? scanner.mark with reason | found <;>
    rw [hfound] at hcolumn <;> cases hcolumn
  exact ⟨rfl, rfl⟩

/-- In every session a column that is kept is right. -/
theorem kept {Admits : Document → Prop} :
    KeptByCalls Admits (KnowsColumn : Scanner Region → Prop) := by
  intro call _ scanner h
  by_cases hcall : call = .column
  · rw [hcall]
    exact h.columnOfMark
  · exact h.after (ColumnKept.of_call hcall scanner)

end Scanner.KnowsColumn

theorem Reached.knowsColumn {Admits : Document → Prop} {settings : Settings}
    {scanner : Scanner Region} (h : Reached Admits settings scanner) : scanner.KnowsColumn :=
  h.invariant (fun _ _ _ hcolumn => by cases hcolumn) Scanner.KnowsColumn.kept

/-- A column that is kept is given any number of times, whatever document there is. -/
theorem Scanner.columns_of_kept {ρ : Type} {scanner : Scanner ρ} {column : Nat}
    (h : scanner.column = some column) (count : Nat) :
    columns count scanner = .ok (List.replicate count column) scanner := by
  have hone : (modifyGet columnOfMark : Scan ρ Nat) scanner = .ok column scanner := by
    show EStateM.Result.ok scanner.columnOfMark.1 scanner.columnOfMark.2 = _
    rw [columnOfMark, h]
  induction count with
  | zero => rfl
  | succ count ih =>
    rw [columns, Scan.bind_of_ok hone, Scan.bind_of_ok ih, List.replicate_succ]
    rfl

/-! ## Sessions in which columns are asked for -/

/-- A rule of the host that asks for no column. -/
def CustomRule.AsksNoColumn (custom : CustomRule) : Prop :=
  ∀ first : Scanner Region,
    Keeps first.ColumnKept custom.mayStart ∧ Keeps first.ColumnKept custom.attempt

/-- The states of all sessions over some documents, each with the column that was given when one
was last asked for and the document could tell it, or 0 if there was none. -/
inductive Asked (Admits : Document → Prop) (settings : Settings) : Nat → Scanner Region → Prop
  | fresh (document : Document) :
    Admits document → Asked Admits settings 0 (Scanner.fresh document settings)
  | column {last : Nat} {scanner : Scanner Region} : Asked Admits settings last scanner →
    Asked Admits settings
      (if (scanner.document.columnOf? scanner.mark).isOk then scanner.columnOfMark.1 else last)
      scanner.columnOfMark.2
  | call {last : Nat} {scanner : Scanner Region} (call : Call Region) : call ≠ .column →
    (∀ document, call.document? = some document → Admits document) →
      Asked Admits settings last scanner → Asked Admits settings last (call.step.after scanner)
  | nextToken {last : Nat} {scanner : Scanner Region} (grammar : Grammar) :
    (∀ custom ∈ grammar.customs, custom.ByCalls Admits ∧ custom.AsksNoColumn) →
      Asked Admits settings last scanner →
        Asked Admits settings last (grammar.nextToken.after scanner)

namespace Asked

variable {Admits : Document → Prop} {settings : Settings} {last : Nat} {scanner : Scanner Region}

theorem reached (h : Asked Admits settings last scanner) : Reached Admits settings scanner := by
  induction h with
  | fresh document hadmits => exact .fresh document hadmits
  | column _ ih => exact ih.call .column fun _ hdoc => by cases hdoc
  | call call _ hadmits _ ih => exact ih.call call hadmits
  | nextToken grammar hcustoms _ ih =>
    exact ih.nextToken grammar fun custom hmem => (hcustoms custom hmem).1

/-- What the scanner falls back to is the column that was given last. -/
theorem lastColumn_eq (h : Asked Admits settings last scanner) : scanner.lastColumn = last := by
  induction h with
  | fresh document hadmits => rfl
  | @column last scanner hbefore ih =>
    obtain ⟨tally, hfound⟩ := hbefore.reached.knowsColumn.columnOfMark_eq
    rw [hfound]
    dsimp only [Scanner.columnTold]
    rcases scanner.document.columnOf? scanner.mark with reason | column
    · exact ih
    · rfl
  | @call last scanner call hcall _ _ ih =>
    exact (Scanner.ColumnKept.of_call hcall scanner).lastColumn.trans ih
  | @nextToken last scanner grammar hcustoms _ ih =>
    have hkeeps : Keeps scanner.ColumnKept grammar.nextToken :=
      (Scanner.ColumnKept.inherited scanner).nextToken fun custom hmem =>
        (hcustoms custom hmem).2 scanner
    exact (hkeeps scanner (.refl scanner)).lastColumn.trans ih

end Asked

/-! ## The law -/

/-- A text document that may refuse any lookups, the same ones each time. -/
def IsThinned (document : Document) : Prop := ∃ doc : VersionedText, document.Thins doc.toDocument

/-- In every session over text documents that may refuse lookups, the column of the mark is its
distance from the start of its line, if the document tells the line and its start; and then the
column is given again, however often it is asked for, without a look at the document, whatever
that would answer. If the document does not tell, the column is the one that was given when one
was last asked for and the document could tell it, or 0. -/
theorem a_column_is_that_of_the_mark_or_the_last_one {settings : Settings} {last : Nat}
    {scanner : Scanner Region} (h : Asked IsThinned settings last scanner) :
    (∀ line start, scanner.document.lineOf scanner.mark = .ok line →
      scanner.document.lineStart line = .ok start →
        start ≤ scanner.mark ∧ scanner.columnOfMark.1 = scanner.mark - start ∧
        ∀ (other : Document) (count : Nat),
          Scanner.columns count { scanner.columnOfMark.2 with document := other } =
            .ok (List.replicate count (scanner.mark - start))
              { scanner.columnOfMark.2 with document := other }) ∧
    ((∀ line start, scanner.document.lineOf scanner.mark = .ok line →
      scanner.document.lineStart line ≠ .ok start) → scanner.columnOfMark.1 = last) := by
  obtain ⟨tally, hfound⟩ := h.reached.knowsColumn.columnOfMark_eq
  constructor
  · intro line start hline hstart
    obtain ⟨doc, hthins⟩ : IsThinned scanner.document :=
      h.reached.invariant (P := fun scanner => IsThinned scanner.document)
        (fun _ hadmits => hadmits) (Scanner.document_grounded fun _ hadmits => hadmits).kept
    have hcolumn : scanner.document.columnOf? scanner.mark = .ok (scanner.mark - start) := by
      simp only [Document.columnOf?, hline, hstart, bind, Except.bind, pure, Except.pure]
    simp only [Scanner.columnTold, hcolumn, Except.toOption, Option.getD] at hfound
    refine ⟨?_, by rw [hfound], fun other count => ?_⟩
    · obtain ⟨hle, rfl⟩ := VersionedText.toDocument_lineOf.mp (hthins.lineOf hline)
      obtain ⟨first, hfirst, hbefore, -⟩ := lineAmong_spec doc.text scanner.mark
      rw [VersionedText.toDocument_lineStart.mp (hthins.lineStart hstart)] at hfirst
      cases hfirst
      exact hbefore
    · rw [hfound]
      exact Scanner.columns_of_kept rfl count
  · intro hnone
    rw [← h.lastColumn_eq, hfound]
    dsimp only [Scanner.columnTold]
    rcases hcolumn : scanner.document.columnOf? scanner.mark with reason | column
    · rfl
    · obtain ⟨line, hline, start, hstart, -⟩ : ∃ line, scanner.document.lineOf scanner.mark =
          .ok line ∧ ∃ start, scanner.document.lineStart line = .ok start ∧
            Except.ok (scanner.mark - start) = (.ok column : Except LookupError Nat) := by
        obtain ⟨line, hline, hrest⟩ := bind_eq_ok.mp hcolumn
        obtain ⟨start, hstart, hvalue⟩ := bind_eq_ok.mp hrest
        exact ⟨line, hline, start, hstart, hvalue⟩
      exact absurd hstart (hnone line start hline)

/-- A document that has lost the start of its first line. The column of an offset in the second
line is told, and it is given again after a step into the first. -/
theorem a_lost_line_has_the_column_of_the_one_before :
    ∃ (known unknown : Scanner Region), Asked IsThinned ⟨3, by decide⟩ 0 known ∧
      known.mark = 5 ∧ known.columnOfMark.1 = 2 ∧
      Scanner.columns 4 known.columnOfMark.2 = .ok [2, 2, 2, 2] known.columnOfMark.2 ∧
      Asked IsThinned ⟨3, by decide⟩ 2 unknown ∧ unknown.mark = 1 ∧
      unknown.columnOfMark.1 = 2 := by
  let doc : PatchyDocument := ⟨.ofText ['a', 'b', '\n', 'c', 'd', 'e', 'f'], [], [0], none, none⟩
  have hdoc : IsThinned doc.toDocument := ⟨doc.inner, doc.toDocument_thins rfl⟩
  let fresh : Scanner Region := Scanner.fresh doc.toDocument ⟨3, by decide⟩
  have h0 : Asked IsThinned ⟨3, by decide⟩ 0 fresh := .fresh _ hdoc
  have h1 : Asked IsThinned ⟨3, by decide⟩ 0
      { fresh with
        window := ⟨#['a', 'b', '\n'], 0, 3, by decide⟩, rangeEnd := 7, tally := ⟨1, 0⟩ } :=
    h0.call (.assign doc.toDocument 0 7) (by simp) fun _ hset => by cases hset; exact hdoc
  have h2 : Asked IsThinned ⟨3, by decide⟩ 0
      { fresh with
        window := ⟨#['e', 'f'], 5, 3, by decide⟩, rangeEnd := 7, mark := 5,
        tally := ⟨2, 0⟩ } :=
    h1.call (.moveTo 5) (by simp) fun _ hset => by cases hset
  have h3 : Asked IsThinned ⟨3, by decide⟩ 2
      { fresh with
        window := ⟨#['e', 'f'], 5, 3, by decide⟩, rangeEnd := 7, mark := 5, column := some 2,
        lastColumn := 2, tally := ⟨2, 1⟩ } :=
    h2.column
  have h4 : Asked IsThinned ⟨3, by decide⟩ 2
      { fresh with
        window := ⟨#['b', '\n', 'c'], 1, 3, by decide⟩, rangeEnd := 7, mark := 1, column := none,
        lastColumn := 2, tally := ⟨3, 1⟩ } :=
    h3.call (.moveTo 1) (by simp) fun _ hset => by cases hset
  obtain ⟨-, hcolumn, hagain⟩ :=
    (a_column_is_that_of_the_mark_or_the_last_one h2).1 1 3 rfl rfl
  have hlost : ∀ line start, fresh.document.lineOf 1 = .ok line →
      fresh.document.lineStart line ≠ .ok start := by
    rintro _ start ⟨⟩ hstart
    cases hstart
  exact ⟨_, _, h2, rfl, hcolumn, hagain _ 4, h4, rfl,
    (a_column_is_that_of_the_mark_or_the_last_one h4).2 hlost⟩

end RegionScan
