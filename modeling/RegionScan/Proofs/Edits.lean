-- Edits of a text document. An edit leaves the text before its place, and with it every line
-- that starts there and every position. At its place it is felt only behind a carriage
-- return, which closes its line or not, as a line feed comes to stand behind it or goes.
import RegionScan.VersionedText
import RegionScan.Proofs.Lines

namespace RegionScan

/-! ## Line starts behind a common front -/

/-- What follows on a character matters only to a carriage return, which waits for its line feed. -/
theorem endsLine_eq_iff {c : Char} {next next' : Option Char} :
    endsLine c next = endsLine c next' ↔
      (c = '\r' → (next = some '\n' ↔ next' = some '\n')) := by
  rw [Bool.eq_iff_iff]
  by_cases hreturn : c = '\r'
  · subst hreturn
    simp [endsLine, Decidable.not_iff_not]
  · simp [endsLine, hreturn]

/-- A line starts right behind a front if the last character of the front ends one. -/
theorem front_mem_laterStarts {front back : Text} {here : Nat} :
    here + front.length ∈ laterStarts here (front ++ back) ↔
      ∃ c, front.getLast? = some c ∧ endsLine c back.head? = true := by
  induction front generalizing here with
  | nil =>
    simp only [List.length_nil, Nat.add_zero, List.nil_append, List.getLast?_nil, reduceCtorEq,
      false_and, exists_false, iff_false]
    intro hmem
    have := (laterStarts_mem hmem).1
    omega
  | cons c front ih =>
    have hrest := @ih (here + 1)
    rw [List.length_cons, show here + (front.length + 1) = here + 1 + front.length by omega]
    rcases front with _ | ⟨d, front⟩
    · have hlater : here + 1 ∉ laterStarts (here + 1) back := fun hmem => by
        have := (laterStarts_mem hmem).1
        omega
      by_cases hends : endsLine c back.head? = true <;> simp [laterStarts, hends, hlater]
    · have hbefore : here + 1 + (d :: front).length ≠ here + 1 := by simp
      rw [List.getLast?_cons_cons, ← hrest, List.cons_append, laterStarts]
      split
      · rw [List.mem_cons, or_iff_right hbefore]
      · rfl

/-- No later line starts up to where the text does. -/
theorem laterStarts_upTo_eq_nil {here offset : Nat} (text : Text) (hle : offset ≤ here) :
    (laterStarts here text).takeWhile (· ≤ offset) = [] := by
  rcases hstarts : laterStarts here text with _ | ⟨first, later⟩
  · rfl
  · have hmem : first ∈ laterStarts here text := hstarts ▸ List.mem_cons_self
    have hbehind := Nat.not_le_of_lt (Nat.lt_of_le_of_lt hle (laterStarts_mem hmem).1)
    exact List.takeWhile_cons_of_neg (by simpa using hbehind)

/-- Up to the end of a front, lines start where they do whatever comes behind it. A line starts
right at the end of the front as well if the last character of the front says so both times. -/
theorem laterStarts_upTo {front back back' : Text} {here offset : Nat}
    (hle : offset ≤ here + front.length)
    (hlast : offset = here + front.length → ∀ c, front.getLast? = some c →
      endsLine c back.head? = endsLine c back'.head?) :
    (laterStarts here (front ++ back)).takeWhile (· ≤ offset) =
      (laterStarts here (front ++ back')).takeWhile (· ≤ offset) := by
  induction front generalizing here with
  | nil =>
    have hle : offset ≤ here := hle
    rw [laterStarts_upTo_eq_nil _ hle, laterStarts_upTo_eq_nil _ hle]
  | cons c front ih =>
    rw [List.length_cons] at hle hlast
    by_cases hbefore : offset ≤ here
    · rw [laterStarts_upTo_eq_nil _ hbefore, laterStarts_upTo_eq_nil _ hbefore]
    · have hends : endsLine c (front ++ back).head? = endsLine c (front ++ back').head? := by
        rcases front with _ | ⟨d, front⟩
        · exact hlast (by simp at hle ⊢; omega) c rfl
        · rfl
      have hrest := @ih (here + 1) (by omega) fun heq d hd => by
        refine hlast (by omega) d ?_
        rw [List.getLast?_cons, hd]
        rfl
      rw [List.cons_append, List.cons_append, laterStarts, laterStarts, hends]
      split
      · rw [List.takeWhile_cons, List.takeWhile_cons, hrest]
      · exact hrest

/-- A line starts at an offset behind the first if the character before it ends one. -/
theorem mem_lineStarts_iff {text : Text} {offset : Nat} (hpos : 0 < offset)
    (hle : offset ≤ text.length) :
    offset ∈ lineStarts text ↔
      ∃ c, (text.take offset).getLast? = some c ∧ endsLine c text[offset]? = true := by
  have hlength : 0 + (text.take offset).length = offset := by
    rw [List.length_take, Nat.min_eq_left hle, Nat.zero_add]
  have hfront := @front_mem_laterStarts (text.take offset) (text.drop offset) 0
  rw [hlength, List.take_append_drop, List.head?_drop] at hfront
  rw [lineStarts, List.mem_cons, or_iff_right (Nat.ne_of_gt hpos), hfront]

/-- Two texts have the same characters up to an edge. -/
structure SameBefore (edge : Nat) (text other : Text) : Prop where
  take_eq : text.take edge = other.take edge
  le : edge ≤ text.length

namespace SameBefore

variable {edge offset line start : Nat} {text other third : Text}

theorem refl (hle : edge ≤ text.length) : SameBefore edge text text := ⟨rfl, hle⟩

theorem le' (h : SameBefore edge text other) : edge ≤ other.length := by
  have hlength := congrArg List.length h.take_eq
  rw [List.length_take, List.length_take] at hlength
  have := h.le
  omega

theorem mono {nearer : Nat} (h : SameBefore edge text other) (hle : nearer ≤ edge) :
    SameBefore nearer text other where
  take_eq := by
    have htake := congrArg (List.take nearer) h.take_eq
    rwa [List.take_take, List.take_take, Nat.min_eq_left hle] at htake
  le := Nat.le_trans hle h.le

theorem trans (h : SameBefore edge text other) (h' : SameBefore edge other third) :
    SameBefore edge text third :=
  ⟨h.take_eq.trans h'.take_eq, h.le⟩

/-- What is behind the edge of two texts is felt at the edge only, and only by a carriage return
right before it. -/
theorem starts_upTo (h : SameBefore edge text other) (hle : offset ≤ edge)
    (hlast : offset = edge → (text.take edge).getLast? = some '\r' →
      (text[edge]? = some '\n' ↔ other[edge]? = some '\n')) :
    (lineStarts text).takeWhile (· ≤ offset) = (lineStarts other).takeWhile (· ≤ offset) := by
  have hlength : 0 + (text.take edge).length = edge := by
    rw [List.length_take, Nat.min_eq_left h.le, Nat.zero_add]
  have hlater : (laterStarts 0 (text.take edge ++ text.drop edge)).takeWhile (· ≤ offset) =
      (laterStarts 0 (text.take edge ++ other.drop edge)).takeWhile (· ≤ offset) := by
    refine laterStarts_upTo (by rwa [hlength]) fun heq c hc => ?_
    rw [List.head?_drop, List.head?_drop, endsLine_eq_iff]
    rintro rfl
    exact hlast (heq.trans hlength) hc
  rw [List.take_append_drop, h.take_eq, List.take_append_drop] at hlater
  simp only [lineStarts, List.takeWhile_cons, Nat.zero_le, decide_true, if_true, hlater]

end SameBefore

/-- A line that is counted in both texts starts in one place in both. -/
theorem lineStarts_getElem?_of_upTo {text other : Text} {offset line start : Nat}
    (h : (lineStarts text).takeWhile (· ≤ offset) = (lineStarts other).takeWhile (· ≤ offset))
    (hle : start ≤ offset) (hstart : (lineStarts text)[line]? = some start) :
    (lineStarts other)[line]? = some start := by
  have hcounted : ∀ {starts : List Nat}, line < (starts.takeWhile (· ≤ offset)).length →
      starts[line]? = (starts.takeWhile (· ≤ offset))[line]? := by
    intro starts hin
    rw [← List.getElem?_append_left hin, List.takeWhile_append_dropWhile]
  have hin := (lt_takeWhile_le_iff (lineStarts_sorted text) offset line).mpr ⟨start, hstart, hle⟩
  rw [hcounted (h ▸ hin), ← h, ← hcounted hin, hstart]

/-! ## Positions -/

namespace VersionedText

variable {doc after : VersionedText} {edge offset : Nat}

/-- The position of an offset is the line that it is on, and its distance from the start. -/
theorem position?_of_le (hle : offset ≤ doc.length) :
    ∃ start, (lineStarts doc.text)[lineAmong (lineStarts doc.text) offset]? = some start ∧
      start ≤ offset ∧
      doc.position? offset = some (lineAmong (lineStarts doc.text) offset, offset - start) := by
  obtain ⟨start, hstart, hbefore, -⟩ := lineAmong_spec doc.text offset
  refine ⟨start, hstart, hbefore, ?_⟩
  simp [position?, lineOf?, lineStart?, hle, hstart]

/-- In the first column of a line, and nowhere else, a line starts. -/
theorem position?_first_column (hle : offset ≤ doc.length) :
    offset ∈ lineStarts doc.text ↔ ∃ line, doc.position? offset = some (line, 0) := by
  obtain ⟨start, hstart, hbefore, hposition⟩ := position?_of_le hle
  rw [hposition]
  constructor
  · intro hmem
    obtain ⟨line, hline⟩ := List.getElem?_of_mem hmem
    have hsame := lineAmong_eq hline (Nat.le_refl offset) fun next hnext =>
      sorted_getElem?_lt (lineStarts_sorted doc.text) (Nat.lt_succ_self line) hline hnext
    rw [hsame, hline, Option.some.injEq] at hstart
    exact ⟨_, by rw [hstart, Nat.sub_self]⟩
  · rintro ⟨line, hcolumn⟩
    simp only [Option.some.injEq, Prod.mk.injEq] at hcolumn
    rw [show offset = start by omega]
    exact List.mem_of_getElem? hstart

/-- Where two texts count the same lines, an offset has the same position in both. -/
theorem position?_of_upTo
    (h : (lineStarts doc.text).takeWhile (· ≤ offset) =
      (lineStarts after.text).takeWhile (· ≤ offset))
    (hle : offset ≤ doc.length) (hle' : offset ≤ after.length) :
    after.position? offset = doc.position? offset := by
  obtain ⟨start, hstart, hbefore, hposition⟩ := position?_of_le hle
  obtain ⟨start', hstart', -, hposition'⟩ := position?_of_le hle'
  have hline : lineAmong (lineStarts after.text) offset =
      lineAmong (lineStarts doc.text) offset := by
    rw [lineAmong, lineAmong, h]
  rw [hline, lineStarts_getElem?_of_upTo h hbefore hstart, Option.some.injEq] at hstart'
  rw [hposition, hposition', hline, hstart']

end VersionedText

namespace SameBefore

variable {doc after : VersionedText} {edge : Nat}

/-- Every offset before the edge has one position in both documents. -/
theorem position?_eq (h : SameBefore edge doc.text after.text) :
    ∀ offset < edge, ∃ position, doc.position? offset = some position ∧
      after.position? offset = some position := by
  intro offset hlt
  have hle : offset ≤ doc.length := Nat.le_trans (Nat.le_of_lt hlt) h.le
  obtain ⟨start, -, -, hposition⟩ := VersionedText.position?_of_le hle
  refine ⟨_, hposition, ?_⟩
  rw [← hposition]
  exact VersionedText.position?_of_upTo
    (h.starts_upTo (Nat.le_of_lt hlt) fun heq => absurd heq (Nat.ne_of_lt hlt)) hle
    (Nat.le_trans (Nat.le_of_lt hlt) h.le')

/-- The lines that start before the edge are the same in both documents, and start where they do. -/
theorem lineStart?_iff (h : SameBefore edge doc.text after.text) :
    ∀ line start, start < edge →
      (after.lineStart? line = some start ↔ doc.lineStart? line = some start) := by
  intro line start hlt
  have hsame := h.starts_upTo (Nat.le_of_lt hlt) fun heq => absurd heq (Nat.ne_of_lt hlt)
  exact ⟨lineStarts_getElem?_of_upTo hsame.symm (Nat.le_refl start),
    lineStarts_getElem?_of_upTo hsame (Nat.le_refl start)⟩

/-- The edge itself has one position in both documents, unless a carriage return stands right
before it and just one of them goes on with a line feed. -/
theorem position?_edge_iff (h : SameBefore edge doc.text after.text) :
    after.position? edge = doc.position? edge ↔
      ((doc.text.take edge).getLast? = some '\r' →
        (after.text[edge]? = some '\n' ↔ doc.text[edge]? = some '\n')) := by
  constructor
  · intro hposition hreturn
    have hpos : 0 < edge := by
      rcases edge with _ | edge
      · simp at hreturn
      · exact Nat.succ_pos edge
    -- Both documents start a line at the edge or none does: it shows in the column.
    have hstarts : edge ∈ lineStarts after.text ↔ edge ∈ lineStarts doc.text := by
      rw [VersionedText.position?_first_column h.le', VersionedText.position?_first_column h.le,
        hposition]
    rw [mem_lineStarts_iff hpos h.le', mem_lineStarts_iff hpos h.le, ← h.take_eq,
      hreturn] at hstarts
    have hends : endsLine '\r' after.text[edge]? = endsLine '\r' doc.text[edge]? := by
      rw [Bool.eq_iff_iff]
      simpa using hstarts
    exact endsLine_eq_iff.mp hends rfl
  · intro hreturn
    exact VersionedText.position?_of_upTo
      (h.starts_upTo (Nat.le_refl edge) fun _ hlast => (hreturn hlast).symm) h.le h.le'

end SameBefore

/-! ## Edits -/

/-- A change of a text document. -/
inductive Edit where
  | insert (offset : Nat) (added : Text)
  | delete (start count : Nat)
  deriving DecidableEq, Repr

namespace VersionedText

variable {doc : VersionedText} {edge offset count : Nat}

/-- A document after an edit. -/
def edit (doc : VersionedText) : Edit → VersionedText
  | .insert offset added => doc.insert offset added
  | .delete start count => doc.delete start count

/-- Where an edit falls: at its offset, or at the end of a document that does not reach there. -/
def placeOf (doc : VersionedText) : Edit → Nat
  | .insert offset _ => min offset doc.length
  | .delete start _ => min start doc.length

/-- An insert leaves the text before it. -/
theorem insert_take (hle : edge ≤ offset) (hedge : edge ≤ doc.text.length) (added : Text) :
    (doc.insert offset added).text.take edge = doc.text.take edge := by
  simp only [insert]
  rw [List.append_assoc, List.take_append_of_le_length (by rw [List.length_take]; omega),
    List.take_take, Nat.min_eq_left hle]

/-- A delete leaves the text before it. -/
theorem delete_take (hle : edge ≤ offset) :
    (doc.delete offset count).text.take edge = doc.text.take edge := by
  unfold delete
  split
  · rename_i hin
    have hedge : edge ≤ (doc.text.take offset).length := by
      rw [List.length_take]
      unfold VersionedText.length at hin
      omega
    rw [List.take_append_of_le_length hedge, List.take_take, Nat.min_eq_left hle]
  · rfl

/-- An edit leaves the text before its place. -/
theorem edit_sameBefore (doc : VersionedText) (edit : Edit) :
    SameBefore (doc.placeOf edit) doc.text (doc.edit edit).text := by
  cases edit with
  | insert offset added =>
    have hle : min offset doc.length ≤ doc.text.length := Nat.min_le_right _ _
    exact ⟨(insert_take (Nat.min_le_left _ _) hle added).symm, hle⟩
  | delete start count =>
    exact ⟨(delete_take (Nat.min_le_left _ _)).symm, Nat.min_le_right _ _⟩

/-- The documents that a document becomes by edits none of which falls before an edge. -/
inductive EditedBehind (edge : Nat) (doc : VersionedText) : VersionedText → Prop where
  | unedited : EditedBehind edge doc doc
  | edited {before : VersionedText} (edit : Edit) : EditedBehind edge doc before →
      edge ≤ before.placeOf edit → EditedBehind edge doc (before.edit edit)

theorem EditedBehind.sameBefore {after : VersionedText} (h : doc.EditedBehind edge after)
    (hle : edge ≤ doc.length) : SameBefore edge doc.text after.text := by
  induction h with
  | unedited => exact .refl hle
  | edited edit _ hplace ih => exact ih.trans ((edit_sameBefore _ edit).mono hplace)

end VersionedText

/-! ## The laws -/

namespace VersionedText

/-- An insert and a delete leave every position before their place, and every line that starts
before it. They leave the position of the place itself, too, unless a carriage return stands right
before it, and a line feed comes to stand behind it that was not there or goes that was. -/
theorem positions_before_an_edit_stay (doc : VersionedText) (edit : Edit) :
    (∀ offset < doc.placeOf edit, ∃ position, doc.position? offset = some position ∧
      (doc.edit edit).position? offset = some position) ∧
    (∀ line start, start < doc.placeOf edit →
      ((doc.edit edit).lineStart? line = some start ↔ doc.lineStart? line = some start)) ∧
    ((doc.edit edit).position? (doc.placeOf edit) = doc.position? (doc.placeOf edit) ↔
      ((doc.text.take (doc.placeOf edit)).getLast? = some '\r' →
        ((doc.edit edit).text[doc.placeOf edit]? = some '\n' ↔
          doc.text[doc.placeOf edit]? = some '\n'))) := by
  have hsame := doc.edit_sameBefore edit
  exact ⟨hsame.position?_eq, hsame.lineStart?_iff, hsame.position?_edge_iff⟩

/-- An insert between a carriage return and its line feed leaves the position of the carriage return
and the start of its line. The place itself is on the next line then. -/
theorem positions_before_a_parted_delimiter_stay :
    let doc : VersionedText := .ofText ['\n', 'a', '\r', '\n', 'b']
    2 < doc.placeOf (.insert 3 ['c']) ∧
      doc.position? 2 = some (1, 1) ∧ (doc.insert 3 ['c']).position? 2 = some (1, 1) ∧
      1 < doc.placeOf (.insert 3 ['c']) ∧
      doc.lineStart? 1 = some 1 ∧ (doc.insert 3 ['c']).lineStart? 1 = some 1 ∧
      doc.position? 3 = some (1, 2) ∧ (doc.insert 3 ['c']).position? 3 = some (2, 0) := by
  intro doc
  obtain ⟨hpositions, hstarts, -⟩ := positions_before_an_edit_stay doc (.insert 3 ['c'])
  have hoffset : 2 < doc.placeOf (.insert 3 ['c']) := by decide
  have hstart : 1 < doc.placeOf (.insert 3 ['c']) := by decide
  obtain ⟨position, hbefore, hafter⟩ := hpositions 2 hoffset
  have hposition : doc.position? 2 = some (1, 1) := by decide
  have hline : doc.lineStart? 1 = some 1 := by decide
  exact ⟨hoffset, hposition, hafter.trans (hbefore.symm.trans hposition), hstart, hline,
    (hstarts 1 1 hstart).mpr hline, by decide, by decide⟩

/-- Whoever keeps positions and line starts from before an edge can keep them through any number
of edits that fall at the edge or behind it. -/
theorem positions_before_all_edits_stay {edge : Nat} {doc after : VersionedText}
    (h : doc.EditedBehind edge after) (hle : edge ≤ doc.length) :
    (∀ offset < edge, ∃ position, doc.position? offset = some position ∧
      after.position? offset = some position) ∧
    ∀ line start, start < edge →
      (after.lineStart? line = some start ↔ doc.lineStart? line = some start) :=
  ⟨(h.sameBefore hle).position?_eq, (h.sameBefore hle).lineStart?_iff⟩

end VersionedText

end RegionScan
