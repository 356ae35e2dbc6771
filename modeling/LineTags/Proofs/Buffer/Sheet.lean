import LineTags.Proofs.Buffer.Binding
import LineTags.Proofs.Buffer.Calls
import LineTags.Proofs.Buffer.Rows
import LineTags.Proofs.Script.Survival

/-!
# Documents as sheets

Whoever edits by whole lines need not think of offsets and anchors at all: a document is a sheet, a list of rows, each a text with or without an identifier. Inserting lines puts rows in, deleting lines takes rows out, binding fills in an identifier and unbinding wipes it. That a tracker over a plain buffer behaves like this is due to the offsets that edits by whole lines use: they never fall inside a row, so an anchor that covers its row moves along with it and covers it still, and an anchor whose row is deleted collapses.
-/

namespace LineTags

open Text

/-! ## Replacing rows -/

/-- The rows from the `first`th up to the `stop`th give way to others. -/
def splice {α : Type} (first stop : Nat) (added rows : List α) : List α := rows.take first ++ added ++ rows.drop stop

section Splice

variable {α : Type} {first stop k : Nat} {added rows : List α}

theorem map_splice {γ : Type} (f : α → γ) (first stop : Nat) (added rows : List α) :
    (splice first stop added rows).map f = splice first stop (added.map f) (rows.map f) := by
  simp [splice]

theorem getElem?_splice_before (hk : k < first) (hfirst : first ≤ rows.length) :
    (splice first stop added rows)[k]? = rows[k]? := by
  rw [splice, List.append_assoc, List.getElem?_append_left (by simp; omega), List.getElem?_take_of_lt hk]

theorem getElem?_splice_behind (hk : stop ≤ k) (hfirst : first ≤ rows.length) :
    (splice first stop added rows)[first + added.length + (k - stop)]? = rows[k]? := by
  have hlength : (rows.take first ++ added).length = first + added.length := by
    simp
    omega
  rw [splice, List.getElem?_append_right (by omega), hlength, Nat.add_sub_cancel_left, List.getElem?_drop]
  congr 1
  omega

/-- Where a row of the new list comes from. -/
theorem splice_cases {i : Nat} {x : α} (hx : (splice first stop added rows)[i]? = some x) (hfirst : first ≤ rows.length) :
    (i < first ∧ rows[i]? = some x) ∨ x ∈ added ∨
      ∃ k, stop ≤ k ∧ i = first + added.length + (k - stop) ∧ rows[k]? = some x := by
  rcases Nat.lt_or_ge i first with hi | hi
  · rw [getElem?_splice_before hi hfirst] at hx
    exact .inl ⟨hi, hx⟩
  rcases Nat.lt_or_ge i (first + added.length) with hi' | hi'
  · rw [splice, List.append_assoc, List.getElem?_append_right (by simp; omega),
      List.getElem?_append_left (by simp; omega)] at hx
    exact .inr (.inl (List.mem_of_getElem? hx))
  · have hback : i = first + added.length + (stop + (i - (first + added.length)) - stop) := by omega
    rw [hback, getElem?_splice_behind (Nat.le_add_right _ _) hfirst] at hx
    exact .inr (.inr ⟨_, Nat.le_add_right _ _, hback, hx⟩)

theorem rowStart_splice_before {added rows : List Text} (hk : k ≤ first) (hfirst : first ≤ rows.length) :
    rowStart (splice first stop added rows) k = rowStart rows k := by
  have hlength : (rows.take first).length = first := by
    simp
    omega
  rw [splice, List.append_assoc, rowStart_append_left _ _ (by omega), rowStart_take _ hk]

theorem rowStart_splice_behind (added : List Text) {rows : List Text} (hk : stop ≤ k) (hfirst : first ≤ rows.length) :
    rowStart (splice first stop added rows) (first + added.length + (k - stop)) + rowStart rows stop =
      rowStart rows first + (ended added).length + rowStart rows k := by
  have hlength : (rows.take first ++ added).length = first + added.length := by
    simp
    omega
  have hdrop := rowStart_drop rows (k - stop) stop
  rw [Nat.add_sub_cancel' hk] at hdrop
  rw [splice, ← hlength, rowStart_append_right, ended_append, List.length_append, ← hdrop]
  show rowStart rows first + _ + _ + _ = _
  omega

theorem ended_splice (first stop : Nat) (added rows : List Text) :
    ended (splice first stop added rows) = ended (rows.take first) ++ ended added ++ ended (rows.drop stop) := by
  simp [splice]

end Splice

/-! ## Sheets -/

/-- The rows of a document: texts, some with an identifier. -/
abbrev Sheet := List (Text × Option Text)

namespace Sheet

/-- Rows without identifiers, before the row with the given number or behind all rows. -/
def insertLines (before : Int) (ls : List Text) (sheet : Sheet) : Sheet :=
  let first := min (before.toNat - 1) sheet.length
  splice first first (ls.map (·, none)) sheet

/-- Takes rows out. A sheet is never empty: a blank row takes the place of the last ones. -/
def deleteLines (first last : Int) (sheet : Sheet) : Sheet :=
  match splice (first.toNat - 1) last.toNat [] sheet with
  | [] => [([], none)]
  | rows => rows

/-- Fills in an identifier where a row has code and none yet. -/
def bind (line : Int) (identifier : Text) (sheet : Sheet) : Sheet :=
  sheet.mapIdx fun k row =>
    if (k : Int) + 1 = line ∧ hasNoCode row.1 = false ∧ row.2 = none then (row.1, some identifier) else row

/-- Wipes an identifier wherever it stands. -/
def unbind (identifier : Text) (sheet : Sheet) : Sheet :=
  sheet.map fun row => if row.2 = some identifier then (row.1, none) else row

def rows (sheet : Sheet) : List Text := sheet.map Prod.fst

def text (sheet : Sheet) : Text := unlines sheet.rows

/-- The identifiers with the numbers of their rows, in order. -/
def ids (sheet : Sheet) : List LineId := Extraction.numbered 1 sheet

/-- The ends of a row in the text. -/
def range (sheet : Sheet) (k : Nat) : AnchorRange := ⟨rowStart sheet.rows k, rowStart sheet.rows (k + 1) - 1⟩

variable {sheet : Sheet} {k : Nat} {row : Text × Option Text}

@[simp] theorem length_rows (sheet : Sheet) : sheet.rows.length = sheet.length := by
  simp [rows]

theorem getElem?_rows (hrow : sheet[k]? = some row) : sheet.rows[k]? = some row.1 := by
  simp [rows, hrow]

theorem stop_range (hrow : sheet[k]? = some row) : (sheet.range k).stop = (sheet.range k).start + row.1.length := by
  simp only [range, rowStart_succ (getElem?_rows hrow)]
  omega

theorem mem_ids {x : LineId} :
    x ∈ sheet.ids ↔ ∃ (k : Nat) (row : Text), sheet[k]? = some (row, some x.identifier) ∧ x.line = (k : Int) + 1 := by
  rw [ids, mem_numbered]
  constructor
  · intro h
    obtain ⟨k, ⟨row, identifier?⟩, hrow, hline, hid⟩ := h
    obtain rfl : identifier? = some x.identifier := hid
    exact ⟨k, row, hrow, by omega⟩
  · intro h
    obtain ⟨k, row, hrow, hline⟩ := h
    exact ⟨k, _, hrow, by omega, rfl⟩

/-! ### What binding fills in -/

theorem getElem?_bind (line : Int) (identifier : Text) (sheet : Sheet) (k : Nat) :
    (sheet.bind line identifier)[k]? = sheet[k]?.map fun row =>
      if (k : Int) + 1 = line ∧ hasNoCode row.1 = false ∧ row.2 = none then (row.1, some identifier) else row :=
  List.getElem?_mapIdx

theorem bind_of_free {text identifier : Text} (hrow : sheet[k]? = some (text, none)) (hcode : hasNoCode text = false) :
    sheet.bind ((k : Int) + 1) identifier = sheet.set k (text, some identifier) := by
  obtain ⟨hk, -⟩ := List.getElem?_eq_some_iff.1 hrow
  apply List.ext_getElem?
  intro k'
  rw [getElem?_bind]
  by_cases hkk : k = k'
  · subst hkk
    rw [hrow, Option.map_some, if_pos ⟨rfl, hcode, rfl⟩, List.getElem?_set_self hk]
  · rw [List.getElem?_set_ne hkk]
    cases sheet[k']? with
    | none => rfl
    | some row =>
      rw [Option.map_some, if_neg]
      intro hline
      omega

/-- Where no row with the number is free, binding changes nothing. -/
theorem bind_of_not_free {line : Int} {identifier : Text}
    (hrows : ∀ (k : Nat) (row : Text × Option Text), sheet[k]? = some row → line = (k : Int) + 1 → hasNoCode row.1 = true ∨ row.2 ≠ none) :
    sheet.bind line identifier = sheet := by
  apply List.ext_getElem?
  intro k
  rw [getElem?_bind]
  cases hrow : sheet[k]? with
  | none => rfl
  | some row =>
    rw [Option.map_some, if_neg]
    intro hfree
    obtain ⟨hline, hcode, hid⟩ := hfree
    obtain hcode' | hid' := hrows k row hrow hline.symm
    · simp [hcode] at hcode'
    · exact hid' hid

/-! ### Where deleting ends -/

theorem deleteLines_eq_splice {first last : Int} (hne : splice (first.toNat - 1) last.toNat [] sheet ≠ []) :
    sheet.deleteLines first last = splice (first.toNat - 1) last.toNat [] sheet := by
  rw [deleteLines]
  split
  · next hnil => exact absurd hnil hne
  · rfl

theorem deleteLines_of_lt {first last : Int} (hpos : 0 ≤ last) (hlast : last < sheet.length) :
    sheet.deleteLines first last = splice (first.toNat - 1) last.toNat [] sheet := by
  apply deleteLines_eq_splice
  have hrest : sheet.drop last.toNat ≠ [] := by
    simp
    omega
  simp [splice, hrest]

theorem deleteLines_of_le {first last : Int} (hfirst : 1 < first) (hlast : sheet.length ≤ last) (hne : sheet ≠ []) :
    sheet.deleteLines first last = splice (first.toNat - 1) sheet.length [] sheet := by
  have hdrop : splice (first.toNat - 1) last.toNat [] sheet = splice (first.toNat - 1) sheet.length [] sheet := by
    rw [splice, splice, List.drop_of_length_le (show sheet.length ≤ last.toNat by omega), List.drop_length]
  rw [deleteLines_eq_splice, hdrop]
  rw [hdrop]
  simp [splice, hne]
  omega

theorem deleteLines_all {last : Int} (hlast : sheet.length ≤ last) : sheet.deleteLines 1 last = [([], none)] := by
  have hnil : splice 0 last.toNat [] sheet = [] := by
    simp [splice]
    omega
  rw [deleteLines, show (1 : Int).toNat - 1 = 0 from rfl, hnil]

end Sheet

/-! ## Trackers that follow a sheet -/

/-- What a document shows, as a sheet. -/
def Tracker.sheet {β : Type} [LineBuffer β] (t : Tracker β) : Sheet :=
  (lines t.text).mapIdx fun k l => (l, t.identifierAt? ((k : Int) + 1))

/-- A tracker whose text is that of a sheet. An anchor that has not collapsed covers a row with its identifier, and every row with an identifier has such an anchor. -/
structure Follows (t : Tracker MemoryBuffer) (sheet : Sheet) : Prop where
  sound : t.Sound
  nonempty : sheet ≠ []
  plain : ∀ row ∈ sheet, '\n' ∉ row.1
  filled : ∀ row ∈ sheet, row.2 ≠ none → row.1 ≠ []
  text : t.text = sheet.text
  anchored : ∀ b ∈ t.bound, ∀ r, t.buffer.anchors.lookup b.1 = some r → r.start < r.stop →
    ∃ k row, sheet[k]? = some (row, some b.2) ∧ r = sheet.range k
  carried : ∀ k row identifier, sheet[k]? = some (row, some identifier) →
    ∃ handle, (handle, identifier) ∈ t.bound ∧ t.buffer.anchors.lookup handle = some (sheet.range k)

namespace Follows

variable {t : Tracker MemoryBuffer} {sheet : Sheet} {k : Nat} {row : Text × Option Text}

theorem lines_text (h : Follows t sheet) : lines t.text = sheet.rows := by
  rw [h.text]
  refine lines_unlines (by simpa [Sheet.rows] using h.nonempty) fun r hr => ?_
  obtain ⟨row, hrow, rfl⟩ := List.mem_map.1 hr
  exact h.plain row hrow

theorem lineCount_text (h : Follows t sheet) : t.text.lineCount = sheet.length := by
  rw [← length_lines, h.lines_text, Sheet.length_rows]

theorem text_lineFeed (h : Follows t sheet) : t.text ++ ['\n'] = ended sheet.rows := by
  rw [h.text, Sheet.text, unlines_append_lineFeed (by simpa [Sheet.rows] using h.nonempty)]

theorem length_text (h : Follows t sheet) : t.text.length + 1 = rowStart sheet.rows sheet.length := by
  rw [h.text, Sheet.text, ← Sheet.length_rows, rowStart_length (by simpa [Sheet.rows] using h.nonempty)]

/-- An anchor that covers a row with an identifier has not collapsed. -/
theorem range_lt (h : Follows t sheet) {text identifier : Text} (hrow : sheet[k]? = some (text, some identifier)) :
    (sheet.range k).start < (sheet.range k).stop := by
  have hne : text ≠ [] := h.filled _ (List.mem_of_getElem? hrow) (by simp)
  have hpos := List.length_pos_of_ne_nil hne
  rw [Sheet.stop_range hrow]
  simp only
  omega

/-! ### Edits -/

/-- Every anchor moves as its row does when the rows between the offsets `start` and `stop` give way to others that take up `width` characters. -/
structure MovesRows (move : AnchorRange → AnchorRange) (start stop width size : Nat) : Prop where
  collapsed : ∀ r, r.stop ≤ r.start → (move r).stop ≤ (move r).start
  before : ∀ r, r.start < r.stop → r.stop < start → move r = r
  behind : ∀ r, stop ≤ r.start → r.start < r.stop → r.stop ≤ size →
    move r = ⟨r.start - stop + start + width, r.stop - stop + start + width⟩
  lost : ∀ r, start ≤ r.start → r.stop < stop → (move r).stop ≤ (move r).start

theorem rows_splice (first stop : Nat) (added : List Text) (sheet : Sheet) :
    Sheet.rows (splice first stop (added.map (·, none)) sheet) = splice first stop added sheet.rows := by
  simp [Sheet.rows, map_splice, Function.comp_def]

theorem range_splice_before {first stop : Nat} {added : List Text} (hk : k < first) (hfirst : first ≤ sheet.length) :
    Sheet.range (splice first stop (added.map (·, none)) sheet) k = sheet.range k := by
  have hfirst' : first ≤ sheet.rows.length := by simpa using hfirst
  rw [Sheet.range, Sheet.range, rows_splice, rowStart_splice_before (Nat.le_of_lt hk) hfirst',
    rowStart_splice_before hk hfirst']

theorem range_splice_behind {first stop : Nat} {added : List Text} (hrow : sheet[k]? = some row) (hk : stop ≤ k)
    (hfirst : first ≤ sheet.length) :
    Sheet.range (splice first stop (added.map (·, none)) sheet) (first + added.length + (k - stop)) =
      ⟨(sheet.range k).start - rowStart sheet.rows stop + rowStart sheet.rows first + (ended added).length,
        (sheet.range k).stop - rowStart sheet.rows stop + rowStart sheet.rows first + (ended added).length⟩ := by
  have hfirst' : first ≤ sheet.rows.length := by simpa using hfirst
  have hstart := rowStart_splice_behind added hk hfirst'
  have hend := rowStart_splice_behind added (show stop ≤ k + 1 by omega) hfirst'
  have hnext : first + added.length + (k + 1 - stop) = first + added.length + (k - stop) + 1 := by omega
  rw [hnext] at hend
  have hle := rowStart_le sheet.rows hk
  have hlt := rowStart_succ (Sheet.getElem?_rows hrow)
  simp only [Sheet.range, rows_splice, AnchorRange.mk.injEq]
  omega

/-- An edit that replaces rows and moves every anchor as its row moves keeps the tracker and the sheet together. -/
theorem spliced (h : Follows t sheet) {b : MemoryBuffer} {first stop : Nat} (added : List Text)
    (move : AnchorRange → AnchorRange) (hfirst : first ≤ sheet.length)
    (hmove : MovesRows move (rowStart sheet.rows first) (rowStart sheet.rows stop) (ended added).length t.text.length)
    (hanchors : b.anchors = t.buffer.anchors.map fun a => (a.1, move a.2)) (hnext : b.nextHandle = t.buffer.nextHandle)
    (hadded : ∀ l ∈ added, '\n' ∉ l) (hne : splice first stop (added.map (·, none)) sheet ≠ [])
    (htext : b.text ++ ['\n'] = ended (splice first stop added sheet.rows)) :
    Follows { t with buffer := b } (splice first stop (added.map (·, none)) sheet) := by
  have hlookup : ∀ handle, b.anchors.lookup handle = (t.buffer.anchors.lookup handle).map move := by
    intro handle
    rw [hanchors, Keyed.lookup_map]
  have hlength : (added.map fun l => (l, (none : Option Text))).length = added.length := by simp
  have hmem : ∀ row ∈ splice first stop (added.map (·, none)) sheet, row ∈ sheet ∨ (row.1 ∈ added ∧ row.2 = none) := by
    intro row hrow
    obtain ⟨i, hi⟩ := List.mem_iff_getElem?.1 hrow
    obtain ⟨-, hold⟩ | hnew | ⟨k, -, -, hold⟩ := splice_cases hi hfirst
    · exact .inl (List.mem_of_getElem? hold)
    · obtain ⟨l, hl, rfl⟩ := List.mem_map.1 hnew
      exact .inr ⟨hl, rfl⟩
    · exact .inl (List.mem_of_getElem? hold)
  -- Where the anchor of a row goes, by where the row goes.
  have hbefore : ∀ k text identifier, sheet[k]? = some (text, some identifier) → k < first →
      move (sheet.range k) = Sheet.range (splice first stop (added.map (·, none)) sheet) k := by
    intro k text identifier hrow hk
    have hlive := h.range_lt hrow
    have hle : rowStart sheet.rows (k + 1) ≤ rowStart sheet.rows first := rowStart_le sheet.rows hk
    rw [range_splice_before hk hfirst, hmove.before _ hlive]
    simp only [Sheet.range] at hlive ⊢
    omega
  have hbehind : ∀ k text identifier, sheet[k]? = some (text, some identifier) → stop ≤ k →
      move (sheet.range k) = Sheet.range (splice first stop (added.map (·, none)) sheet) (first + added.length + (k - stop)) := by
    intro k text identifier hrow hk
    obtain ⟨hlt, -⟩ := List.getElem?_eq_some_iff.1 hrow
    have hle : rowStart sheet.rows (k + 1) ≤ rowStart sheet.rows sheet.length := rowStart_le sheet.rows hlt
    rw [← h.length_text] at hle
    rw [range_splice_behind hrow hk hfirst]
    refine hmove.behind _ (rowStart_le sheet.rows hk) (h.range_lt hrow) ?_
    simp only [Sheet.range]
    omega
  refine ⟨?_, hne, fun row hrow => ?_, fun row hrow hid => ?_, ?_, fun a ha r hr hlive => ?_,
    fun i text identifier hrow => ?_⟩
  · refine Tracker.sound_withBuffer h.sound (fun a ha => ?_) hnext
    rw [hanchors] at ha
    obtain ⟨a', ha', rfl⟩ := List.mem_map.1 ha
    rw [hnext]
    exact h.sound.buffer a' ha'
  · obtain hold | ⟨hnew, -⟩ := hmem row hrow
    · exact h.plain row hold
    · exact hadded _ hnew
  · obtain hold | ⟨-, hnone⟩ := hmem row hrow
    · exact h.filled row hold hid
    · exact absurd hnone hid
  · refine unlines_eq_of_append (by simpa [Sheet.rows] using hne) ?_
    rw [rows_splice]
    exact htext
  · rw [hlookup, Option.map_eq_some_iff] at hr
    obtain ⟨r', hr', rfl⟩ := hr
    have hlive' : r'.start < r'.stop := by
      by_contra hcollapsed
      have := hmove.collapsed r' (by omega)
      omega
    obtain ⟨k, text, hrow, rfl⟩ := h.anchored a ha r' hr' hlive'
    rcases Nat.lt_or_ge k first with hlow | hlow
    · exact ⟨k, text, by rw [getElem?_splice_before hlow hfirst, hrow], hbefore k _ _ hrow hlow⟩
    rcases Nat.lt_or_ge k stop with hmiddle | hhigh
    · have hle : rowStart sheet.rows (k + 1) ≤ rowStart sheet.rows stop := rowStart_le sheet.rows hmiddle
      have hdead := hmove.lost (sheet.range k) (rowStart_le sheet.rows hlow) (by simp only [Sheet.range] at hlive' ⊢; omega)
      omega
    · refine ⟨_, text, ?_, hbehind k _ _ hrow hhigh⟩
      rw [← hlength, getElem?_splice_behind hhigh hfirst, hrow]
  · obtain ⟨hlow, hold⟩ | hnew | ⟨k, hhigh, rfl, hold⟩ := splice_cases hrow hfirst
    · obtain ⟨handle, hbound, hr⟩ := h.carried _ _ _ hold
      refine ⟨handle, hbound, ?_⟩
      rw [hlookup, hr, Option.map_some, hbefore i _ _ hold hlow]
    · obtain ⟨l, -, heq⟩ := List.mem_map.1 hnew
      cases heq
    · obtain ⟨handle, hbound, hr⟩ := h.carried _ _ _ hold
      refine ⟨handle, hbound, ?_⟩
      rw [hlookup, hr, Option.map_some, hbehind k _ _ hold hhigh, hlength]

section Moves

open AnchorRange

theorem movesRows_afterInsert (start width size : Nat) : MovesRows (afterInsert start width) start start width size where
  collapsed r hr := collapsed_afterInsert hr start width
  before r hlive hbefore := by
    rw [afterInsert, if_neg (by omega), if_neg (by omega)]
  behind r hbehind hlive _ := by
    rw [afterInsert, if_pos hbehind, if_pos (by omega), Nat.sub_add_cancel hbehind, Nat.sub_add_cancel (by omega)]
  lost r hstart hstop := collapsed_afterInsert (by omega) start width

/-- Behind the last row nothing moves. -/
theorem movesRows_afterInsert_end (width size : Nat) :
    MovesRows (afterInsert size width) (size + 1) (size + 1) width size where
  collapsed r hr := collapsed_afterInsert hr size width
  before r hlive hbefore := by
    rw [afterInsert, if_neg (by omega), if_neg (by omega)]
  behind r hbehind hlive hstop := by omega
  lost r hstart hstop := collapsed_afterInsert (by omega) size width

theorem movesRows_afterDelete {start stop : Nat} (hle : start ≤ stop) (size : Nat) :
    MovesRows (afterDelete start stop) start stop 0 size where
  collapsed r hr := collapsed_afterDelete hr start stop
  before r hlive hbefore := by
    rw [afterDelete, shrink_of_le (by omega) hle, shrink_of_le (by omega) hle]
  behind r hbehind hlive _ := by
    rw [afterDelete, shrink_of_ge hbehind, shrink_of_ge (by omega), AnchorRange.mk.injEq]
    omega
  lost r hstart hstop := by
    rcases Nat.le_total r.stop r.start with hdead | hlive
    · exact collapsed_afterDelete hdead start stop
    · rw [afterDelete, shrink_between hstart (by omega), shrink_between (by omega) (by omega)]

/-- With the last row goes the line feed before the first row that is deleted. -/
theorem movesRows_afterDelete_end {start size : Nat} (hstart : 1 ≤ start) (hle : start ≤ size + 1) :
    MovesRows (afterDelete (start - 1) size) start (size + 1) 0 size where
  collapsed r hr := collapsed_afterDelete hr (start - 1) size
  before r hlive hbefore := by
    rw [afterDelete, shrink_of_le (by omega) (by omega), shrink_of_le (by omega) (by omega)]
  behind r hbehind hlive hstop := by omega
  lost r hstart hstop := by
    rcases Nat.le_total r.stop r.start with hdead | hlive
    · exact collapsed_afterDelete hdead (start - 1) size
    · rw [afterDelete, shrink_between (by omega) (by omega), shrink_between (by omega) (by omega)]

/-- With all rows goes the whole text, and a blank row is left. -/
theorem movesRows_afterDelete_all (size : Nat) : MovesRows (afterDelete 0 size) 0 (size + 1) 1 size where
  collapsed r hr := collapsed_afterDelete hr 0 size
  before r hlive hbefore := by omega
  behind r hbehind hlive hstop := by omega
  lost r hstart hstop := by
    rcases Nat.le_total r.stop r.start with hdead | hlive
    · exact collapsed_afterDelete hdead 0 size
    · rw [afterDelete, shrink_between (by omega) (by omega), shrink_between (by omega) (by omega)]

end Moves

theorem rowStart_le_length (h : Follows t sheet) (hk : k < sheet.length) : rowStart sheet.rows k ≤ t.text.length := by
  have hlt := rowStart_add_lt (Sheet.getElem?_rows (List.getElem?_eq_getElem hk)) hk
  have hlength := h.length_text
  omega

theorem exists_line? (h : Follows t sheet) (line : Int) (hline : 1 ≤ line ∧ line ≤ sheet.length) :
    ∃ l, t.buffer.text.line? line = some l := by
  apply exists_line?_iff.2
  rw [show t.buffer.text.lineCount = sheet.length from h.lineCount_text]
  exact hline

theorem insertLines (h : Follows t sheet) {before : Int} (hbefore : 1 ≤ before) {ls : List Text} (hne : ls ≠ [])
    (hls : ∀ l ∈ ls, '\n' ∉ l) :
    ∃ b, LineBuffer.insertLines before ls t.buffer = .ok b ∧ Follows { t with buffer := b } (sheet.insertLines before ls) := by
  have hlines : lines t.buffer.text = sheet.rows := h.lines_text
  have hcount : LineBuffer.lineCount t.buffer = sheet.length := h.lineCount_text
  have hsheet := List.length_pos_of_ne_nil h.nonempty
  have hspliced : ∀ first, splice first first (ls.map (·, (none : Option Text))) sheet ≠ [] := by
    intro first hnil
    simp [splice, hne] at hnil
  unfold LineBuffer.insertLines
  dsimp only
  rw [hcount]
  by_cases hpast : (sheet.length : Int) < before
  · obtain ⟨l, hl⟩ := h.exists_line? sheet.length (by omega)
    have hfirst : min (before.toNat - 1) sheet.length = sheet.length := by omega
    have hlast : rowStart (lines t.buffer.text) ((sheet.length : Int).toNat - 1) + l.length = t.buffer.text.length := by
      have hrow := (line?_eq_some_iff.1 hl).2
      have hcount' := length_lines t.buffer.text
      rw [show t.buffer.text.lineCount = sheet.length from h.lineCount_text] at hcount'
      rw [rowStart_add_of_last hrow (by omega), unlines_lines]
    have hoffset := offset?_length hl
    rw [hlast] at hoffset
    rw [if_pos hpast, MemoryBuffer.getLine_of_line? hl]
    refine ⟨_, MemoryBuffer.insert_of_offset? hoffset _, ?_⟩
    rw [Sheet.insertLines, hfirst]
    have hwidth : ('\n' :: unlines ls).length = (ended ls).length := by
      rw [length_ended hne, List.length_cons]
    refine h.spliced ls (AnchorRange.afterInsert t.text.length (ended ls).length) (Nat.le_refl _) ?_ ?_ rfl hls
      (hspliced _) ?_
    · rw [← h.length_text]
      exact movesRows_afterInsert_end _ _
    · rw [← hwidth]
      rfl
    · have htext := h.text_lineFeed
      have hrows : sheet.length = sheet.rows.length := sheet.length_rows.symm
      rw [ended_splice, hrows, List.take_length, List.drop_length, ← htext, ← unlines_append_lineFeed hne]
      simp [MemoryBuffer.insertAt, Tracker.text, LineBuffer.text]
  · obtain ⟨l, hl⟩ := h.exists_line? before (by omega)
    have hfirst : min (before.toNat - 1) sheet.length = before.toNat - 1 := by omega
    have hoffset := offset?_zero hl
    rw [hlines] at hoffset
    rw [if_neg hpast]
    refine ⟨_, MemoryBuffer.insert_of_offset? hoffset _, ?_⟩
    rw [Sheet.insertLines, hfirst, unlines_append_lineFeed hne]
    refine h.spliced ls _ (by omega) (movesRows_afterInsert _ _ _) rfl rfl hls (hspliced _) ?_
    have hle : rowStart sheet.rows (before.toNat - 1) ≤ t.text.length := h.rowStart_le_length (by omega)
    rw [ended_splice, ← take_rowStart h.text_lineFeed hle, ← drop_rowStart h.text_lineFeed hle]
    simp [MemoryBuffer.insertAt, Tracker.text, LineBuffer.text]

/-- The end of a row, as an offset. -/
theorem offset?_rowEnd (h : Follows t sheet) {line : Int} {l : Text} (hl : t.buffer.text.line? line = some l) :
    t.buffer.text.offset? line l.length = some (rowStart sheet.rows line.toNat - 1) := by
  obtain ⟨hone, hrow⟩ := line?_eq_some_iff.1 hl
  rw [show lines t.buffer.text = sheet.rows from h.lines_text] at hrow
  have hnext := rowStart_succ hrow
  have hnat : line.toNat - 1 + 1 = line.toNat := by omega
  rw [hnat] at hnext
  rw [offset?_length hl, show lines t.buffer.text = sheet.rows from h.lines_text, hnext]
  simp

theorem offset?_rowStart (h : Follows t sheet) {line : Int} {l : Text} (hl : t.buffer.text.line? line = some l) :
    t.buffer.text.offset? line 0 = some (rowStart sheet.rows (line.toNat - 1)) := by
  rw [offset?_zero hl, show lines t.buffer.text = sheet.rows from h.lines_text]

/-- Rows behind which others are left go with their line feeds. -/
theorem delete_inner (h : Follows t sheet) {first stop : Int} (hone : 1 ≤ first) (hle : first ≤ stop)
    (hstop : stop < sheet.length) :
    ∃ b, LineBuffer.delete first 0 (stop + 1) 0 t.buffer = .ok b ∧
      Follows { t with buffer := b } (splice (first.toNat - 1) stop.toNat [] sheet) := by
  obtain ⟨l, hl⟩ := h.exists_line? first (by omega)
  obtain ⟨next, hnext⟩ := h.exists_line? (stop + 1) (by omega)
  have hend := h.offset?_rowStart hnext
  rw [show (stop + 1).toNat - 1 = stop.toNat by omega] at hend
  have hlt : rowStart sheet.rows (first.toNat - 1) ≤ rowStart sheet.rows stop.toNat := rowStart_le _ (by omega)
  have hsize : rowStart sheet.rows stop.toNat ≤ t.text.length := h.rowStart_le_length (by omega)
  have hrest : sheet.drop stop.toNat ≠ [] := by
    simp
    omega
  refine ⟨_, MemoryBuffer.delete_of_offset? (h.offset?_rowStart hl) hend hlt, ?_⟩
  refine h.spliced [] _ (by omega) (movesRows_afterDelete hlt _) rfl rfl (by simp) (by simp [splice, hrest]) ?_
  rw [ended_splice, ← take_rowStart h.text_lineFeed (by omega), ← drop_rowStart h.text_lineFeed hsize]
  simp [MemoryBuffer.deleteBetween, Tracker.text, LineBuffer.text]

/-- The last rows go with the line feed before them. -/
theorem delete_end (h : Follows t sheet) {first : Int} (hone : 1 < first) (hexists : first ≤ sheet.length) {l l' : Text}
    (hl : t.buffer.text.line? (first - 1) = some l) (hl' : t.buffer.text.line? sheet.length = some l') :
    ∃ b, LineBuffer.delete (first - 1) l.length sheet.length l'.length t.buffer = .ok b ∧
      Follows { t with buffer := b } (splice (first.toNat - 1) sheet.length [] sheet) := by
  have hlength := h.length_text
  have hstart := h.offset?_rowEnd hl
  rw [show (first - 1).toNat = first.toNat - 1 by omega] at hstart
  have hend := h.offset?_rowEnd hl'
  rw [Int.toNat_natCast, ← hlength, Nat.add_sub_cancel] at hend
  have hrows : sheet.rows.take (first.toNat - 1) ≠ [] := by
    simp [Sheet.rows, h.nonempty]
    omega
  have hrow := rowStart_add_lt (Sheet.getElem?_rows (List.getElem?_eq_getElem (show 0 < sheet.length by omega)))
    (show 0 < first.toNat - 1 by omega)
  have hle : rowStart sheet.rows (first.toNat - 1) ≤ t.text.length + 1 := by
    rw [hlength]
    exact rowStart_le _ (by omega)
  refine ⟨_, MemoryBuffer.delete_of_offset? hstart hend (by omega), ?_⟩
  refine h.spliced [] (AnchorRange.afterDelete (rowStart sheet.rows (first.toNat - 1) - 1) t.text.length)
    (by omega) ?_ rfl rfl (by simp) ?_ ?_
  · rw [← hlength]
    exact movesRows_afterDelete_end (by omega) hle
  · simp [splice, h.nonempty]
    omega
  · rw [ended_splice, ← take_rowStart_sub_one h.text_lineFeed hrows hle, ← Sheet.length_rows, List.drop_length]
    simp [MemoryBuffer.deleteBetween, Tracker.text, LineBuffer.text]

/-- When all rows go, a blank one is left. -/
theorem delete_all (h : Follows t sheet) {l' : Text} (hl' : t.buffer.text.line? sheet.length = some l') :
    ∃ b, LineBuffer.delete 1 0 sheet.length l'.length t.buffer = .ok b ∧
      Follows { t with buffer := b } [([], none)] := by
  have hlength := h.length_text
  have hsheet := List.length_pos_of_ne_nil h.nonempty
  obtain ⟨l, hl⟩ := h.exists_line? 1 (by omega)
  have hend := h.offset?_rowEnd hl'
  rw [Int.toNat_natCast, ← hlength, Nat.add_sub_cancel] at hend
  have hblank : ([([], none)] : Sheet) = splice 0 sheet.length (([[]] : List Text).map (·, none)) sheet := by
    simp [splice]
  refine ⟨_, MemoryBuffer.delete_of_offset? (h.offset?_rowStart hl) hend (by simp), ?_⟩
  rw [hblank]
  refine h.spliced [[]] (AnchorRange.afterDelete 0 t.text.length) (Nat.zero_le _) ?_ rfl rfl (by simp) (by simp [splice]) ?_
  · rw [← hlength, rowStart_zero]
    exact movesRows_afterDelete_all _
  · rw [ended_splice, ← Sheet.length_rows, List.drop_length]
    simp [MemoryBuffer.deleteBetween, Tracker.text, LineBuffer.text]

theorem deleteLines (h : Follows t sheet) {first last : Int} (hone : 1 ≤ first) (hle : first ≤ last)
    (hexists : first ≤ sheet.length) :
    ∃ b, LineBuffer.deleteLines first last t.buffer = .ok b ∧ Follows { t with buffer := b } (sheet.deleteLines first last) := by
  have hcount : LineBuffer.lineCount t.buffer = sheet.length := h.lineCount_text
  unfold LineBuffer.deleteLines
  dsimp only
  rw [hcount]
  by_cases hinner : min last (sheet.length : Int) < sheet.length
  · have hmin : min last (sheet.length : Int) = last := by omega
    rw [if_pos hinner, hmin, Sheet.deleteLines_of_lt (by omega) (by omega)]
    exact h.delete_inner hone hle (by omega)
  obtain ⟨l', hl'⟩ := h.exists_line? sheet.length (by omega)
  have hmin : min last (sheet.length : Int) = sheet.length := by omega
  rw [if_neg hinner, hmin, MemoryBuffer.getLine_of_line? hl']
  by_cases hfirst : 1 < first
  · obtain ⟨l, hl⟩ := h.exists_line? (first - 1) (by omega)
    rw [if_pos hfirst, MemoryBuffer.getLine_of_line? hl, Sheet.deleteLines_of_le hfirst (by omega) h.nonempty]
    exact h.delete_end hfirst hexists hl hl'
  · obtain rfl : first = 1 := by omega
    rw [if_neg hfirst, Sheet.deleteLines_all (by omega)]
    exact h.delete_all hl'

end Follows

end LineTags
