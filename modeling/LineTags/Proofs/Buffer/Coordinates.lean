import LineTags.Proofs.Buffer.Calls
import LineTags.Proofs.Buffer.Rows

/-!
# Offsets and places

A place is found from an offset by counting line feeds backwards, and an offset from a place by walking forward line by line. Every offset of a text is a column of exactly one of its rows: the one right before a line feed is the end of its row, and the one right behind it the start of the next. So both ways lead back to where they came from.
-/

namespace LineTags

namespace Text

variable {t l : Text} {rows : List Text} {k column offset : Nat}

/-! ## From an offset to its place -/

theorem count_ended (hrows : ∀ r ∈ rows, '\n' ∉ r) : (ended rows).count '\n' = rows.length := by
  induction rows with
  | nil => rfl
  | cons r rows ih =>
    have hrest := ih fun r' hr' => hrows r' (List.mem_cons_of_mem _ hr')
    have hr : r.count '\n' = 0 := List.count_eq_zero.2 (hrows r List.mem_cons_self)
    rw [ended_cons, List.count_append, List.count_cons_self, hr, hrest, List.length_cons, Nat.zero_add]

theorem takeWhile_reverse_ended (rows : List Text) : (ended rows).reverse.takeWhile (· != '\n') = [] := by
  rcases List.eq_nil_or_concat rows with rfl | ⟨before, r, rfl⟩
  · rfl
  · simp

/-- Behind some rows, the column is as long as what stands there without a line feed. -/
theorem position_ended_append (hrows : ∀ r ∈ rows, '\n' ∉ r) {row : Text} (hrow : '\n' ∉ row) (rest : Text) :
    (ended rows ++ (row ++ rest)).position ((ended rows).length + row.length) = (rows.length + 1, row.length) := by
  have htake : (ended rows ++ (row ++ rest)).take ((ended rows).length + row.length) = ended rows ++ row := by
    rw [List.take_append, List.take_of_length_le (Nat.le_add_right _ _), Nat.add_sub_cancel_left, List.take_left]
  have hplain : ∀ c ∈ row.reverse, (c != '\n') = true := by
    intro c hc
    exact bne_iff_ne.2 fun heq => hrow (heq ▸ List.mem_reverse.1 hc)
  rw [position, htake, List.count_append, count_ended hrows, List.count_eq_zero.2 hrow, List.reverse_append,
    List.takeWhile_append_of_pos hplain, takeWhile_reverse_ended, List.append_nil, List.length_reverse]

/-- What stands in front of a column: the rows before its row, and the start of the row. -/
theorem exists_eq_ended_append (hl : (lines t)[k]? = some l) :
    ∃ rest, t = ended ((lines t).take k) ++ (l ++ rest) := by
  obtain ⟨hk, -⟩ := List.getElem?_eq_some_iff.1 hl
  have hstart := offsetBehind?_eq hk
  have hrow := getElem?_lines k t
  rw [hl, hstart, Option.map_some, Option.some.injEq] at hrow
  obtain ⟨rest, hrest⟩ := List.takeWhile_prefix (l := t.drop (rowStart (lines t) k)) (· != '\n')
  have hbefore : t.take (rowStart (lines t) k) = ended ((lines t).take k) := by
    apply take_rowStart _ (offsetBehind?_le hstart)
    conv => lhs; rw [← unlines_lines t]
    exact unlines_append_lineFeed (lines_ne_nil t)
  refine ⟨rest, ?_⟩
  rw [hrow, hrest, ← hbefore, List.take_append_drop]

theorem position_rowStart_add (hl : (lines t)[k]? = some l) (hcolumn : column ≤ l.length) :
    t.position (rowStart (lines t) k + column) = (k + 1, column) := by
  obtain ⟨hk, -⟩ := List.getElem?_eq_some_iff.1 hl
  obtain ⟨rest, ht⟩ := exists_eq_ended_append hl
  have hrows : ∀ r ∈ (lines t).take k, '\n' ∉ r := fun r hr => lineFeed_not_mem_of_mem_lines (List.mem_of_mem_take hr)
  have hrow : '\n' ∉ l.take column := fun hmem =>
    lineFeed_not_mem_of_mem_lines (List.mem_of_getElem? hl) (List.mem_of_mem_take hmem)
  have hlength : (l.take column).length = column := List.length_take_of_le hcolumn
  have hcount : ((lines t).take k).length = k := List.length_take_of_le (Nat.le_of_lt hk)
  have hposition := position_ended_append hrows hrow (l.drop column ++ rest)
  rw [← List.append_assoc (l.take column), List.take_append_drop, ← ht, hlength, hcount] at hposition
  exact hposition

/-! ## From a place to its offset -/

theorem rowStart_cons (r : Text) (rows : List Text) (k : Nat) :
    rowStart (r :: rows) (k + 1) = r.length + 1 + rowStart rows k := by
  rw [rowStart, rowStart, List.take_succ_cons, ended_cons, List.length_append, List.length_cons]
  omega

/-- Every offset is a column of a row. -/
theorem exists_row_of_le (hne : rows ≠ []) (h : offset ≤ (unlines rows).length) :
    ∃ k r column, rows[k]? = some r ∧ column ≤ r.length ∧ offset = rowStart rows k + column := by
  induction rows generalizing offset with
  | nil => exact absurd rfl hne
  | cons r rows ih =>
    by_cases hfirst : offset ≤ r.length
    · exact ⟨0, r, offset, rfl, hfirst, by rw [rowStart_zero, Nat.zero_add]⟩
    · -- the offset lies behind the line feed of the first row, so there is another row
      have hlength := length_ended hne
      rw [ended_cons, List.length_append, List.length_cons] at hlength
      have hmore : rows ≠ [] := by
        rintro rfl
        rw [ended_nil, List.length_nil] at hlength
        omega
      rw [length_ended hmore] at hlength
      have hbehind : offset - (r.length + 1) ≤ (unlines rows).length := by omega
      obtain ⟨k, r', column, hr', hcolumn, hoffset⟩ := ih hmore hbehind
      refine ⟨k + 1, r', column, hr', hcolumn, ?_⟩
      rw [rowStart_cons]
      omega

theorem offset?_rowStart_add (hl : (lines t)[k]? = some l) (hcolumn : column ≤ l.length) :
    t.offset? ((k + 1 : Nat) : Int) column = some (rowStart (lines t) k + column) := by
  have hline : t.line? ((k + 1 : Nat) : Int) = some l := line?_eq_some_iff.2 ⟨by omega, by rwa [Int.toNat_natCast]⟩
  rw [offset?_eq hline, Int.toNat_natCast, Int.toNat_natCast, Nat.min_eq_left hcolumn]
  rfl

end Text

namespace MemoryBuffer

open Text

variable {b : MemoryBuffer} {line column : Int}

theorem offset_eq_ok_iff {offset : Nat} : b.offset line column = .ok offset ↔ b.text.offset? line column = some offset := by
  rw [MemoryBuffer.offset]
  cases b.text.offset? line column with
  | none => simp
  | some n => rw [Except.ok.injEq, Option.some.injEq]

theorem getLine_eq_ok_iff {l : Text} :
    LineBuffer.getLine b line = .ok l ↔ 1 ≤ line ∧ (split '\n' b.text)[line.toNat - 1]? = some l := by
  refine Iff.trans ?_ (line?_eq_some_iff (t := b.text))
  rw [LineBuffer.getLine, show LineBuffer.line? b line = b.text.line? line from rfl]
  cases b.text.line? line with
  | none => simp
  | some l' => rw [Except.ok.injEq, Option.some.injEq]

theorem getLine_eq_error (h : ¬(1 ≤ line ∧ line ≤ LineBuffer.lineCount b)) :
    LineBuffer.getLine b line = .error (.noLine line) := by
  have hnone : LineBuffer.line? b line = none := by
    rw [Option.eq_none_iff_forall_ne_some]
    intro l hl
    exact h (exists_line?_iff.1 ⟨l, hl⟩)
  rw [LineBuffer.getLine, hnone]

/-- Offsets and places stand for each other. An anchor starts at the place of its offset; the place of an offset is there, and leads back to it; a column of a line that exists has an offset, whose place it is. A line is what stands between line feeds, and there are no others. -/
theorem offsets_places (b : MemoryBuffer) :
    (∀ handle range, b.anchors.lookup handle = some range → range.start < range.stop →
      b.anchorStart? handle = some (b.text.position range.start)) ∧
    (∀ offset ≤ b.text.length, ∃ l, LineBuffer.getLine b (b.text.position offset).1 = .ok l ∧
      (b.text.position offset).2 ≤ l.length ∧ b.offset (b.text.position offset).1 (b.text.position offset).2 = .ok offset) ∧
    (∀ line column l, LineBuffer.getLine b line = .ok l → 0 ≤ column → column ≤ (l.length : Int) →
      ∃ offset ≤ b.text.length, b.offset line column = .ok offset ∧
        ((b.text.position offset).1 : Int) = line ∧ ((b.text.position offset).2 : Int) = column) ∧
    (∀ line : Int, 1 ≤ line ∧ line ≤ LineBuffer.lineCount b →
      ∃ l, (split '\n' b.text)[line.toNat - 1]? = some l ∧ LineBuffer.getLine b line = .ok l) ∧
    ∀ line : Int, ¬(1 ≤ line ∧ line ≤ LineBuffer.lineCount b) → LineBuffer.getLine b line = .error (.noLine line) := by
  refine ⟨fun handle range hrange hopen => ?_, fun offset hoffset => ?_, fun line column l hl hlow hhigh => ?_,
    fun line hline => ?_, fun line hline => getLine_eq_error hline⟩
  · rw [anchorStart?, hrange, Option.filter_some, if_pos (decide_eq_true hopen), Option.map_some]
  · rw [← unlines_lines b.text] at hoffset
    obtain ⟨k, l, column, hl, hcolumn, rfl⟩ := exists_row_of_le (lines_ne_nil _) hoffset
    rw [position_rowStart_add hl hcolumn]
    exact ⟨l, getLine_eq_ok_iff.2 ⟨by omega, hl⟩, hcolumn, offset_eq_ok_iff.2 (offset?_rowStart_add hl hcolumn)⟩
  · obtain ⟨hfirst, hl⟩ := getLine_eq_ok_iff.1 hl
    obtain ⟨column, rfl⟩ := Int.eq_ofNat_of_zero_le hlow
    obtain ⟨k, rfl⟩ : ∃ k : Nat, line = (k + 1 : Nat) := ⟨line.toNat - 1, by omega⟩
    have hcolumn : column ≤ l.length := Int.ofNat_le.1 hhigh
    have hoffset := offset?_rowStart_add hl hcolumn
    refine ⟨_, offset?_le hoffset, offset_eq_ok_iff.2 hoffset, ?_⟩
    have hposition := position_rowStart_add hl hcolumn
    rw [Int.toNat_natCast, Nat.add_sub_cancel] at hposition ⊢
    rw [hposition]
    exact ⟨rfl, rfl⟩
  · obtain ⟨l, hl⟩ := exists_line?_iff.2 hline
    exact ⟨l, (line?_eq_some_iff.1 hl).2, getLine_of_line? hl⟩

/-- The offset behind the text is the start of a third line without characters. -/
example : (List.range 6).map (position "a\nbc\n".toList) = [(1, 0), (1, 1), (2, 0), (2, 1), (2, 2), (3, 0)] := by decide

end MemoryBuffer

end LineTags
