import LineTags.Proofs.Buffer.Position

/-!
# A text as rows

The lines of a text follow each other, each with the line feed that ends it, except that the last one has none. Behind the text a line feed can be thought of, which makes all rows alike: `ended` is the text with it, and a row starts where the rows before it end. Every offset that editing by whole lines needs comes from here.
-/

namespace LineTags.Text

/-- Some rows, each with a line feed behind it. -/
def ended (rows : List Text) : Text := rows.flatMap fun r => r ++ ['\n']

/-- The offset where a row starts. -/
def rowStart (rows : List Text) (k : Nat) : Nat := (ended (rows.take k)).length

@[simp] theorem ended_nil : ended [] = [] := by
  simp [ended]

@[simp] theorem ended_cons (r : Text) (rows : List Text) : ended (r :: rows) = r ++ '\n' :: ended rows := by
  simp [ended]

@[simp] theorem ended_append (rows others : List Text) : ended (rows ++ others) = ended rows ++ ended others := by
  simp [ended]

theorem ended_take_drop (rows : List Text) (k : Nat) : ended (rows.take k) ++ ended (rows.drop k) = ended rows := by
  rw [← ended_append, List.take_append_drop]

theorem unlines_append_lineFeed {rows : List Text} (hne : rows ≠ []) : unlines rows ++ ['\n'] = ended rows := by
  induction rows with
  | nil => exact absurd rfl hne
  | cons r rows ih =>
    cases rows with
    | nil => simp [unlines, join]
    | cons next rows =>
      have hjoin : unlines (r :: next :: rows) = r ++ '\n' :: unlines (next :: rows) := by
        simp [unlines, join]
      rw [hjoin, ended_cons, ← ih (List.cons_ne_nil _ _)]
      simp

theorem length_ended {rows : List Text} (hne : rows ≠ []) : (ended rows).length = (unlines rows).length + 1 := by
  rw [← unlines_append_lineFeed hne, List.length_append, List.length_singleton]

/-- Texts that agree once a line feed is behind them agree. -/
theorem unlines_eq_of_append {rows : List Text} (hne : rows ≠ []) {t : Text} (h : t ++ ['\n'] = ended rows) :
    t = unlines rows := by
  rw [← unlines_append_lineFeed hne] at h
  exact List.append_cancel_right h

/-! ## Where a row starts and ends -/

section RowStart

variable {rows : List Text} {k : Nat} {r : Text}

@[simp] theorem rowStart_zero (rows : List Text) : rowStart rows 0 = 0 := by
  simp [rowStart]

theorem rowStart_succ (hr : rows[k]? = some r) : rowStart rows (k + 1) = rowStart rows k + r.length + 1 := by
  rw [rowStart, rowStart, List.take_add_one, hr, ended_append, List.length_append]
  simp
  omega

theorem rowStart_le (rows : List Text) {j k : Nat} (h : j ≤ k) : rowStart rows j ≤ rowStart rows k := by
  have hsplit : rows.take k = rows.take j ++ (rows.drop j).take (k - j) := by
    rw [← List.take_add]
    congr 1
    omega
  rw [rowStart, rowStart, hsplit, ended_append, List.length_append]
  omega

/-- Every row ends before the next one starts. -/
theorem rowStart_add_lt {j : Nat} (hr : rows[j]? = some r) (h : j < k) : rowStart rows j + r.length < rowStart rows k := by
  have hnext : rowStart rows (j + 1) ≤ rowStart rows k := rowStart_le rows h
  rw [rowStart_succ hr] at hnext
  omega

theorem rowStart_length (hne : rows ≠ []) : rowStart rows rows.length = (unlines rows).length + 1 := by
  rw [rowStart, List.take_length, length_ended hne]

theorem rowStart_append_left (rows others : List Text) (h : k ≤ rows.length) :
    rowStart (rows ++ others) k = rowStart rows k := by
  rw [rowStart, rowStart, List.take_append_of_le_length h]

theorem rowStart_append_right (rows others : List Text) (k : Nat) :
    rowStart (rows ++ others) (rows.length + k) = (ended rows).length + rowStart others k := by
  rw [rowStart, rowStart, List.take_append, List.take_of_length_le (Nat.le_add_right _ _), Nat.add_sub_cancel_left,
    ended_append, List.length_append]

theorem rowStart_take (rows : List Text) {k m : Nat} (h : k ≤ m) : rowStart (rows.take m) k = rowStart rows k := by
  rw [rowStart, rowStart, List.take_take, Nat.min_eq_left h]

theorem rowStart_drop (rows : List Text) (k m : Nat) :
    rowStart rows m + rowStart (rows.drop m) k = rowStart rows (m + k) := by
  rw [rowStart, rowStart, rowStart, ← List.length_append, ← ended_append, ← List.take_add]

/-- The last row ends where the text ends. -/
theorem rowStart_add_of_last (hr : rows[k]? = some r) (hlast : k + 1 = rows.length) :
    rowStart rows k + r.length = (unlines rows).length := by
  have hne : rows ≠ [] := by
    intro hnil
    simp [hnil] at hr
  have hlength : rowStart rows (k + 1) = (unlines rows).length + 1 := by
    rw [hlast, rowStart_length hne]
  rw [rowStart_succ hr] at hlength
  omega

/-- What lies before a row. -/
theorem take_rowStart {t : Text} (ht : t ++ ['\n'] = ended rows) (hk : rowStart rows k ≤ t.length) :
    t.take (rowStart rows k) = ended (rows.take k) := by
  have htake : (t ++ ['\n']).take (rowStart rows k) = t.take (rowStart rows k) := List.take_append_of_le_length hk
  rw [← htake, ht, ← ended_take_drop rows k, rowStart, List.take_left]

/-- What lies before the line feed in front of a row. -/
theorem take_rowStart_sub_one {t : Text} (ht : t ++ ['\n'] = ended rows) (hne : rows.take k ≠ [])
    (hk : rowStart rows k ≤ t.length + 1) : t.take (rowStart rows k - 1) ++ ['\n'] = ended (rows.take k) := by
  have hlength : rowStart rows k = (unlines (rows.take k)).length + 1 := by
    rw [rowStart, length_ended hne]
  have hsplit : ended rows = unlines (rows.take k) ++ ('\n' :: ended (rows.drop k)) := by
    rw [← ended_take_drop rows k, ← unlines_append_lineFeed hne, List.append_assoc, List.singleton_append]
  have htake : (t ++ ['\n']).take (rowStart rows k - 1) = t.take (rowStart rows k - 1) :=
    List.take_append_of_le_length (by omega)
  rw [← htake, ht, hsplit, hlength, Nat.add_sub_cancel, List.take_left, unlines_append_lineFeed hne]

/-- What a row and the rows behind it hold. -/
theorem drop_rowStart {t : Text} (ht : t ++ ['\n'] = ended rows) (hk : rowStart rows k ≤ t.length) :
    t.drop (rowStart rows k) ++ ['\n'] = ended (rows.drop k) := by
  rw [← List.drop_append_of_le_length hk, ht, ← ended_take_drop rows k, rowStart, List.drop_left]

theorem offsetBehind?_lineFeed {n : Nat} (hr : '\n' ∉ r) (u : Text) :
    offsetBehind? (n + 1) (r ++ '\n' :: u) = (offsetBehind? n u).map (· + (r.length + 1)) := by
  induction r with
  | nil => simp [offsetBehind?]
  | cons c r ih =>
    rw [List.mem_cons, not_or] at hr
    rw [List.cons_append, offsetBehind?, if_neg (Ne.symm hr.1), ih hr.2, Option.map_map]
    apply Option.map_congr
    intro m _
    simp [Nat.add_assoc]

/-- Behind as many line feeds as there are rows lies the end of the last of them. -/
theorem offsetBehind?_ended (hrows : ∀ r ∈ rows, '\n' ∉ r) (u : Text) :
    offsetBehind? rows.length (ended rows ++ u) = some (ended rows).length := by
  induction rows with
  | nil => simp [offsetBehind?]
  | cons r rows ih =>
    have hrest := ih fun r' hr' => hrows r' (List.mem_cons_of_mem _ hr')
    rw [ended_cons, List.append_assoc, List.cons_append, List.length_cons,
      offsetBehind?_lineFeed (hrows r List.mem_cons_self), hrest]
    simp
    omega

/-- What lies behind the rows before the given one. -/
theorem exists_unlines_eq (hk : k < rows.length) : ∃ u, unlines rows = ended (rows.take k) ++ u := by
  obtain ⟨r, rest, hrest⟩ := List.exists_cons_of_ne_nil (List.ne_nil_of_length_pos (l := rows.drop k) (by simp; omega))
  refine ⟨unlines (rows.drop k), (unlines_eq_of_append (List.ne_nil_of_length_pos (by omega)) ?_).symm⟩
  rw [List.append_assoc, unlines_append_lineFeed (by simp [hrest]), ended_take_drop]

theorem offsetBehind?_unlines (hrows : ∀ r ∈ rows, '\n' ∉ r) (hk : k < rows.length) :
    offsetBehind? k (unlines rows) = some (rowStart rows k) := by
  obtain ⟨u, hu⟩ := exists_unlines_eq hk
  have htake : ∀ r ∈ rows.take k, '\n' ∉ r := fun r hr => hrows r (List.mem_of_mem_take hr)
  have hlength : (rows.take k).length = k := by
    simp
    omega
  have hbehind := offsetBehind?_ended htake u
  rwa [hlength, ← hu] at hbehind

end RowStart

/-! ## The lines of a text -/

section Lines

variable {t l : Text} {line : Int} {k : Nat}

theorem offsetBehind?_eq (hk : k < (lines t).length) : offsetBehind? k t = some (rowStart (lines t) k) := by
  have hbehind := offsetBehind?_unlines (fun r hr => lineFeed_not_mem_of_mem_lines hr) hk
  rwa [unlines_lines] at hbehind

theorem length_lines (t : Text) : (lines t).length = t.lineCount := by
  induction t with
  | nil => rfl
  | cons c r ih =>
    by_cases hc : c = '\n'
    · subst hc
      rw [lines_lineFeed_cons, List.length_cons, ih, lineCount, lineCount, List.count_cons_self]
    · obtain ⟨first, others, hr, hcr⟩ := exists_lines_cons hc r
      rw [hr, List.length_cons, lineCount] at ih
      rw [hcr, List.length_cons, lineCount, List.count_cons_of_ne hc]
      exact ih

theorem line?_eq_some_iff : t.line? line = some l ↔ 1 ≤ line ∧ (lines t)[line.toNat - 1]? = some l := by
  rw [line?_eq_getElem?]
  split
  · simp
    omega
  · next h => simp [Int.not_lt.1 h]

theorem exists_line?_iff : (∃ l, t.line? line = some l) ↔ 1 ≤ line ∧ line ≤ t.lineCount := by
  rw [← length_lines]
  constructor
  · intro h
    obtain ⟨l, hl⟩ := h
    obtain ⟨hone, hat⟩ := line?_eq_some_iff.1 hl
    obtain ⟨hlt, -⟩ := List.getElem?_eq_some_iff.1 hat
    omega
  · intro h
    have hlt : line.toNat - 1 < (lines t).length := by omega
    exact ⟨_, line?_eq_some_iff.2 ⟨h.1, List.getElem?_eq_getElem hlt⟩⟩

theorem lineStart?_eq (hline : t.line? line = some l) : t.lineStart? line = some (rowStart (lines t) (line.toNat - 1)) := by
  obtain ⟨hone, hat⟩ := line?_eq_some_iff.1 hline
  obtain ⟨hlt, -⟩ := List.getElem?_eq_some_iff.1 hat
  rw [lineStart?, if_neg (by omega), offsetBehind?_eq hlt]

theorem lineEnd_rowStart (hl : (lines t)[k]? = some l) :
    t.lineEnd (rowStart (lines t) k) = rowStart (lines t) k + l.length := by
  obtain ⟨hlt, -⟩ := List.getElem?_eq_some_iff.1 hl
  rw [getElem?_lines, offsetBehind?_eq hlt, Option.map_some, Option.some.injEq] at hl
  rw [lineEnd, hl]

/-- The offset of a place in a line that exists; a column beyond the line stands for its end. -/
theorem offset?_eq (hline : t.line? line = some l) (column : Int) :
    t.offset? line column = some (rowStart (lines t) (line.toNat - 1) + min column.toNat l.length) := by
  have hat := (line?_eq_some_iff.1 hline).2
  rw [offset?, lineStart?_eq hline, Option.map_some, lineEnd_rowStart hat]
  congr 1
  omega

theorem offset?_zero (hline : t.line? line = some l) :
    t.offset? line 0 = some (rowStart (lines t) (line.toNat - 1)) := by
  simp [offset?_eq hline]

theorem offset?_length (hline : t.line? line = some l) :
    t.offset? line l.length = some (rowStart (lines t) (line.toNat - 1) + l.length) := by
  simp [offset?_eq hline]

/-- A row with characters holds the offset where it starts. -/
theorem position_rowStart (hk : k < (lines t).length) : t.position (rowStart (lines t) k) = (k + 1, 0) :=
  position_of_offsetBehind? (offsetBehind?_eq hk)

end Lines

end LineTags.Text
