import LineTags.Buffer.Position
import LineTags.Proofs.Text.Lines

/-!
# Lines and the offsets where they start

The two ways of finding a line agree: cutting the text into lines, and walking behind the line feeds before it.
-/

namespace LineTags.Text

theorem lines_lineFeed_cons (r : Text) : lines ('\n' :: r) = [] :: lines r := by
  rw [lines, split, if_pos rfl]
  rfl

theorem exists_lines_cons {c : Char} (hc : c ≠ '\n') (r : Text) :
    ∃ first others, lines r = first :: others ∧ lines (c :: r) = (c :: first) :: others := by
  obtain ⟨first, others, hs⟩ := List.exists_cons_of_ne_nil (split_ne_nil '\n' r)
  refine ⟨first, others, hs, ?_⟩
  rw [lines, split, if_neg hc, hs]

theorem getElem?_lines_zero (t : Text) : (lines t)[0]? = some (t.takeWhile (· != '\n')) := by
  induction t with
  | nil => rfl
  | cons c r ih =>
    by_cases hc : c = '\n'
    · subst hc
      rw [lines_lineFeed_cons]
      rfl
    · obtain ⟨first, others, hr, hcr⟩ := exists_lines_cons hc r
      rw [hr, List.getElem?_cons_zero, Option.some.injEq] at ih
      rw [hcr, List.getElem?_cons_zero, ih, List.takeWhile_cons, if_pos (bne_iff_ne.2 hc)]

theorem getElem?_lines (n : Nat) (t : Text) :
    (lines t)[n]? = (offsetBehind? n t).map fun start => (t.drop start).takeWhile (· != '\n') := by
  induction t generalizing n with
  | nil =>
    cases n with
    | zero => rfl
    | succ n => rfl
  | cons c r ih =>
    cases n with
    | zero => exact getElem?_lines_zero (c :: r)
    | succ n =>
      rw [offsetBehind?, Option.map_map]
      by_cases hc : c = '\n'
      · subst hc
        rw [lines_lineFeed_cons, List.getElem?_cons_succ, ih, if_pos rfl]
        rfl
      · obtain ⟨first, others, hr, hcr⟩ := exists_lines_cons hc r
        have ih := ih (n + 1)
        rw [hr, List.getElem?_cons_succ] at ih
        rw [hcr, List.getElem?_cons_succ, ih, if_neg hc]
        rfl

theorem drop_take_lineEnd (t : Text) (start : Nat) :
    (t.take (t.lineEnd start)).drop start = (t.drop start).takeWhile (· != '\n') := by
  rw [lineEnd, List.drop_take, Nat.add_sub_cancel_left]
  exact (List.prefix_iff_eq_take.1 (List.takeWhile_prefix _)).symm

/-- To walk to a line and to cut the text into lines comes to the same. -/
theorem line?_eq_getElem? (t : Text) (line : Int) :
    t.line? line = if line < 1 then none else (lines t)[line.toNat - 1]? := by
  rw [line?, lineStart?]
  by_cases hline : line < 1
  · rw [if_pos hline, if_pos hline, Option.map_none]
  · rw [if_neg hline, if_neg hline, getElem?_lines]
    simp only [drop_take_lineEnd]

/-- The start of every line but the first lies right behind a line feed. -/
theorem exists_of_offsetBehind?_succ {n start : Nat} {t : Text} (h : offsetBehind? (n + 1) t = some start) :
    ∃ before r, t = before ++ '\n' :: r ∧ before.count '\n' = n ∧ start = before.length + 1 := by
  induction t generalizing n start with
  | nil => simp [offsetBehind?] at h
  | cons c r ih =>
    rw [offsetBehind?, Option.map_eq_some_iff] at h
    obtain ⟨k, hk, rfl⟩ := h
    by_cases hc : c = '\n'
    · subst hc
      rw [if_pos rfl] at hk
      cases n with
      | zero =>
        rw [offsetBehind?, Option.some.injEq] at hk
        exact ⟨[], r, rfl, rfl, by rw [← hk]; rfl⟩
      | succ n =>
        obtain ⟨before, s, rfl, hcount, rfl⟩ := ih hk
        exact ⟨'\n' :: before, s, rfl, by rw [List.count_cons_self, hcount], rfl⟩
    · rw [if_neg hc] at hk
      obtain ⟨before, s, rfl, hcount, rfl⟩ := ih hk
      exact ⟨c :: before, s, rfl, by rw [List.count_cons_of_ne hc, hcount], rfl⟩

theorem position_of_offsetBehind? {n start : Nat} {t : Text} (h : offsetBehind? n t = some start) :
    t.position start = (n + 1, 0) := by
  cases n with
  | zero =>
    rw [offsetBehind?, Option.some.injEq] at h
    rw [← h]
    rfl
  | succ n =>
    obtain ⟨before, r, rfl, hcount, rfl⟩ := exists_of_offsetBehind?_succ h
    have htake : (before ++ '\n' :: r).take (before.length + 1) = before ++ ['\n'] := by
      rw [List.take_append, Nat.add_sub_cancel_left, List.take_of_length_le (Nat.le_succ _)]
      rfl
    rw [position, htake]
    simp [hcount]

theorem offsetBehind?_le {n start : Nat} {t : Text} (h : offsetBehind? n t = some start) : start ≤ t.length := by
  cases n with
  | zero =>
    rw [offsetBehind?, Option.some.injEq] at h
    omega
  | succ n =>
    obtain ⟨before, r, rfl, -, rfl⟩ := exists_of_offsetBehind?_succ h
    rw [List.length_append, List.length_cons]
    omega

theorem lineStart?_le {t : Text} {line : Int} {start : Nat} (h : t.lineStart? line = some start) : start ≤ t.length := by
  unfold lineStart? at h
  split at h
  · cases h
  · exact offsetBehind?_le h

theorem offset?_le {t : Text} {line column : Int} {offset : Nat} (h : t.offset? line column = some offset) :
    offset ≤ t.length := by
  obtain ⟨start, hstart, rfl⟩ := Option.map_eq_some_iff.1 h
  have hstart' := lineStart?_le hstart
  have hrest : ((t.drop start).takeWhile (· != '\n')).length ≤ (t.drop start).length :=
    (List.takeWhile_sublist _).length_le
  rw [List.length_drop] at hrest
  rw [lineEnd]
  omega

/-- A line that exists starts somewhere, in column zero, and its text runs from there to the next line feed. -/
theorem exists_lineStart_of_line? {t l : Text} {line : Int} (h : t.line? line = some l) :
    ∃ start, t.lineStart? line = some start ∧ t.position start = (line.toNat, 0) ∧
      (t.drop start).takeWhile (· != '\n') = l := by
  by_cases hline : line < 1
  · rw [line?_eq_getElem?, if_pos hline] at h
    exact absurd h (by simp)
  · rw [line?_eq_getElem?, if_neg hline, getElem?_lines, Option.map_eq_some_iff] at h
    obtain ⟨start, hstart, hl⟩ := h
    refine ⟨start, by rw [lineStart?, if_neg hline, hstart], ?_, hl⟩
    rw [position_of_offsetBehind? hstart]
    congr 1
    omega

theorem lt_lineEnd_iff {t l : Text} {start : Nat} (hl : (t.drop start).takeWhile (· != '\n') = l) :
    start < t.lineEnd start ↔ l ≠ [] := by
  rw [lineEnd, hl, ← List.length_pos_iff]
  omega

end LineTags.Text
