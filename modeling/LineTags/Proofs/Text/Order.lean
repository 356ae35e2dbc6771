import LineTags.Text.Basic
import Mathlib.Data.Char
import Mathlib.Data.List.Lex

/-!
# The order of texts

Texts are compared by the code points of their characters, the first difference deciding, and a text comes before those that go on after it. This is the dictionary order of lists of characters. Sorting a list by it and dropping repetitions leaves the members of the list, each once and strictly ascending.
-/

namespace LineTags.Text

/-- What comes no later comes before, or is the same text. -/
theorem le_iff {s t : Text} : le s t = true ↔ s < t ∨ s = t := by
  induction s generalizing t with
  | nil =>
    cases t with
    | nil => exact iff_of_true rfl (.inr rfl)
    | cons b t => exact iff_of_true rfl (.inl (List.nil_lt_cons b t))
  | cons a s ih =>
    cases t with
    | nil => exact iff_of_false Bool.false_ne_true (by rintro (h | h) <;> cases h)
    | cons b t =>
      rw [le, Bool.or_eq_true, decide_eq_true_iff, Bool.and_eq_true, beq_iff_eq, ih, List.cons_lt_cons_iff, List.cons.injEq,
        or_assoc, ← and_or_left]
      rfl

theorem le_trans (s t u : Text) (hst : le s t = true) (htu : le t u = true) : le s u = true := by
  rw [le_iff] at hst htu ⊢
  rcases hst with hst | rfl
  · rcases htu with htu | rfl
    · exact .inl (lt_trans hst htu)
    · exact .inl hst
  · exact htu

theorem le_total (s t : Text) : (le s t || le t s) = true := by
  rw [Bool.or_eq_true, le_iff, le_iff]
  rcases lt_trichotomy s t with h | h | h
  · exact .inl (.inl h)
  · exact .inl (.inr h)
  · exact .inr (.inl h)

/-! ## Sorted, each once -/

/-- Repetitions of an ascending list are dropped where they stand next to each other. The first list holds, last first, what was kept before. -/
theorem eraseReps_loop {a : Text} {as kept : List Text} (hkept : (a :: kept).Pairwise fun x y => y < x)
    (has : (a :: as).Pairwise fun x y => le x y = true) :
    (List.eraseRepsBy.loop (fun x y => x == y) a as kept).Pairwise (· < ·) ∧
      ∀ x, x ∈ List.eraseRepsBy.loop (fun x y => x == y) a as kept ↔ x ∈ kept ∨ x ∈ a :: as := by
  induction as generalizing a kept with
  | nil =>
    rw [List.eraseRepsBy.loop]
    refine ⟨List.pairwise_reverse.2 hkept, fun x => ?_⟩
    rw [List.mem_reverse, List.mem_cons, List.mem_singleton, or_comm]
  | cons b as ih =>
    obtain ⟨hab, has⟩ := List.pairwise_cons.1 has
    rw [List.eraseRepsBy.loop]
    split
    · next heq =>
      obtain rfl : a = b := beq_iff_eq.1 heq
      obtain ⟨hpairwise, hmem⟩ := ih hkept has
      refine ⟨hpairwise, fun x => (hmem x).trans (or_congr_right ?_)⟩
      rw [List.mem_cons (a := x) (b := a) (l := a :: as)]
      exact ⟨.inr, fun h => h.elim (fun h => h ▸ List.mem_cons_self) id⟩
    · next hne =>
      have hlt : a < b := (le_iff.1 (hab b List.mem_cons_self)).resolve_right (ne_of_beq_false hne)
      have hkept' : (b :: a :: kept).Pairwise fun x y => y < x := by
        refine List.pairwise_cons.2 ⟨fun x hx => ?_, hkept⟩
        rcases List.mem_cons.1 hx with rfl | hx
        · exact hlt
        · exact lt_trans (List.rel_of_pairwise_cons hkept hx) hlt
      obtain ⟨hpairwise, hmem⟩ := ih hkept' has
      refine ⟨hpairwise, fun x => (hmem x).trans ?_⟩
      rw [List.mem_cons, List.mem_cons (b := a), or_assoc, or_left_comm]

theorem sortedSet_spec (ts : List Text) : (sortedSet ts).Pairwise (· < ·) ∧ ∀ t, t ∈ sortedSet ts ↔ t ∈ ts := by
  have hsorted := List.pairwise_mergeSort le_trans le_total ts
  have hmem : ∀ t, t ∈ ts.mergeSort le ↔ t ∈ ts := fun t => (List.mergeSort_perm ts le).mem_iff
  rw [sortedSet, List.eraseReps]
  cases h : ts.mergeSort le with
  | nil =>
    rw [h] at hmem
    exact ⟨List.Pairwise.nil, hmem⟩
  | cons a as =>
    rw [h] at hsorted hmem
    obtain ⟨hpairwise, hloop⟩ := eraseReps_loop (List.pairwise_singleton _ a) hsorted
    refine ⟨hpairwise, fun t => (hloop t).trans ?_⟩
    rw [← hmem, or_iff_right List.not_mem_nil]

end LineTags.Text
