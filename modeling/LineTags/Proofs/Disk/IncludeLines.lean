import LineTags.Proofs.Story.Closure
import LineTags.Proofs.Tag.CommentCut
import LineTags.Project

/-!
# Two readers of include lines

The loader and the reader of stories both look for include lines, each with a pattern of its own. On one line they find the same: `includeIn?_eq`. They differ in what a line is. The reader ends a line at a line feed and nowhere else; the loader ends it at everything that any system takes for a line break. A script in which every break is a line feed, alone or behind a carriage return, has the same includes for both.
-/

namespace LineTags

open Text LineForm Keyed

/-! ### One line -/

theorem inclusion?_ofCode (t : Text) :
    (ofCode t).inclusion? = (afterWord? Project.includeWord t).filter (!·.isEmpty) := by
  have hlogic : ∀ body, (ofLogic body).inclusion? = none := by
    intro body
    unfold ofLogic
    dsimp only
    split <;> rfl
  have hword : "INCLUDE".toList = Project.includeWord := rfl
  unfold ofCode
  rw [hword]
  by_cases ht : t.isEmpty
  · rw [if_pos ht, List.isEmpty_iff.1 ht]
    rfl
  rw [if_neg ht]
  cases (afterWord? Project.includeWord t).filter (!·.isEmpty) with
  | some name => rfl
  | none =>
    cases declaration? t with
    | some found =>
      dsimp only
      split_ifs
      · rfl
      · rfl
      · exact hlogic _
      · rfl
    | none =>
      dsimp only
      split_ifs
      · rfl
      · rfl
      · exact hlogic _
      all_goals rfl

/-- Dropping the blanks at the end of a text commutes with what else is taken from its start. -/
theorem after?_stripEnd {word : Text} (hword : EndsDark word) (t : Text) :
    after? word (stripEnd t) = (after? word t).map stripEnd := by
  cases hafter : after? word t with
  | some r =>
    rw [eq_append_of_after? hafter, Option.map_some]
    cases hr : isBlankText r with
    | true =>
      rw [stripEnd_append_blanks (isBlankText_iff.1 hr), stripEnd_of_endsDark hword, stripEnd_eq_nil_iff.2 hr]
      exact (congrArg (after? word) (List.append_nil word).symm).trans (after?_self word [])
    | false => rw [stripEnd_append hr, after?_self]
  | none =>
    cases hend : after? word (stripEnd t) with
    | none => rfl
    | some r =>
      obtain ⟨w, -, hsplit⟩ := exists_blanks_stripEnd t
      rw [hsplit, eq_append_of_after? hend, List.append_assoc, after?_self] at hafter
      cases hafter

theorem isBlankText_stripEnd {t : Text} (ht : isBlankText t = false) : isBlankText (stripEnd t) = false := by
  refine isBlankText_eq_false (stripEnd_endsDark t) fun hnil => ?_
  rw [stripEnd_eq_nil_iff.1 hnil] at ht
  cases ht

theorem stripStart_stripEnd (t : Text) : stripStart (stripEnd t) = strip t := by
  obtain ⟨w, hw, hsplit⟩ := exists_blanks_stripEnd t
  have hstrip : strip t = strip (stripEnd t) := by
    conv_lhs => rw [hsplit]
    exact strip_append_blanks _ hw
  rw [hstrip]
  exact (stripEnd_of_endsDark (endsDark_stripStart (stripEnd_endsDark t))).symm

theorem isEmpty_strip {t : Text} (ht : isBlankText t = false) : (strip t).isEmpty = false := by
  rw [List.isEmpty_eq_false_iff, ← stripStart_stripEnd]
  exact stripStart_ne_nil (isBlankText_stripEnd ht)

namespace Project

/-- On a line the two readers find the same include. -/
theorem includeIn?_eq (l : Text) : includeIn? l = (formOf l).inclusion? := by
  have hword : EndsDark includeWord := by
    intro c hc
    rw [← Option.some.inj hc]
    decide
  rw [formOf, inclusion?_ofCode]
  unfold includeIn? afterWord?
  rw [strip, after?_stripEnd hword]
  cases after? includeWord (stripStart (codeOf l)) with
  | none => rfl
  | some rest =>
    rw [Option.map_some]
    cases rest with
    | nil => rfl
    | cons c r =>
      dsimp only
      cases hr : isBlankText r with
      | false =>
        have hcut : stripEnd (c :: r) = c :: stripEnd r := stripEnd_append hr [c]
        rw [hcut]
        dsimp only
        rw [stripStart_stripEnd]
        cases isBlank c with
        | false => rfl
        | true => exact (if_pos (congrArg Bool.not (isEmpty_strip hr))).symm
      | true =>
        have hcut : stripEnd (c :: r) = stripEnd [c] := stripEnd_append_blanks (t := [c]) (isBlankText_iff.1 hr)
        rw [Bool.not_true, Bool.and_false, hcut]
        cases hc : isBlank c with
        | false =>
          have hdark : EndsDark [c] := by
            intro d hd
            rw [← Option.some.inj hd, List.getLast_singleton, hc]
            exact Bool.false_ne_true
          rw [stripEnd_of_endsDark hdark]
          dsimp only
          rw [hc]
          rfl
        | true =>
          have hblank : isBlankText [c] := isBlankText_iff.2 fun d hd => List.mem_singleton.1 hd ▸ hc
          rw [stripEnd_eq_nil_iff.2 hblank]
          rfl

end Project

/-! ### All lines -/

/-- A character that ends no line begins the first line. -/
theorem brokenLines_cons {c : Char} (hc : isLineBreak c = false) (r : Text) :
    brokenLines (c :: r) =
      match brokenLines r with
      | [] => [[c]]
      | l :: ls => (c :: l) :: ls := by
  have hreturn : c ≠ '\r' := by
    rintro rfl
    cases hc
  rw [brokenLines]
  · rw [hc]
    rfl
  · exact fun s heq _ => hreturn heq

theorem eq_nil_of_brokenLines {t : Text} (h : brokenLines t = []) : t = [] := by
  unfold brokenLines at h
  split at h
  · rfl
  · cases h
  · split at h
    · cases h
    · split at h <;> cases h

/-- Whether every line break of a text is a line feed, alone or behind a carriage return. -/
def hasPlainBreaks : Text → Bool
  | [] => true
  | '\r' :: '\n' :: r => hasPlainBreaks r
  | c :: r => (c == '\n' || !isLineBreak c) && hasPlainBreaks r

/-- The same line, but for a carriage return at its end. -/
def SameButReturn (l k : Text) : Prop := l = k ∨ l = k ++ ['\r']

/-- Where all breaks are plain, the two ways to end a line give the same lines. A line feed at the end opens one more for one of them, which is empty. -/
theorem exists_forall₂_lines {t : Text} (h : hasPlainBreaks t = true) :
    ∃ rest, (∀ l ∈ rest, l = []) ∧ List.Forall₂ SameButReturn (lines t) (brokenLines t ++ rest) := by
  fun_induction hasPlainBreaks t with
  | case1 => exact ⟨[[]], fun l hl => List.mem_singleton.1 hl, .cons (.inl rfl) .nil⟩
  | case2 r ih =>
    obtain ⟨rest, hrest, hlines⟩ := ih h
    exact ⟨rest, hrest, .cons (.inr rfl) hlines⟩
  | case3 c r hreturn ih =>
    obtain ⟨hc, hr⟩ := Bool.and_eq_true_iff.1 h
    obtain ⟨rest, hrest, hlines⟩ := ih hr
    by_cases hfeed : c = '\n'
    · subst hfeed
      exact ⟨rest, hrest, .cons (.inl rfl) hlines⟩
    have hbreak : isLineBreak c = false := by
      rcases Bool.or_eq_true_iff.1 hc with hc | hc
      · exact absurd (eq_of_beq hc) hfeed
      · rwa [Bool.not_eq_true'] at hc
    rw [brokenLines_cons hbreak]
    rw [lines, split, if_neg hfeed]
    obtain ⟨l, ls, hls⟩ := List.exists_cons_of_ne_nil (lines_ne_nil r)
    rw [lines] at hls hlines
    rw [hls] at hlines ⊢
    cases hbroken : brokenLines r with
    | nil =>
      obtain rfl := eq_nil_of_brokenLines hbroken
      obtain ⟨rfl, rfl⟩ := List.cons.inj hls
      exact ⟨[], fun l hl => absurd hl List.not_mem_nil, .cons (.inl rfl) .nil⟩
    | cons k ks =>
      rw [hbroken] at hlines
      obtain ⟨hl, hrest'⟩ := List.forall₂_cons.1 hlines
      refine ⟨rest, hrest, .cons ?_ hrest'⟩
      exact hl.imp (congrArg (c :: ·)) (congrArg (c :: ·))

theorem formOf_of_sameButReturn {l k : Text} (h : SameButReturn l k) : formOf l = formOf k := by
  rcases h with rfl | rfl
  · rfl
  · have hplain : CommentedLine.IsPlain '\r' := ⟨by decide, by decide, by decide⟩
    rw [formOf, formOf, strip_codeOf_append hplain (by decide)]

/-- A script with plain line breaks has the same includes for both readers. -/
theorem Project.includesOf_eq {t : Text} (hplain : hasPlainBreaks t = true) (hmarks : dropMarks t = t) (file : Text) :
    includesOf file t = inclusionsOf file t := by
  obtain ⟨rest, hrest, hlines⟩ := exists_forall₂_lines hplain
  have hnone : rest.filterMap (fun l => (includeIn? l).map (Path.included file)) = [] := by
    refine List.filterMap_eq_nil_iff.2 fun l hl => ?_
    rw [hrest l hl]
    rfl
  have hsame : ∀ ls ks, List.Forall₂ SameButReturn ls ks →
      ks.filterMap (fun l => (includeIn? l).map (Path.included file)) =
        ls.filterMap fun l => (formOf l).inclusion?.map (Path.included file) := by
    intro ls ks hall
    induction hall with
    | nil => rfl
    | cons hline _ ih => rw [List.filterMap_cons, List.filterMap_cons, ih, includeIn?_eq, formOf_of_sameButReturn hline]
  rw [includesOf, inclusionsOf, hmarks, ← hsame _ _ hlines, List.filterMap_append, hnone, List.append_nil]

end LineTags
