import LineTags.Text.Basic

/-!
# Cutting a text into lines

A text is its pieces with separators between them, and the pieces are the only list of texts without the separator of which this is true. So whatever changes the lines of a script one by one, and puts no line feed into any of them, can be read off the lines again.
-/

namespace LineTags.Text

theorem split_of_not_mem {sep : Char} {t : Text} (hsep : sep ∉ t) : split sep t = [t] := by
  induction t with
  | nil => rfl
  | cons c r ih =>
    rw [List.mem_cons, not_or] at hsep
    rw [split, if_neg (Ne.symm hsep.1), ih hsep.2]

theorem split_append_cons {sep : Char} {piece : Text} (hsep : sep ∉ piece) (r : Text) :
    split sep (piece ++ sep :: r) = piece :: split sep r := by
  induction piece with
  | nil => rw [List.nil_append, split, if_pos rfl]
  | cons c piece ih =>
    rw [List.mem_cons, not_or] at hsep
    rw [List.cons_append, split, if_neg (Ne.symm hsep.1), ih hsep.2]

theorem not_mem_of_mem_split {sep : Char} {t piece : Text} (hpiece : piece ∈ split sep t) : sep ∉ piece := by
  induction t generalizing piece with
  | nil =>
    rw [split, List.mem_singleton] at hpiece
    rw [hpiece]
    exact List.not_mem_nil
  | cons c r ih =>
    obtain ⟨first, others, hs⟩ := List.exists_cons_of_ne_nil (split_ne_nil sep r)
    rw [hs] at ih
    by_cases hc : c = sep
    · rw [split, if_pos hc, hs, List.mem_cons] at hpiece
      rcases hpiece with rfl | hpiece
      · exact List.not_mem_nil
      · exact ih hpiece
    · rw [split, if_neg hc, hs, List.mem_cons] at hpiece
      rcases hpiece with rfl | hpiece
      · rw [List.mem_cons, not_or]
        exact ⟨Ne.symm hc, ih List.mem_cons_self⟩
      · exact ih (List.mem_cons_of_mem _ hpiece)

theorem mem_piece_of_mem {sep c : Char} {t : Text} (hc : c ∈ t) : c = sep ∨ ∃ piece ∈ split sep t, c ∈ piece := by
  induction t with
  | nil => simp at hc
  | cons d r ih =>
    obtain ⟨first, others, hs⟩ := List.exists_cons_of_ne_nil (split_ne_nil sep r)
    rw [hs] at ih
    by_cases hd : d = sep
    · rw [split, if_pos hd, hs]
      rcases List.mem_cons.1 hc with rfl | hr
      · exact Or.inl hd
      · obtain hsep | ⟨piece, hpiece, hmem⟩ := ih hr
        · exact Or.inl hsep
        · exact Or.inr ⟨piece, List.mem_cons_of_mem _ hpiece, hmem⟩
    · rw [split, if_neg hd, hs]
      rcases List.mem_cons.1 hc with rfl | hr
      · exact Or.inr ⟨c :: first, List.mem_cons_self, List.mem_cons_self⟩
      · obtain hsep | ⟨piece, hpiece, hmem⟩ := ih hr
        · exact Or.inl hsep
        rcases List.mem_cons.1 hpiece with rfl | hpiece
        · exact Or.inr ⟨d :: piece, List.mem_cons_self, List.mem_cons_of_mem _ hmem⟩
        · exact Or.inr ⟨piece, List.mem_cons_of_mem _ hpiece, hmem⟩

theorem mem_of_mem_piece {sep c : Char} {t piece : Text} (hpiece : piece ∈ split sep t) (hc : c ∈ piece) : c ∈ t := by
  induction t generalizing piece with
  | nil =>
    rw [split, List.mem_singleton] at hpiece
    exact hpiece ▸ hc
  | cons d r ih =>
    obtain ⟨first, others, hs⟩ := List.exists_cons_of_ne_nil (split_ne_nil sep r)
    rw [hs] at ih
    by_cases hd : d = sep
    · rw [split, if_pos hd, hs, List.mem_cons] at hpiece
      rcases hpiece with rfl | hpiece
      · exact absurd hc List.not_mem_nil
      · exact List.mem_cons_of_mem _ (ih hpiece hc)
    · rw [split, if_neg hd, hs, List.mem_cons] at hpiece
      rcases hpiece with rfl | hpiece
      · rcases List.mem_cons.1 hc with rfl | hc
        · exact List.mem_cons_self
        · exact List.mem_cons_of_mem _ (ih List.mem_cons_self hc)
      · exact List.mem_cons_of_mem _ (ih (List.mem_cons_of_mem _ hpiece) hc)

theorem split_join {sep : Char} {pieces : List Text} (hne : pieces ≠ []) (hsep : ∀ piece ∈ pieces, sep ∉ piece) :
    split sep (join [sep] pieces) = pieces := by
  induction pieces with
  | nil => exact absurd rfl hne
  | cons piece others ih =>
    have hpiece : sep ∉ piece := hsep piece List.mem_cons_self
    cases others with
    | nil => exact split_of_not_mem hpiece
    | cons next others =>
      have hothers : split sep (join [sep] (next :: others)) = next :: others :=
        ih (List.cons_ne_nil _ _) fun p hp => hsep p (List.mem_cons_of_mem _ hp)
      have hjoin : join [sep] (piece :: next :: others) = piece ++ sep :: join [sep] (next :: others) := by
        simp only [join, List.append_assoc, List.singleton_append]
      rw [hjoin, split_append_cons hpiece, hothers]

theorem lines_ne_nil (t : Text) : lines t ≠ [] := split_ne_nil '\n' t

theorem lineFeed_not_mem_of_mem_lines {t line : Text} (hline : line ∈ lines t) : '\n' ∉ line := not_mem_of_mem_split hline

theorem lines_unlines {ls : List Text} (hne : ls ≠ []) (hls : ∀ line ∈ ls, '\n' ∉ line) : lines (unlines ls) = ls :=
  split_join hne hls

end LineTags.Text
