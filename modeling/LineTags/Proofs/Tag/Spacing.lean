import LineTags.Proofs.Tag.CommentCut
import LineTags.Proofs.Tag.Grammar
import LineTags.Tag.Spacing

/-!
# Repaired spaces and the comment

The repair puts single spaces into the code of a line: before a mark, and behind a letter, a digit, an underscore or the colon of a mark. In neither place does a space change which slashes and quotes are escaped, so the repaired line is cut where the line was, its comment is the same, and it can be found by repairing the code alone.
-/

namespace LineTags

open Text CommentedLine

/-! ## Spaces that are put in one after the other -/

/-- The second text is the first with spaces put in, none of which takes the place of a backslash, a quote or a slash behind a backslash that escapes it. -/
inductive Spaced (t : Text) : Text → Prop
  | refl : Spaced t t
  | space {before behind : Text} (hsafe : endsPending false before = true → StartsIn IsPlain behind)
      (h : Spaced t (before ++ behind)) : Spaced t (before ++ ' ' :: behind)

theorem Spaced.trans {t t' t'' : Text} (h : Spaced t t') (h' : Spaced t' t'') : Spaced t t'' := by
  induction h' with
  | refl => exact h
  | space hsafe _ ih => exact .space hsafe ih

theorem Spaced.mem {c : Char} {t t' : Text} (h : Spaced t t') (hc : c ∈ t') : c = ' ' ∨ c ∈ t := by
  induction h with
  | refl => exact .inr hc
  | @space before behind _ _ ih =>
    rcases List.mem_append.1 hc with hbefore | hc
    · exact ih (List.mem_append_left _ hbefore)
    · rcases List.mem_cons.1 hc with hspace | hbehind
      · exact .inl hspace
      · exact ih (List.mem_append_right _ hbehind)

theorem isPlain_space : IsPlain ' ' := ⟨by decide, by decide, by decide⟩

theorem Spaced.ofLine {code spaced comment : Text} (h : Spaced code spaced) (hcut : ofLine (code ++ comment) = ⟨code, comment⟩) :
    ofLine (spaced ++ comment) = ⟨spaced, comment⟩ := by
  induction h with
  | refl => exact hcut
  | @space before behind hsafe _ ih =>
    rw [List.append_assoc] at ih ⊢
    exact ofLine_insert_char isPlain_space hsafe ih

/-! ## The spaces before marks -/

/-- What was passed over is kept as it is, and the mark behind a space starts with a plain character. -/
theorem spaced_spaceMarks (done t : Text) : Spaced (done ++ t) (done ++ spaceMarks t) := by
  fun_induction spaceMarks t generalizing done with
  | case1 => exact .refl
  | case2 c r hblank ih =>
    have h := ih (done ++ [c])
    rwa [← List.append_cons, ← List.append_cons] at h
  | case3 c r hblank ih =>
    have h := ih (done ++ [c, '#', 'i', 'd', ':'])
    rw [List.append_assoc, List.append_assoc] at h
    have hplain : StartsIn IsPlain ('#' :: 'i' :: 'd' :: ':' :: spaceMarks r) := startsIn_cons.2 ⟨by decide, by decide, by decide⟩
    rw [List.append_cons done c (' ' :: _)]
    refine .space (fun _ => hplain) ?_
    rwa [← List.append_cons]
  | case4 c r hnot ih =>
    have h := ih (done ++ [c])
    rwa [← List.append_cons, ← List.append_cons] at h

/-! ## The spaces behind runs -/

theorem runCut?_le {run rest : Text} {n : Nat} (h : runCut? run rest = some n) : n ≤ run.length := by
  unfold runCut? at h
  split at h
  · split at h
    · cases h
    · split at h
      · cases h
      · exact Nat.le_of_eq (Option.some.inj h).symm
  · obtain ⟨stop, -, h⟩ := Option.bind_eq_some_iff.1 h
    obtain ⟨hlt, h⟩ := Option.ite_none_right_eq_some.1 h
    exact Option.some.inj h ▸ Nat.le_of_lt hlt

/-- A space is due behind characters of a mark and its run only, none of which is a backslash. -/
theorem backslash_not_mem_of_spaceAhead? {c : Char} {r : Text} {n : Nat} (h : spaceAhead? (c :: r) = some n) :
    '\\' ∉ r.take n := by
  obtain ⟨s, hmark, hcut⟩ := Option.bind_eq_some_iff.1 h
  obtain ⟨k, hk, rfl⟩ := Option.map_eq_some_iff.1 hcut
  obtain ⟨-, rfl⟩ := List.cons.inj (afterMark?_eq_some hmark)
  have hrun : s.take k <+: s.takeWhile isIdentifierChar :=
    List.prefix_of_prefix_length_le (List.take_prefix k s) (List.takeWhile_prefix _)
      (Nat.le_trans (List.length_take_le k s) (runCut?_le hk))
  intro hmem
  have hmem : '\\' ∈ ['i', 'd', ':'] ++ s.take k := hmem
  rcases List.mem_append.1 hmem with hmem | hmem
  · exact absurd hmem (by decide)
  · exact absurd (List.mem_takeWhile_imp (hrun.subset hmem)) (by decide)

/-- Behind what was passed over, a space is due only where it stands behind no backslash. -/
theorem spaced_spaceRuns (done : Text) {due : Nat} {t : Text} (hdue : '\\' ∉ t.take due) :
    Spaced (done ++ t) (done ++ spaceRuns due t) := by
  fun_induction spaceRuns due t generalizing done with
  | case1 => exact .refl
  | case2 c r ih =>
    have hahead : '\\' ∉ r.take ((spaceAhead? (c :: r)).getD 0) := by
      cases hahead : spaceAhead? (c :: r) with
      | none => exact List.not_mem_nil
      | some n => exact backslash_not_mem_of_spaceAhead? hahead
    have h := ih (done ++ [c]) hahead
    rwa [← List.append_cons, ← List.append_cons] at h
  | case3 c r ih =>
    have hc : c ≠ '\\' := fun h => hdue (h ▸ List.mem_cons_self)
    have hpending : endsPending false (done ++ [c]) = false :=
      endsPending_append_of_ne false done (List.cons_ne_nil c []) fun hmem => hc (List.mem_singleton.1 hmem).symm
    have h := ih (done ++ [c]) List.not_mem_nil
    rw [← List.append_cons] at h
    rw [List.append_cons done c (' ' :: _)]
    exact .space (fun htrue => Bool.noConfusion (hpending.symm.trans htrue)) h
  | case4 due c r ih =>
    have h := ih (done ++ [c]) fun hmem => hdue (List.mem_cons_of_mem c hmem)
    rwa [← List.append_cons, ← List.append_cons] at h

/-! ## Repaired codes -/

theorem spaced_repairSpacing (t : Text) : Spaced t (repairSpacing t) :=
  (spaced_spaceMarks [] t).trans (spaced_spaceRuns [] List.not_mem_nil)

/-- A line with its code repaired is cut behind the repaired code. -/
theorem ofLine_repairSpacing (line : Text) :
    ofLine (repairSpacing (codeOf line) ++ commentOf line) = ⟨repairSpacing (codeOf line), commentOf line⟩ := by
  refine (spaced_repairSpacing (codeOf line)).ofLine ?_
  rw [codeOf_append_commentOf]
  rfl

end LineTags
