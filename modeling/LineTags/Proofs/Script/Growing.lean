import LineTags.Proofs.Script.Rereading
import Mathlib.Algebra.Order.BigOperators.Group.List
import Mathlib.Algebra.Order.Group.Nat
import Mathlib.Data.List.Forall2

/-!
# What is saved as identifiers are added

A script is put together line by line, so an identifier that is added to a list changes what is saved of its own line and of no other. The identifiers of the list may be any texts. One with a line feed in it is saved as several lines, but these are the same with the longer list. What is saved never becomes shorter, and stays the same only if no line that takes a tag gets one; so what was added once is not lost by adding more.
-/

namespace LineTags

open Text

/-- A line is saved as before, or it had code and is now saved with a word more. -/
def MayGain (line line' : Text) : Prop :=
  line' = line ∨ ∃ word, IsWord word ∧ hasNoCode line = false ∧ line' = insertTag line word

theorem lines_unlines_flatMap {ls : List Text} (hne : ls ≠ []) : lines (unlines ls) = ls.flatMap lines := by
  induction ls with
  | nil => exact absurd rfl hne
  | cons l ls ih =>
    cases ls with
    | nil => simp [unlines, join]
    | cons k ks =>
      have hrest := ih (List.cons_ne_nil k ks)
      rw [List.flatMap_cons, ← hrest]
      show split '\n' (l ++ ['\n'] ++ unlines (k :: ks)) = _
      rw [List.append_assoc]
      exact split_append_sep '\n' l (unlines (k :: ks))

/-- One line, with an entry of the longer list if it has one of the shorter list, or with a word. -/
theorem mayGain_tagged {line : Text} (hline : '\n' ∉ line) {held? held'? : Option LineId}
    (hkept : ∀ x ∈ held?, held'? = some x) (hnew : ∀ x ∈ held'?, held? = some x ∨ IsWord x.identifier) :
    List.Forall₂ MayGain (lines (tagged line held?)) (lines (tagged line held'?)) := by
  have hsame : ∀ t, List.Forall₂ MayGain (lines t) (lines t) := fun t => List.forall₂_same.2 fun _ _ => .inl rfl
  have hone : ∀ {t : Text}, '\n' ∉ t → lines t = [t] := fun {t} ht =>
    (lines_unlines (List.cons_ne_nil t []) fun l hl => List.mem_singleton.1 hl ▸ ht :)
  cases held? with
  | some x =>
    rw [hkept x rfl]
    exact hsame _
  | none =>
    cases held'? with
    | none => exact hsame _
    | some x =>
      have hword : IsWord x.identifier := (hnew x rfl).resolve_left fun h => nomatch h
      by_cases htakes : takesTag line
      · rw [tagged, tagged, if_pos htakes, hone hline, hone (lineFeed_not_mem_insertTag hline hword)]
        exact .cons (.inr ⟨_, hword, (takesTag_iff.1 htakes).2, rfl⟩) .nil
      · rw [tagged_of_not_takesTag htakes, tagged_of_not_takesTag htakes]
        exact hsame _

/-- What is saved with more identifiers, if all that come are words. -/
theorem forall₂_lines_reconstruct (clean : Text) {ids ids' : List LineId} (hlines : (ids'.map LineId.line).Nodup)
    (hkept : ∀ x ∈ ids, x ∈ ids') (hnew : ∀ x ∈ ids', x ∈ ids ∨ IsWord x.identifier) :
    List.Forall₂ MayGain (lines (reconstruct clean ids)) (lines (reconstruct clean ids')) := by
  have hentry : ∀ {ids₁ : List LineId} {number : Nat} {x : LineId}, (∀ y ∈ ids₁, y ∈ ids') → x ∈ ids₁ → x.line = number →
      entryFor? ids₁ number = some x := fun hsub hx hline =>
    entryFor?_eq_some hx hline fun y hy heq => List.inj_on_of_nodup_map hlines (hsub y hy) (hsub _ hx) (heq.trans hline.symm)
  have hfound : ∀ {ids₁ : List LineId} {number : Nat} {x : LineId}, x ∈ entryFor? ids₁ number → x ∈ ids₁ ∧ x.line = number :=
    fun hx => ⟨List.mem_of_find?_eq_some hx, by simpa using List.find?_some hx⟩
  have hne : (lines clean).zipIdx 1 ≠ [] := fun h => lines_ne_nil clean (List.zipIdx_eq_nil_iff.1 h)
  rw [reconstruct_eq, reconstruct_eq, lines_unlines_flatMap, lines_unlines_flatMap]
  · rw [List.flatMap_map, List.flatMap_map]
    refine List.rel_flatMap (R := fun l l' : Text × Nat => l = l' ∧ '\n' ∉ l.1) ?_ ?_
    · refine List.forall₂_same.2 fun l hl => ⟨rfl, ?_⟩
      exact lineFeed_not_mem_of_mem_lines (List.fst_mem_of_mem_zipIdx hl)
    · rintro l l' ⟨rfl, hline⟩
      refine mayGain_tagged hline (fun x hx => ?_) fun x hx => ?_
      · obtain ⟨hx, hat⟩ := hfound hx
        exact hentry (fun _ h => h) (hkept x hx) hat
      · obtain ⟨hx, hat⟩ := hfound hx
        exact (hnew x hx).imp_left fun hx => hentry hkept hx hat
  · simpa using hne
  · simpa using hne

theorem exists_getElem?_of_forall₂ {α β : Type} {R : α → β → Prop} {l : List α} {l' : List β} (h : List.Forall₂ R l l')
    {i : Nat} {y : β} (hy : l'[i]? = some y) : ∃ x, l[i]? = some x ∧ R x y := by
  induction h generalizing i with
  | nil => cases hy
  | @cons a b as bs hab hrest ih =>
    cases i with
    | zero =>
      obtain rfl := Option.some.inj hy
      exact ⟨a, rfl, hab⟩
    | succ i => exact ih hy

/-! ## The length of what is saved -/

theorem length_lt_insertTag {line : Text} (h : takesTag line) (identifier : Text) :
    line.length < (insertTag line identifier).length := by
  have hcode : hasNoCode line = false := (takesTag_iff.1 h).2
  have hsplit : (line.take (tagColumn (codeOf line))).length + (line.drop (tagColumn (codeOf line))).length = line.length := by
    rw [← List.length_append, List.take_append_drop]
  unfold insertTag
  dsimp only
  rw [if_neg (by rw [show isBlankText (codeOf line) = false from hcode]; exact Bool.false_ne_true), List.length_append,
    List.length_append, List.length_cons]
  omega

theorem length_unlines (ls : List Text) : (unlines ls).length = (ls.map List.length).sum + (ls.length - 1) := by
  induction ls with
  | nil => rfl
  | cons l ls ih =>
    cases ls with
    | nil => simp [unlines, join]
    | cons k ks =>
      have hjoin : unlines (l :: k :: ks) = l ++ ['\n'] ++ unlines (k :: ks) := rfl
      rw [hjoin, List.length_append, List.length_append, ih]
      simp only [List.map_cons, List.sum_cons, List.length_cons, List.length_nil]
      omega

section

variable {line clean : Text} {held? held'? : Option LineId} {ids ids' : List LineId}

theorem length_tagged_le (hkept : ∀ x ∈ held?, held'? = some x) : (tagged line held?).length ≤ (tagged line held'?).length := by
  cases held? with
  | some x =>
    rw [hkept x rfl]
  | none =>
    by_cases htakes : takesTag line
    · cases held'? with
      | none => exact Nat.le_refl _
      | some x =>
        rw [tagged, tagged, if_pos htakes]
        exact Nat.le_of_lt (length_lt_insertTag htakes x.identifier)
    · rw [tagged_of_not_takesTag htakes, tagged_of_not_takesTag htakes]

variable (hlines : (ids'.map LineId.line).Nodup) (hkept : ∀ x ∈ ids, x ∈ ids')

include hlines hkept

/-- Each line of the longer list has the entry that it has in the shorter one. -/
theorem entryFor?_of_subset {number : Nat} : ∀ x ∈ entryFor? ids number, entryFor? ids' number = some x := by
  intro x hx
  have hmem : x ∈ ids := List.mem_of_find?_eq_some hx
  have hat : x.line = number := by simpa using List.find?_some hx
  exact entryFor?_eq_some (hkept x hmem) hat fun y hy heq =>
    List.inj_on_of_nodup_map hlines hy (hkept x hmem) (heq.trans hat.symm)

theorem length_reconstruct_le : (reconstruct clean ids).length ≤ (reconstruct clean ids').length := by
  rw [reconstruct_eq, reconstruct_eq, length_unlines, length_unlines, List.length_map, List.length_map, List.map_map,
    List.map_map]
  refine Nat.add_le_add_right (List.sum_le_sum fun l _ => ?_) _
  exact length_tagged_le (entryFor?_of_subset hlines hkept)

/-- A new entry for a line that takes a tag makes longer what is saved. -/
theorem length_reconstruct_lt {i : Nat} {l : Text} (hl : (lines clean)[i]? = some l) (htakes : takesTag l) {x : LineId}
    (hx : x ∈ ids') (hnew : x ∉ ids) (hline : x.line = ((1 + i : Nat) : Int)) :
    (reconstruct clean ids).length < (reconstruct clean ids').length := by
  have hsame : ∀ y ∈ ids', y.line = ((1 + i : Nat) : Int) → y = x := fun y hy heq =>
    List.inj_on_of_nodup_map hlines hy hx (heq.trans hline.symm)
  have hmem : (l, 1 + i) ∈ (lines clean).zipIdx 1 := by
    refine List.mem_iff_getElem?.2 ⟨i, ?_⟩
    rw [List.getElem?_zipIdx, hl, Option.map_some]
  rw [reconstruct_eq, reconstruct_eq, length_unlines, length_unlines, List.length_map, List.length_map, List.map_map,
    List.map_map]
  refine Nat.add_lt_add_right (List.sum_lt_sum _ _ (fun l _ => ?_) ⟨(l, 1 + i), hmem, ?_⟩) _
  · exact length_tagged_le (entryFor?_of_subset hlines hkept)
  · have hnone : entryFor? ids (1 + i) = none :=
      entryFor?_eq_none fun y hy heq => hnew (hsame y (hkept y hy) heq ▸ hy)
    have hsome : entryFor? ids' (1 + i) = some x := entryFor?_eq_some hx hline hsame
    rw [Function.comp_apply, Function.comp_apply]
    dsimp only
    rw [hnone, hsome, tagged, tagged, if_pos htakes]
    exact length_lt_insertTag htakes x.identifier

/-- The same is saved if and only if no line that takes a tag has a new entry. -/
theorem reconstruct_eq_iff_of_subset : reconstruct clean ids' = reconstruct clean ids ↔
    ∀ x ∈ ids', x ∉ ids → ∀ (i : Nat) l, x.line = ((1 + i : Nat) : Int) → (lines clean)[i]? = some l → ¬takesTag l := by
  constructor
  · intro heq x hx hnew i l hline hl htakes
    exact Nat.lt_irrefl _ (heq ▸ length_reconstruct_lt hlines hkept hl htakes hx hnew hline)
  · intro hnone
    refine (reconstruct_congr hlines fun i l hl htakes x hline => ⟨hkept x, fun hx => ?_⟩).symm
    by_contra hnew
    exact hnone x hx hnew i l hline hl htakes

theorem reconstruct_eq_of_length_le (hle : (reconstruct clean ids').length ≤ (reconstruct clean ids).length) :
    reconstruct clean ids' = reconstruct clean ids := by
  refine (reconstruct_eq_iff_of_subset hlines hkept).2 fun x hx hnew i l hline hl htakes => ?_
  exact Nat.not_lt.2 hle (length_reconstruct_lt hlines hkept hl htakes hx hnew hline)

end

end LineTags
