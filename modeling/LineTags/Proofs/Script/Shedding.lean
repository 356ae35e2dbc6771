import LineTags.Proofs.Buffer.Position
import LineTags.Proofs.Script.Survival
import Mathlib.Data.List.Nodup
import Mathlib.Data.List.Perm.Subperm

/-!
# Scripts whose tags come off cleanly

A script sheds its tags if nothing is left of them: no line has a managed tag once its first one is cut out, and each line that had one has code without it. Such a script is put together again with its own entries and with any others for its lines, and what is read of it then is the same clean text, and those entries whose line has code.
-/

namespace LineTags

open Text

/-! ### The lines of entries -/

theorem le_of_mem_numbered {start : Nat} {parts : List (Text × Option Text)} {entry : LineId}
    (hmem : entry ∈ Extraction.numbered start parts) : (start : Int) ≤ entry.line := by
  obtain ⟨k, part, -, hline, -⟩ := mem_numbered.1 hmem
  omega

theorem nodup_line_numbered (start : Nat) (parts : List (Text × Option Text)) :
    ((Extraction.numbered start parts).map LineId.line).Nodup := by
  induction parts generalizing start with
  | nil => exact List.nodup_nil
  | cons part parts ih =>
    obtain ⟨text, _ | identifier⟩ := part
    · exact ih (start + 1)
    · rw [Extraction.numbered, List.map_cons, List.nodup_cons]
      refine ⟨fun hmem => ?_, ih (start + 1)⟩
      obtain ⟨entry, hentry, hline⟩ := List.mem_map.1 hmem
      have := le_of_mem_numbered hentry
      dsimp only at hline
      omega

theorem nodup_line_ids_extract (script : Text) : ((extract script).ids.map LineId.line).Nodup := by
  rw [extract_eq]
  exact nodup_line_numbered 1 _

/-! ### What is read of a script that was put together -/

section

variable {clean : Text} {ids : List LineId} (hclean : ∀ line ∈ lines clean, codeTag? line = none)
  (hids : ∀ entry ∈ ids, isIdentifier entry.identifier)

include hclean hids

theorem map_partsOf_lines_reconstruct :
    (lines (reconstruct clean ids)).map partsOf = ((lines clean).zipIdx 1).map fun l =>
      (l.1, if hasNoCode l.1 then none else (entryFor? ids l.2).map LineId.identifier) := by
  rw [lines_reconstruct fun entry hmem => isWord_of_isIdentifier (hids entry hmem), List.map_map]
  refine List.map_congr_left fun l hl => ?_
  exact partsOf_tagged (hclean l.1 (List.fst_mem_of_mem_zipIdx hl)) fun entry hmem => hids entry (List.mem_of_find?_eq_some hmem)

theorem clean_extract_reconstruct : (extract (reconstruct clean ids)).clean = clean := by
  have htexts := congrArg (List.map Prod.fst) (map_partsOf_lines_reconstruct hclean hids)
  rw [List.map_map, List.map_map] at htexts
  have hsame : ((lines clean).zipIdx 1).map Prod.fst = lines clean := List.zipIdx_map_fst 1 (lines clean)
  rw [extract_eq]
  exact (congrArg unlines (htexts.trans hsame)).trans (unlines_lines clean)

/-- Of entries for distinct lines, those come back whose line has code. -/
theorem mem_ids_extract_reconstruct (hlines : (ids.map LineId.line).Nodup) {x : LineId} :
    x ∈ (extract (reconstruct clean ids)).ids ↔ x ∈ ids ∧ ∃ l, clean.line? x.line = some l ∧ hasNoCode l = false := by
  have hparts : ∀ k, ((lines (reconstruct clean ids)).map partsOf)[k]? = (lines clean)[k]?.map fun l =>
      (l, if hasNoCode l then none else (entryFor? ids (1 + k)).map LineId.identifier) := by
    intro k
    rw [map_partsOf_lines_reconstruct hclean hids, List.getElem?_map, List.getElem?_zipIdx, Option.map_map]
    rfl
  have hline? : ∀ k : Nat, x.line = (1 + k : Nat) → clean.line? x.line = (lines clean)[k]? := by
    intro k hk
    rw [line?_eq_getElem?, if_neg (by omega), show x.line.toNat - 1 = k by omega]
  rw [extract_eq, mem_numbered]
  constructor
  · rintro ⟨k, part, hpart, hk, hid⟩
    rw [hparts] at hpart
    obtain ⟨l, hl, rfl⟩ := Option.map_eq_some_iff.1 hpart
    dsimp only at hid
    split at hid
    · cases hid
    · next hcode =>
      obtain ⟨entry, hentry, hsame⟩ := Option.map_eq_some_iff.1 hid
      have hat : entry.line = (1 + k : Nat) := by simpa using List.find?_some hentry
      obtain rfl : entry = x := by
        cases entry
        cases x
        exact LineId.mk.injEq .. ▸ ⟨hat.trans hk.symm, hsame⟩
      exact ⟨List.mem_of_find?_eq_some hentry, l, (hline? k hk).trans hl, Bool.of_not_eq_true hcode⟩
  · rintro ⟨hx, l, hl, hcode⟩
    have hone : 1 ≤ x.line := by
      by_contra hlow
      rw [line?_eq_getElem?, if_pos (by omega)] at hl
      cases hl
    have hk : x.line = (1 + (x.line.toNat - 1) : Nat) := by omega
    have hentry : entryFor? ids (1 + (x.line.toNat - 1)) = some x :=
      entryFor?_eq_some hx hk fun other hother heq => List.inj_on_of_nodup_map hlines hother hx (heq.trans hk.symm)
    rw [hline? _ hk] at hl
    refine ⟨x.line.toNat - 1, _, by rw [hparts, hl, Option.map_some], hk, ?_⟩
    rw [hentry, if_neg (Bool.not_eq_true _ ▸ hcode), Option.map_some]

end

/-! ### Scripts that shed their tags -/

/-- No line has a managed tag left when its first one is cut out, and each line that had one has code without it. -/
structure ShedsTags (script : Text) : Prop where
  untagged : ∀ line ∈ lines (extract script).clean, codeTag? line = none
  coded : ∀ a ∈ (extract script).ids, ∃ l, (extract script).clean.line? a.line = some l ∧ hasNoCode l = false

/-- The second script has the clean text and the tags of the first, and any other tag of it is on a line that had none. -/
structure OnlyAddsTags (before after : Text) : Prop where
  clean : (extract after).clean = (extract before).clean
  kept : ∀ a ∈ (extract before).ids, a ∈ (extract after).ids
  onFreeLines : ∀ a ∈ (extract after).ids, a ∉ (extract before).ids → ∀ b ∈ (extract before).ids, b.line ≠ a.line

/-- The identifiers of the second script that the first has not on the same line. -/
def addedIds (before after : Text) : List Text :=
  ((extract after).ids.filter (· ∉ (extract before).ids)).map LineId.identifier

namespace ShedsTags

variable {script : Text} {ids : List LineId} (h : ShedsTags script) (hids : ∀ entry ∈ ids, isIdentifier entry.identifier)
  (hlines : (ids.map LineId.line).Nodup) (hold : ∀ a ∈ (extract script).ids, a ∈ ids)

include h hids hlines hold

/-- A script that is put together again with all its entries, and with more, only gets tags. -/
theorem onlyAddsTags : OnlyAddsTags script (reconstruct (extract script).clean ids) where
  clean := clean_extract_reconstruct h.untagged hids
  kept := fun a ha => (mem_ids_extract_reconstruct h.untagged hids hlines).2 ⟨hold a ha, h.coded a ha⟩
  onFreeLines := by
    intro a ha hnew b hb hline
    have hmem := ((mem_ids_extract_reconstruct h.untagged hids hlines).1 ha).1
    exact hnew (List.inj_on_of_nodup_map hlines (hold b hb) hmem hline ▸ hb)

/-- The added identifiers are among the entries beside those that were there. -/
theorem count_addedIds_add_le (identifier : Text) :
    (addedIds script (reconstruct (extract script).clean ids)).count identifier +
        (extract script).ids.countP (fun a => a.identifier = identifier) ≤
      ids.countP fun a => a.identifier = identifier := by
  let after := (extract (reconstruct (extract script).clean ids)).ids
  have hnodup : (after.filter (· ∉ (extract script).ids) ++ (extract script).ids).Nodup := by
    rw [List.nodup_append]
    refine ⟨(List.Nodup.of_map _ (nodup_line_ids_extract _)).filter _, List.Nodup.of_map _ (nodup_line_ids_extract _), ?_⟩
    rintro a ha b hb rfl
    exact of_decide_eq_true (List.mem_filter.1 ha).2 hb
  have hsubset : after.filter (· ∉ (extract script).ids) ++ (extract script).ids ⊆ ids := by
    intro a ha
    rcases List.mem_append.1 ha with ha | ha
    · exact ((mem_ids_extract_reconstruct h.untagged hids hlines).1 (List.mem_filter.1 ha).1).1
    · exact hold a ha
  have hcount := (List.subperm_of_subset hnodup hsubset).countP_le fun a => a.identifier = identifier
  have hadded : (addedIds script (reconstruct (extract script).clean ids)).count identifier =
      (after.filter (· ∉ (extract script).ids)).countP fun a => a.identifier = identifier := by
    rw [addedIds, List.count_eq_countP, List.countP_map]
    exact List.countP_congr fun a _ => by simp
  rwa [List.countP_append, ← hadded] at hcount

end ShedsTags

end LineTags
