import LineTags.Buffer.Tracker
import LineTags.Proofs.Buffer.Laws
import Mathlib.Data.List.Nodup
import Mathlib.Data.List.Sort

/-!
# What trackers say and keep

A tracker is sound when its anchors are distinct and all older than the next one. What it says about lines comes from the anchors that count, one a line; tidying releases the others and changes no answer. Binding tidies and then adds at most one anchor, on a line where none counts, so the answers afterwards are those from before and the new one. Anchors that do not count may carry an identifier that no answer shows, which is why whatever mints identifiers must tidy first.
-/

namespace LineTags.Tracker

open LineBuffer LawfulBuffer

variable {β : Type} [LineBuffer β] {t : Tracker β}

theorem mem_live {a : LiveAnchor} :
    a ∈ t.live ↔ (a.handle, a.identifier) ∈ t.bound ∧ anchorStart? a.handle t.buffer = some (a.line, a.column) := by
  rw [live, List.mem_mergeSort, List.mem_filterMap]
  constructor
  · rintro ⟨⟨handle, identifier⟩, hmem, ha⟩
    obtain ⟨⟨line, column⟩, hstart, rfl⟩ := Option.map_eq_some_iff.1 ha
    exact ⟨hmem, hstart⟩
  · rintro ⟨hmem, hstart⟩
    exact ⟨(a.handle, a.identifier), hmem, by simp only [hstart, Option.map_some]⟩

/-! ## The anchors that count -/

theorem firstOfLines_sublist (seen : List Nat) (l : List LiveAnchor) : (firstOfLines seen l).Sublist l := by
  induction l generalizing seen with
  | nil => exact List.Sublist.refl _
  | cons a r ih =>
    rw [firstOfLines]
    split
    · exact (ih seen).cons a
    · exact (ih (a.line :: seen)).cons_cons a

theorem line_not_mem_of_mem_firstOfLines {seen : List Nat} {l : List LiveAnchor} {a : LiveAnchor}
    (ha : a ∈ firstOfLines seen l) : a.line ∉ seen := by
  induction l generalizing seen with
  | nil => cases ha
  | cons b r ih =>
    rw [firstOfLines] at ha
    split at ha
    · exact ih ha
    · next hb =>
      rcases List.mem_cons.1 ha with rfl | ha
      · exact hb
      · exact fun hmem => ih ha (List.mem_cons_of_mem _ hmem)

theorem nodup_line_firstOfLines (seen : List Nat) (l : List LiveAnchor) :
    ((firstOfLines seen l).map LiveAnchor.line).Nodup := by
  induction l generalizing seen with
  | nil => exact List.nodup_nil
  | cons a r ih =>
    rw [firstOfLines]
    split
    · exact ih seen
    · rw [List.map_cons, List.nodup_cons]
      refine ⟨fun hmem => ?_, ih _⟩
      obtain ⟨b, hb, hline⟩ := List.mem_map.1 hmem
      exact line_not_mem_of_mem_firstOfLines hb (hline ▸ List.mem_cons_self)

theorem firstOfLines_eq_self {seen : List Nat} {l : List LiveAnchor} (hnodup : (l.map LiveAnchor.line).Nodup)
    (hseen : ∀ a ∈ l, a.line ∉ seen) : firstOfLines seen l = l := by
  induction l generalizing seen with
  | nil => rfl
  | cons a r ih =>
    rw [List.map_cons, List.nodup_cons] at hnodup
    rw [firstOfLines, if_neg (hseen a List.mem_cons_self), ih hnodup.2]
    intro b hb hmem
    rcases List.mem_cons.1 hmem with heq | hmem
    · exact hnodup.1 (heq ▸ List.mem_map_of_mem hb)
    · exact hseen b (List.mem_cons_of_mem _ hb) hmem

theorem kept_sublist (t : Tracker β) : t.kept.Sublist t.live := firstOfLines_sublist [] t.live

/-- Where every live anchor has a line of its own, all of them count. -/
theorem kept_eq_live (hnodup : (t.live.map LiveAnchor.line).Nodup) : t.kept = t.live :=
  firstOfLines_eq_self hnodup fun _ _ => List.not_mem_nil

theorem nodup_line_kept (t : Tracker β) : (t.kept.map LiveAnchor.line).Nodup := nodup_line_firstOfLines [] t.live

theorem mem_associations {x : LineId} : x ∈ t.associations ↔ ∃ a ∈ t.kept, (⟨a.line, a.identifier⟩ : LineId) = x :=
  List.mem_map

theorem nodup_line_associations (t : Tracker β) : (t.associations.map LineId.line).Nodup := by
  have hlines : ((t.kept.map LiveAnchor.line).map Int.ofNat).Nodup := (nodup_line_kept t).map fun _ _ => Int.ofNat.inj
  rw [List.map_map] at hlines
  rw [associations, List.map_map]
  exact hlines

theorem LiveAnchor.startsNoLater_iff {a b : LiveAnchor} :
    a.startsNoLater b = true ↔ a.line < b.line ∨ a.line = b.line ∧ a.column ≤ b.column := by
  simp [LiveAnchor.startsNoLater]

theorem LiveAnchor.startsNoLater_trans (a b c : LiveAnchor) (hab : a.startsNoLater b = true)
    (hbc : b.startsNoLater c = true) : a.startsNoLater c = true := by
  rw [startsNoLater_iff] at hab hbc ⊢
  omega

theorem LiveAnchor.startsNoLater_total (a b : LiveAnchor) : (a.startsNoLater b || b.startsNoLater a) = true := by
  rw [Bool.or_eq_true, startsNoLater_iff, startsNoLater_iff]
  omega

theorem pairwise_live (t : Tracker β) : t.live.Pairwise fun a a' => a.startsNoLater a' = true :=
  List.pairwise_mergeSort LiveAnchor.startsNoLater_trans LiveAnchor.startsNoLater_total _

/-- The lines with identifiers come in order. -/
theorem pairwise_associations (t : Tracker β) : t.associations.Pairwise fun x y => x.line < y.line := by
  have hkept : t.kept.Pairwise fun a a' => a.line < a'.line := by
    have hnodup := List.pairwise_map.1 (nodup_line_kept t)
    refine (((pairwise_live t).sublist (kept_sublist t)).and hnodup).imp fun {a a'} h => ?_
    rw [LiveAnchor.startsNoLater_iff] at h
    omega
  rw [associations, List.pairwise_map]
  exact hkept.imp fun {a a'} h => by simpa using h

omit [LineBuffer β] in
/-- Two lists of lines in order are equal when they say the same. -/
theorem eq_of_pairwise_line {l l' : List LineId} (hl : l.Pairwise fun x y => x.line < y.line)
    (hl' : l'.Pairwise fun x y => x.line < y.line) (hmem : ∀ x, x ∈ l ↔ x ∈ l') : l = l' := by
  have : Std.Antisymm fun x y : LineId => x.line < y.line := ⟨fun x y hxy hyx => absurd hxy (by omega)⟩
  have : Std.Irrefl fun x y : LineId => x.line < y.line := ⟨fun x hx => by omega⟩
  exact hl.eq_of_mem_iff hl' hmem

theorem associations_eq_of_mem_iff {t' : Tracker β} (h : ∀ x, x ∈ t'.associations ↔ x ∈ t.associations) :
    t'.associations = t.associations := eq_of_pairwise_line t'.pairwise_associations t.pairwise_associations h

theorem associations_of_bound_nil (h : t.bound = []) : t.associations = [] := by
  rw [associations, kept, live, h, List.filterMap_nil, List.mergeSort_nil]
  rfl

theorem identifierAt?_eq_none_iff {line : Int} : t.identifierAt? line = none ↔ ∀ x ∈ t.associations, x.line ≠ line := by
  rw [identifierAt?, Option.map_eq_none_iff, List.find?_eq_none]
  refine forall₂_congr fun x _ => ?_
  rw [beq_iff_eq]

theorem mem_identifiers {identifier : Text} : identifier ∈ t.identifiers ↔ ∃ a ∈ t.kept, a.identifier = identifier := by
  rw [identifiers, associations, List.map_map]
  exact List.mem_map

/-! ## Numbers -/

omit [LineBuffer β] in
theorem identifier_eq_of_mem_bound (hnodup : (t.bound.map Prod.fst).Nodup) {handle : Nat} {identifier other : Text}
    (h : (handle, identifier) ∈ t.bound) (h' : (handle, other) ∈ t.bound) : identifier = other :=
  (Prod.mk.inj (List.inj_on_of_nodup_map hnodup h h' rfl)).2

/-- Distinct live anchors have distinct numbers. -/
theorem eq_of_handle_eq (hnodup : (t.bound.map Prod.fst).Nodup) {a b : LiveAnchor} (ha : a ∈ t.live) (hb : b ∈ t.live)
    (hhandle : a.handle = b.handle) : a = b := by
  obtain ⟨handle, identifier, line, column⟩ := a
  obtain ⟨handle', identifier', line', column'⟩ := b
  obtain rfl : handle = handle' := hhandle
  obtain ⟨hbound, hstart⟩ := mem_live.1 ha
  obtain ⟨hbound', hstart'⟩ := mem_live.1 hb
  obtain rfl : identifier = identifier' := identifier_eq_of_mem_bound hnodup hbound hbound'
  have hplace : (line, column) = (line', column') := Option.some.inj (hstart.symm.trans hstart')
  obtain ⟨rfl, rfl⟩ := Prod.mk.inj hplace
  rfl

theorem nodup_live (hnodup : (t.bound.map Prod.fst).Nodup) : t.live.Nodup := by
  rw [live, (List.mergeSort_perm _ _).nodup_iff]
  refine List.Nodup.filterMap (fun b b' a ha ha' => ?_) (List.Nodup.of_map Prod.fst hnodup)
  obtain ⟨_, -, rfl⟩ := Option.map_eq_some_iff.1 ha
  obtain ⟨_, -, heq⟩ := Option.map_eq_some_iff.1 ha'
  exact Prod.ext (congrArg LiveAnchor.handle heq).symm (congrArg LiveAnchor.identifier heq).symm

/-! ## What tidying releases -/

/-- Releases the anchors of some entries. -/
def releaseAll (t : Tracker β) (entries : List (Nat × Text)) : Tracker β := entries.foldl (fun t b => t.release b.1) t

theorem bound_releaseAll (t : Tracker β) (entries : List (Nat × Text)) :
    (t.releaseAll entries).bound = t.bound.filter fun b => b.1 ∉ entries.map Prod.fst := by
  induction entries generalizing t with
  | nil => exact (List.filter_eq_self.2 fun b _ => decide_eq_true List.not_mem_nil).symm
  | cons b r ih =>
    have hr := ih (t.release b.1)
    rw [release, List.filter_filter] at hr
    rw [releaseAll, List.foldl_cons]
    refine hr.trans (List.filter_congr fun x _ => ?_)
    rw [List.map_cons, ← Bool.decide_and, decide_eq_decide, List.mem_cons, not_or]
    exact and_comm

theorem bound_tidy (t : Tracker β) : t.tidy.bound = t.bound.filter fun b => b.1 ∈ t.kept.map LiveAnchor.handle := by
  refine (bound_releaseAll t _).trans (List.filter_congr fun b hb => ?_)
  rw [decide_eq_decide, List.mem_map]
  constructor
  · intro hkept
    by_contra hdropped
    exact hkept ⟨b, List.mem_filter.2 ⟨hb, decide_eq_true hdropped⟩, rfl⟩
  · rintro hkept ⟨b', hb', hhandle⟩
    exact of_decide_eq_true (List.mem_filter.1 hb').2 (hhandle ▸ hkept)

/-! ## Soundness -/

variable [LawfulBuffer β]

structure Sound (t : Tracker β) : Prop where
  buffer : LawfulBuffer.Sound t.buffer
  nodup : (t.bound.map Prod.fst).Nodup
  below : ∀ b ∈ t.bound, b.1 < nextHandle t.buffer

theorem sound_release (ht : t.Sound) (handle : Nat) : (t.release handle).Sound where
  buffer := sound_releaseAnchor handle t.buffer ht.buffer
  nodup := ht.nodup.sublist (List.filter_sublist.map Prod.fst)
  below := fun b hb => by
    rw [release, nextHandle_releaseAnchor]
    exact ht.below b (List.mem_filter.1 hb).1

theorem sound_releaseAll (ht : t.Sound) (entries : List (Nat × Text)) : (t.releaseAll entries).Sound := by
  induction entries generalizing t with
  | nil => exact ht
  | cons b r ih => exact ih (sound_release ht b.1)

theorem text_releaseAll (t : Tracker β) (entries : List (Nat × Text)) :
    (t.releaseAll entries).text = t.text := by
  induction entries generalizing t with
  | nil => rfl
  | cons b r ih => exact (ih (t.release b.1)).trans (text_releaseAnchor b.1 t.buffer)

theorem anchorStart?_releaseAll (t : Tracker β) (entries : List (Nat × Text)) (handle : Nat) :
    anchorStart? handle (t.releaseAll entries).buffer =
      if handle ∈ entries.map Prod.fst then none else anchorStart? handle t.buffer := by
  induction entries generalizing t with
  | nil => exact (if_neg List.not_mem_nil).symm
  | cons b r ih =>
    refine (ih (t.release b.1)).trans ?_
    rw [release, anchorStart?_releaseAnchor, List.map_cons]
    by_cases hmem : handle ∈ r.map Prod.fst
    · rw [if_pos hmem, if_pos (List.mem_cons_of_mem _ hmem)]
    · rw [if_neg hmem]
      refine if_congr ?_ rfl rfl
      rw [List.mem_cons, or_iff_left hmem]

theorem sound_tidy (ht : t.Sound) : t.tidy.Sound := sound_releaseAll ht _

theorem text_tidy (t : Tracker β) : t.tidy.text = t.text := text_releaseAll t _

theorem anchorStart?_tidy {handle : Nat} (hkept : handle ∈ t.kept.map LiveAnchor.handle) :
    anchorStart? handle t.tidy.buffer = anchorStart? handle t.buffer := by
  refine (anchorStart?_releaseAll t _ handle).trans (if_neg fun hdropped => ?_)
  obtain ⟨b, hb, rfl⟩ := List.mem_map.1 hdropped
  exact of_decide_eq_true (List.mem_filter.1 hb).2 hkept

/-- After tidying the live anchors are those that counted before. -/
theorem mem_live_tidy (ht : t.Sound) {a : LiveAnchor} : a ∈ t.tidy.live ↔ a ∈ t.kept := by
  rw [mem_live, bound_tidy, List.mem_filter, decide_eq_true_iff]
  constructor
  · rintro ⟨⟨hbound, hkept⟩, hstart⟩
    rw [anchorStart?_tidy hkept] at hstart
    obtain ⟨k, hk, hhandle⟩ := List.mem_map.1 hkept
    rwa [← eq_of_handle_eq ht.nodup ((kept_sublist t).subset hk) (mem_live.2 ⟨hbound, hstart⟩) hhandle]
  · intro ha
    have hkept : a.handle ∈ t.kept.map LiveAnchor.handle := List.mem_map_of_mem ha
    obtain ⟨hbound, hstart⟩ := mem_live.1 ((kept_sublist t).subset ha)
    exact ⟨⟨hbound, hkept⟩, (anchorStart?_tidy hkept).trans hstart⟩

theorem nodup_line_live_tidy (ht : t.Sound) : (t.tidy.live.map LiveAnchor.line).Nodup := by
  refine List.Nodup.map_on (fun a ha b hb hline => ?_) (nodup_live (sound_tidy ht).nodup)
  exact List.inj_on_of_nodup_map (nodup_line_kept t) ((mem_live_tidy ht).1 ha) ((mem_live_tidy ht).1 hb) hline

theorem mem_kept_tidy (ht : t.Sound) {a : LiveAnchor} : a ∈ t.tidy.kept ↔ a ∈ t.kept := by
  rw [kept_eq_live (nodup_line_live_tidy ht), mem_live_tidy ht]

theorem mem_associations_tidy (ht : t.Sound) {x : LineId} : x ∈ t.tidy.associations ↔ x ∈ t.associations := by
  rw [mem_associations, mem_associations]
  exact exists_congr fun a => and_congr_left fun _ => mem_kept_tidy ht

/-- After tidying every anchor shows its identifier. -/
theorem mem_identifiers_of_mem_bound_tidy (ht : t.Sound) {b : Nat × Text} (hb : b ∈ t.tidy.bound) :
    b.2 ∈ t.identifiers := by
  rw [bound_tidy, List.mem_filter, decide_eq_true_iff] at hb
  obtain ⟨a, ha, hhandle⟩ := List.mem_map.1 hb.2
  have hbound : (b.1, a.identifier) ∈ t.bound := by
    rw [← hhandle]
    exact (mem_live.1 ((kept_sublist t).subset ha)).1
  exact mem_identifiers.2 ⟨a, ha, identifier_eq_of_mem_bound ht.nodup hbound hb.1⟩

end LineTags.Tracker
