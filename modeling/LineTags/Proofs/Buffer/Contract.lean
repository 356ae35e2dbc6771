import LineTags.Proofs.Buffer.Filling

/-!
# The contract of a tracker

Edits leave anchors in any state: collapsed, stretched over several lines, several on one line or even at one place. A tracker answers for all of them alike. It says at most one identifier of a line, that of the anchor that leads there: it starts first, and of those that start at the same place it was bound first. Reading this off the sorted anchors rests on the sort being stable. Asking again gives the same answer and leaves exactly the anchors that lead. Binding succeeds where the line has code and carries no other identifier, and adds nothing but what it was asked for. `Tracker.Contract` collects these statements, and a tracker that is usable keeps it, so a tracker over a buffer of either kind keeps it after any calls.
-/

namespace LineTags

open LineBuffer

namespace Tracker

variable {β : Type} [LineBuffer β] {t : Tracker β}

/-! ## The anchor that leads on a line -/

/-- The anchor has not collapsed; those on its line that were bound before it start behind it, and those that were bound after it do not start before it. -/
structure Leads (t : Tracker β) (a : LiveAnchor) : Prop where
  placed : anchorStart? a.handle t.buffer = some (a.line, a.column)
  first : ∃ before behind, t.bound = before ++ (a.handle, a.identifier) :: behind ∧
    (∀ b ∈ before, ∀ column, anchorStart? b.1 t.buffer = some (a.line, column) → a.column < column) ∧
    ∀ b ∈ behind, ∀ column, anchorStart? b.1 t.buffer = some (a.line, column) → a.column ≤ column

/-- An anchor is the first of its line if none before it is on this line. -/
theorem mem_firstOfLines_iff {seen : List Nat} {l : List LiveAnchor} {a : LiveAnchor} :
    a ∈ firstOfLines seen l ↔ a.line ∉ seen ∧ ∃ before behind, l = before ++ a :: behind ∧ ∀ b ∈ before, b.line ≠ a.line := by
  induction l generalizing seen with
  | nil => simp [firstOfLines]
  | cons b r ih =>
    have hcons : (∃ before behind, b :: r = before ++ a :: behind ∧ ∀ c ∈ before, c.line ≠ a.line) ↔
        b = a ∨ b.line ≠ a.line ∧ ∃ before behind, r = before ++ a :: behind ∧ ∀ c ∈ before, c.line ≠ a.line := by
      constructor
      · rintro ⟨_ | ⟨c, before⟩, behind, hsplit, hlines⟩
        · exact .inl (List.cons.inj hsplit).1
        · obtain ⟨rfl, hrest⟩ := List.cons.inj hsplit
          rw [List.forall_mem_cons] at hlines
          exact .inr ⟨hlines.1, before, behind, hrest, hlines.2⟩
      · rintro (rfl | ⟨hline, before, behind, rfl, hlines⟩)
        · exact ⟨[], r, rfl, fun _ h => absurd h List.not_mem_nil⟩
        · exact ⟨b :: before, behind, rfl, List.forall_mem_cons.2 ⟨hline, hlines⟩⟩
    rw [firstOfLines, hcons]
    by_cases hb : b.line ∈ seen
    · rw [if_pos hb, ih]
      refine and_congr_right fun ha => ?_
      have hline : b.line ≠ a.line := fun heq => ha (heq ▸ hb)
      have hne : b ≠ a := fun heq => hline (congrArg LiveAnchor.line heq)
      simp only [hne, false_or, ne_eq, hline, not_false_eq_true, true_and]
    · rw [if_neg hb, List.mem_cons, ih, List.mem_cons, not_or]
      constructor
      · rintro (rfl | ⟨⟨hline, ha⟩, hsplit⟩)
        · exact ⟨hb, .inl rfl⟩
        · exact ⟨ha, .inr ⟨Ne.symm hline, hsplit⟩⟩
      · rintro ⟨ha, rfl | ⟨hline, hsplit⟩⟩
        · exact .inl rfl
        · exact .inr ⟨⟨Ne.symm hline, ha⟩, hsplit⟩

theorem mem_left_of_pair_sublist {α : Type} {before behind : List α} {a b : α} (hnodup : (before ++ a :: behind).Nodup)
    (hpair : [b, a].Sublist (before ++ a :: behind)) : b ∈ before := by
  obtain ⟨front, back, hsplit, hb, ha⟩ := List.cons_sublist_iff.1 hpair
  rcases List.append_eq_append_iff.1 hsplit with ⟨rest, rfl, hrest⟩ | ⟨rest, rfl, -⟩
  · have hback : a ∉ behind := (List.nodup_cons.1 (List.nodup_append.1 hnodup).2.1).1
    cases rest with
    | nil => rwa [List.append_nil] at hb
    | cons c rest =>
      obtain ⟨-, rfl⟩ := List.cons.inj hrest
      exact absurd (List.mem_append_right rest (List.singleton_sublist.1 ha)) hback
  · exact List.mem_append_left rest hb

/-- Of two live anchors of which the one bound first starts no later, it comes first. -/
theorem pair_sublist_live {a b : LiveAnchor} (hbound : [(a.handle, a.identifier), (b.handle, b.identifier)].Sublist t.bound)
    (ha : anchorStart? a.handle t.buffer = some (a.line, a.column))
    (hb : anchorStart? b.handle t.buffer = some (b.line, b.column)) (hle : a.startsNoLater b = true) :
    [a, b].Sublist t.live := by
  refine List.pair_sublist_mergeSort LiveAnchor.startsNoLater_trans LiveAnchor.startsNoLater_total hle ?_
  convert hbound.filterMap _ using 1
  simp [ha, hb]

/-- An anchor that counts leads on its line. -/
theorem leads_of_mem_kept (hnodup : (t.bound.map Prod.fst).Nodup) {a : LiveAnchor} (ha : a ∈ t.kept) : t.Leads a := by
  obtain ⟨-, front, back, hsplit, hfront⟩ := mem_firstOfLines_iff.1 ha
  have hlive := nodup_live hnodup
  have hsorted := pairwise_live t
  obtain ⟨hbound, hplaced⟩ := mem_live.1 ((kept_sublist t).subset ha)
  obtain ⟨before, behind, hcut⟩ := List.append_of_mem hbound
  rw [hsplit] at hlive hsorted
  refine ⟨hplaced, before, behind, hcut, fun b hb column hstart => ?_, fun b hb column hstart => ?_⟩
  · -- It would come before `a` among the live ones, for the sort keeps the order of those at one place.
    by_contra hle
    have hpair : [b, (a.handle, a.identifier)].Sublist t.bound := by
      rw [hcut]
      exact (List.singleton_sublist.2 hb).append (List.singleton_sublist.2 List.mem_cons_self)
    have hearlier : LiveAnchor.startsNoLater ⟨b.1, b.2, a.line, column⟩ a = true :=
      LiveAnchor.startsNoLater_iff.2 (.inr ⟨rfl, Nat.le_of_not_lt hle⟩)
    have hfirst := pair_sublist_live hpair hstart hplaced hearlier
    rw [hsplit] at hfirst
    exact hfront _ (mem_left_of_pair_sublist hlive hfirst) rfl
  · by_contra hlt
    have hb' : (⟨b.1, b.2, a.line, column⟩ : LiveAnchor) ∈ t.live :=
      mem_live.2 ⟨hcut ▸ List.mem_append_right before (List.mem_cons_of_mem _ hb), hstart⟩
    rw [hsplit, List.mem_append, List.mem_cons] at hb'
    rcases hb' with hb' | heq | hb'
    · exact hfront _ hb' rfl
    · exact hlt (Nat.le_of_eq (congrArg LiveAnchor.column heq).symm)
    · have hlater := (List.pairwise_cons.1 (List.pairwise_append.1 hsorted).2.1).1 _ hb'
      rw [LiveAnchor.startsNoLater_iff] at hlater
      simp only [Nat.lt_irrefl, false_or, true_and] at hlater
      exact hlt hlater

theorem mem_kept_of_leads (hnodup : (t.bound.map Prod.fst).Nodup) {a : LiveAnchor} (ha : t.Leads a) : a ∈ t.kept := by
  obtain ⟨hplaced, before, behind, hcut, hbefore, hbehind⟩ := ha
  have hlive := nodup_live hnodup
  have hsorted := pairwise_live t
  have ha : a ∈ t.live := mem_live.2 ⟨hcut ▸ List.mem_append_cons_self, hplaced⟩
  obtain ⟨front, back, hsplit⟩ := List.append_of_mem ha
  refine mem_firstOfLines_iff.2 ⟨List.not_mem_nil, front, back, hsplit, fun b hb hline => ?_⟩
  have hfront : a ∉ front := by
    rw [hsplit, List.nodup_append] at hlive
    exact fun h => hlive.2.2 a h a List.mem_cons_self rfl
  rw [hsplit, List.pairwise_append] at hsorted
  have hearlier := hsorted.2.2 b hb a List.mem_cons_self
  rw [LiveAnchor.startsNoLater_iff] at hearlier
  have hb' : b ∈ t.live := hsplit ▸ List.mem_append_left _ hb
  obtain ⟨hbound, hstart⟩ := mem_live.1 hb'
  rw [hline] at hstart
  rw [hcut, List.mem_append, List.mem_cons] at hbound
  rcases hbound with hbound | heq | hbound
  · have := hbefore _ hbound _ hstart
    omega
  · have hhandle : b.handle = a.handle := congrArg Prod.fst heq
    exact hfront (eq_of_handle_eq hnodup hb' ha hhandle ▸ hb)
  · -- Bound later and starting at the same place, it would come behind `a`.
    have hle := hbehind _ hbound _ hstart
    have hpair : [(a.handle, a.identifier), (b.handle, b.identifier)].Sublist t.bound := by
      rw [hcut]
      exact ((List.singleton_sublist.2 hbound).cons_cons _).trans (List.sublist_append_right _ _)
    have hfirst := pair_sublist_live hpair hplaced (hline ▸ hstart) (LiveAnchor.startsNoLater_iff.2 (.inr ⟨hline.symm, hle⟩))
    obtain ⟨left, right, hfrontsplit⟩ := List.append_of_mem hb
    rw [hsplit, hfrontsplit, List.append_assoc, List.cons_append] at hlive hfirst
    exact hfront (hfrontsplit ▸ List.mem_append_left _ (mem_left_of_pair_sublist hlive hfirst))

/-! ## What binding answers -/

theorem mem_associations_of_identifierAt? {line : Int} {identifier : Text} (h : t.identifierAt? line = some identifier) :
    (⟨line, identifier⟩ : LineId) ∈ t.associations := by
  obtain ⟨x, hfind, rfl⟩ := Option.map_eq_some_iff.1 h
  obtain rfl : x.line = line := by simpa using List.find?_some hfind
  exact List.mem_of_find?_eq_some hfind

theorem eq_of_line_eq {x y : LineId} (hx : x ∈ t.associations) (hy : y ∈ t.associations) (hline : x.line = y.line) : x = y :=
  List.inj_on_of_nodup_map t.nodup_line_associations hx hy hline

/-- A line can be given an identifier if it carries no other one. -/
def CarriesNoOther (t : Tracker β) (line : Int) (identifier : Text) : Prop :=
  ∀ x ∈ t.associations, x.line = line → x.identifier = identifier

theorem carriesNoOther_iff {line : Int} {identifier : Text} :
    t.CarriesNoOther line identifier ↔ t.identifierAt? line = none ∨ t.identifierAt? line = some identifier := by
  constructor
  · intro h
    cases hat : t.identifierAt? line with
    | none => exact .inl rfl
    | some holder => exact .inr (congrArg some (h _ (mem_associations_of_identifierAt? hat) rfl))
  · rintro (hat | hat) x hx hline
    · exact absurd hline (identifierAt?_eq_none_iff.1 hat x hx)
    · exact congrArg LineId.identifier (eq_of_line_eq hx (mem_associations_of_identifierAt? hat) hline)

theorem bind_of_identifierAt? {line : Int} {identifier : Text} (hcarry : t.canCarry line = true)
    (hat : t.identifierAt? line = some identifier) : t.bind line identifier = (true, t.tidy) := by
  rw [bind, if_pos hcarry, hat]
  simp only [decide_true]

section Usable

variable [FillableBuffer β]

theorem Usable.bind_iff (h : t.Usable) (line : Int) (identifier : Text) :
    (t.bind line identifier).1 = true ↔ t.canCarry line = true ∧ t.CarriesNoOther line identifier := by
  rw [carriesNoOther_iff]
  constructor
  · intro hbound
    refine ⟨canCarry_of_bind hbound, ?_⟩
    obtain heq | heq | ⟨hat, -⟩ | ⟨t', hattached, -⟩ := bind_cases t line identifier
    · rw [heq] at hbound
      cases hbound
    · rw [heq] at hbound
      cases hbound
    · exact .inr hat
    · exact .inl hattached.free
  · rintro ⟨hcarry, hfree | hat⟩
    · exact bind_of_isAlive h.alive hcarry hfree identifier
    · rw [bind_of_identifierAt? hcarry hat]

theorem Usable.mem_associations_of_bind (h : t.Usable) {line : Int} {identifier : Text}
    (hbound : (t.bind line identifier).1 = true) {x : LineId} :
    x ∈ (t.bind line identifier).2.associations ↔ x ∈ t.associations ∨ x = ⟨line, identifier⟩ := by
  obtain ⟨hcarry, hother⟩ := (h.bind_iff line identifier).1 hbound
  rcases carriesNoOther_iff.1 hother with hfree | hat
  · rw [mem_associations_bind h.sound hfree, and_iff_right hbound]
  · have hmem := mem_associations_of_identifierAt? hat
    rw [bind_of_identifierAt? hcarry hat, mem_associations_tidy h.sound]
    exact (or_iff_left_of_imp fun heq => heq ▸ hmem).symm

theorem Usable.associations_tidy (h : t.Usable) : t.tidy.associations = t.associations :=
  associations_eq_of_mem_iff fun _ => mem_associations_tidy h.sound

theorem Usable.associations_of_not_bind (h : t.Usable) {line : Int} {identifier : Text}
    (hrefused : (t.bind line identifier).1 = false) : (t.bind line identifier).2.associations = t.associations := by
  obtain heq | heq | ⟨-, heq⟩ | ⟨t', -, heq⟩ := bind_cases t line identifier
  · rw [heq]
  · rw [heq, h.associations_tidy]
  · rw [heq] at hrefused
    cases hrefused
  · rw [heq] at hrefused
    cases hrefused

/-- After tidying there are as many anchors as lines with identifiers. -/
theorem Usable.size_tidy (h : t.Usable) : t.tidy.size = t.associations.length := by
  have hnodup := h.sound.nodup
  have hkept : (t.kept.map LiveAnchor.handle).Nodup := by
    refine List.Nodup.map_on (fun a ha b hb hhandle => ?_) ((nodup_live hnodup).sublist (kept_sublist t))
    exact eq_of_handle_eq hnodup ((kept_sublist t).subset ha) ((kept_sublist t).subset hb) hhandle
  have hperm : (t.tidy.bound.map Prod.fst).Perm (t.kept.map LiveAnchor.handle) := by
    refine (List.perm_ext_iff_of_nodup h.tidy.sound.nodup hkept).2 fun handle => ?_
    rw [bound_tidy, List.mem_map]
    constructor
    · rintro ⟨b, hb, rfl⟩
      exact of_decide_eq_true (List.mem_filter.1 hb).2
    · intro hmem
      obtain ⟨a, ha, rfl⟩ := List.mem_map.1 hmem
      have hbound := (mem_live.1 ((kept_sublist t).subset ha)).1
      exact ⟨_, List.mem_filter.2 ⟨hbound, decide_eq_true hmem⟩, rfl⟩
  have hlength := hperm.length_eq
  rw [List.length_map, List.length_map] at hlength
  rw [size, hlength, associations, List.length_map]

end Usable

/-! ## The contract -/

/-- What a tracker promises about asking and about binding. -/
structure Contract (t : Tracker β) : Prop where
  increasing : t.associations.Pairwise fun x y => x.line < y.line
  /-- What a line carries is the identifier of the anchor that leads there. -/
  leading : ∀ x, x ∈ t.associations ↔ ∃ a, t.Leads a ∧ x = ⟨a.line, a.identifier⟩
  /-- Asking also tidies; who asks again gets the same answer. -/
  again : t.tidy.associations = t.associations
  size : t.tidy.size = t.associations.length
  /-- The line has to exist, with code, and must not carry another identifier. -/
  bind_iff : ∀ line identifier, (t.bind line identifier).1 = true ↔
    (∃ l, t.text.line? line = some l ∧ hasNoCode l = false) ∧ ∀ x ∈ t.associations, x.line = line → x.identifier = identifier
  bound : ∀ line identifier, (t.bind line identifier).1 = true →
    ∀ x, x ∈ (t.bind line identifier).2.associations ↔ x ∈ t.associations ∨ x = ⟨line, identifier⟩
  refused : ∀ line identifier, (t.bind line identifier).1 = false → (t.bind line identifier).2.associations = t.associations
  text : ∀ line identifier, (t.bind line identifier).2.text = t.text

variable [FillableBuffer β]

theorem Usable.contract (h : t.Usable) : t.Contract where
  increasing := t.pairwise_associations
  leading x := by
    rw [mem_associations]
    refine exists_congr fun a => and_congr ⟨leads_of_mem_kept h.sound.nodup, mem_kept_of_leads h.sound.nodup⟩ eq_comm
  again := h.associations_tidy
  size := h.size_tidy
  bind_iff line identifier := (h.bind_iff line identifier).trans (and_congr_left fun _ => canCarry_iff)
  bound _ _ hbound _ := h.mem_associations_of_bind hbound
  refused _ _ hrefused := h.associations_of_not_bind hrefused
  text line identifier := text_bind t line identifier

end Tracker

/-- Over a buffer of either kind, a tracker keeps its contract after any calls on it and on its buffer. -/
theorem contract_performAll (text : Text) (file : Option Text) (calls : List TrackerCall) :
    (TrackerCall.performAll { buffer := MemoryBuffer.ofText text, file } calls).Contract ∧
      (TrackerCall.performAll { buffer := ({ content := text } : Widget), file } calls).Contract := by
  constructor
  · have hstart : Tracker.Usable { buffer := MemoryBuffer.ofText text, file } :=
      Tracker.usable_of_buffer (fun _ h => absurd h List.not_mem_nil) rfl file
    exact (hstart.performAll calls).contract
  · have hstart : Tracker.Usable { buffer := ({ content := text } : Widget), file } :=
      Tracker.usable_of_buffer (fun _ h => absurd h List.not_mem_nil) rfl file
    exact (hstart.performAll calls).contract

/-- A line is split, its second half gets an identifier of its own, and the halves come together again at one place. -/
example : (TrackerCall.performAll { buffer := MemoryBuffer.ofText "ab".toList }
    [.bind 1 "X".toList, .edit (.insert 1 1 "\n".toList), .bind 2 "Y".toList, .edit (.delete 1 0 2 0)]).associations =
      [⟨1, "X".toList⟩] := by
  cbv

end LineTags
