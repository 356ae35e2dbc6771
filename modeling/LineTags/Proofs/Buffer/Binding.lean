import LineTags.Proofs.Buffer.Tracker

/-!
# Binding identifiers

Binding does one of three things: it refuses and changes nothing, it only tidies, or it tidies and adds one anchor. Everything else about binding, and about filling a tracker from a file, is read off this.
-/

namespace LineTags.Tracker

open LineBuffer LawfulBuffer

variable {β : Type} [LineBuffer β] {t : Tracker β}

/-! ## What binding does -/

/-- The tracker with one more anchor, which the given buffer has. -/
def attach (t : Tracker β) (handle : Nat) (buffer : β) (identifier : Text) : Tracker β :=
  { t with buffer, bound := t.bound ++ [(handle, identifier)] }

/-- A line that can carry an identifier, and carries none, gets an anchor. -/
structure Attached (t : Tracker β) (line : Int) (identifier : Text) (t' : Tracker β) : Prop where
  canCarry : t.canCarry line = true
  free : t.identifierAt? line = none
  created : ∃ handle buffer, createAnchor line t.tidy.buffer = .ok (handle, buffer) ∧
    t' = t.tidy.attach handle buffer identifier

theorem bind_cases (t : Tracker β) (line : Int) (identifier : Text) :
    t.bind line identifier = (false, t) ∨
    (t.bind line identifier = (false, t.tidy)) ∨
    (t.identifierAt? line = some identifier ∧ t.bind line identifier = (true, t.tidy)) ∨
    ∃ t', t.Attached line identifier t' ∧ t.bind line identifier = (true, t') := by
  unfold bind
  by_cases hcarry : t.canCarry line
  · rw [if_pos hcarry]
    cases hholder : t.identifierAt? line with
    | some holder =>
      by_cases heq : holder = identifier
      · subst heq
        exact .inr (.inr (.inl ⟨rfl, by simp only [decide_true]⟩))
      · exact .inr (.inl (by simp only [heq, decide_false]))
    | none =>
      cases hcreate : createAnchor line t.tidy.buffer with
      | error e => exact .inr (.inl rfl)
      | ok r => exact .inr (.inr (.inr ⟨_, ⟨hcarry, hholder, r.1, r.2, hcreate, rfl⟩, rfl⟩))
  · rw [if_neg hcarry]
    exact .inl rfl

theorem exists_line_of_canCarry {line : Int} (h : t.canCarry line = true) :
    ∃ l, line? t.buffer line = some l ∧ hasNoCode l = false := by
  unfold canCarry at h
  cases hl : line? t.buffer line with
  | none => rw [hl] at h; cases h
  | some l =>
    rw [hl] at h
    exact ⟨l, rfl, (Bool.not_eq_true' _).mp h⟩

theorem canCarry_iff {line : Int} : t.canCarry line = true ↔ ∃ l, line? t.buffer line = some l ∧ hasNoCode l = false := by
  refine ⟨exists_line_of_canCarry, fun ⟨l, hl, hcode⟩ => ?_⟩
  rw [canCarry, hl]
  exact (Bool.not_eq_true' _).mpr hcode

theorem canCarry_of_text_eq {t' : Tracker β} (h : t'.text = t.text) (line : Int) : t'.canCarry line = t.canCarry line := by
  rw [canCarry, canCarry, line?, line?, show LineBuffer.text t'.buffer = LineBuffer.text t.buffer from h]

theorem canCarry_of_bind {line : Int} {identifier : Text} (h : (t.bind line identifier).1 = true) : t.canCarry line = true := by
  by_contra hcarry
  rw [bind, if_neg hcarry] at h
  cases h

theorem one_le_of_line? {b : β} {line : Int} {l : Text} (h : line? b line = some l) : 1 ≤ line := by
  rw [line?, Text.line?_eq_getElem?] at h
  split at h
  · cases h
  · omega

/-- The number of anchors with an identifier, whether they count or not. -/
def anchorsOf (t : Tracker β) (identifier : Text) : Nat := t.bound.countP fun b => b.2 = identifier

theorem anchorsOf_tidy_le (t : Tracker β) (identifier : Text) : t.tidy.anchorsOf identifier ≤ t.anchorsOf identifier := by
  rw [anchorsOf, bound_tidy]
  exact List.filter_sublist.countP_le

/-- No identifier shows on more lines than there are anchors with it. -/
theorem countP_associations_le (t : Tracker β) (identifier : Text) :
    (t.associations.countP fun a => a.identifier = identifier) ≤ t.anchorsOf identifier := by
  have hlive : (t.live.countP fun a => a.identifier = identifier) ≤ t.anchorsOf identifier := by
    rw [live, (List.mergeSort_perm _ _).countP_eq, List.countP_filterMap]
    refine List.countP_mono_left fun b _ hb => ?_
    dsimp only at hb
    cases hstart : anchorStart? b.1 t.buffer with
    | none => simp [hstart] at hb
    | some place => simpa [hstart] using hb
  rw [associations, List.countP_map]
  exact Nat.le_trans t.kept_sublist.countP_le hlive

omit [LineBuffer β] in
theorem anchorsOf_attach (t : Tracker β) (handle : Nat) (buffer : β) (identifier other : Text) :
    (t.attach handle buffer identifier).anchorsOf other = t.anchorsOf other + if identifier = other then 1 else 0 := by
  rw [anchorsOf, attach, List.countP_append, List.countP_singleton]
  by_cases h : identifier = other
  · rw [decide_eq_true h, if_pos rfl, if_pos h]
    rfl
  · rw [decide_eq_false h, if_neg Bool.false_ne_true, if_neg h]
    rfl

/-- Binding adds at most one anchor, with the identifier that is bound. -/
theorem anchorsOf_bind_le (t : Tracker β) (line : Int) (identifier other : Text) :
    (t.bind line identifier).2.anchorsOf other ≤ t.anchorsOf other + if identifier = other then 1 else 0 := by
  have htidy : t.tidy.anchorsOf other ≤ t.anchorsOf other := anchorsOf_tidy_le t other
  obtain h | h | ⟨-, h⟩ | ⟨t', ⟨-, -, handle, buffer, -, rfl⟩, h⟩ := bind_cases t line identifier
  · rw [h]
    exact Nat.le_add_right _ _
  · rw [h]
    exact Nat.le_add_right_of_le htidy
  · rw [h]
    exact Nat.le_add_right_of_le htidy
  · rw [h, anchorsOf_attach]
    exact Nat.add_le_add_right htidy _

theorem anchorsOf_bindAll_le (t : Tracker β) (ids : List LineId) (identifier : Text) :
    (t.bindAll ids).anchorsOf identifier ≤ t.anchorsOf identifier + ids.countP fun a => a.identifier = identifier := by
  induction ids generalizing t with
  | nil => exact Nat.le_refl _
  | cons a ids ih =>
    have hfirst := t.anchorsOf_bind_le a.line a.identifier identifier
    have hrest := ih (t.bind a.line a.identifier).2
    rw [List.countP_cons]
    simp only [decide_eq_true_eq]
    show ((t.bind a.line a.identifier).2.bindAll ids).anchorsOf identifier ≤ _
    omega

variable [LawfulBuffer β]

/-! ## What binding keeps -/

theorem sound_attach (ht : t.Sound) {line : Int} {handle : Nat} {buffer : β} (identifier : Text)
    (hcreate : createAnchor line t.buffer = .ok (handle, buffer)) : (t.attach handle buffer identifier).Sound := by
  obtain ⟨hhandle, hnext⟩ := handle_createAnchor hcreate
  refine ⟨sound_createAnchor hcreate ht.buffer, ?_, ?_⟩
  · rw [attach, List.map_append, List.nodup_append]
    refine ⟨ht.nodup, List.nodup_singleton _, fun n hn m hm => ?_⟩
    obtain ⟨b, hb, rfl⟩ := List.mem_map.1 hn
    rw [List.mem_singleton.1 hm, hhandle]
    exact Nat.ne_of_lt (ht.below b hb)
  · intro b hb
    rw [attach, hnext]
    rcases List.mem_append.1 hb with hb | hb
    · rw [hhandle]
      exact Nat.lt_succ_of_lt (ht.below b hb)
    · rw [List.mem_singleton.1 hb]
      exact Nat.lt_succ_self handle

theorem sound_bind (ht : t.Sound) (line : Int) (identifier : Text) : (t.bind line identifier).2.Sound := by
  obtain h | h | ⟨-, h⟩ | ⟨t', ⟨-, -, handle, buffer, hcreate, rfl⟩, h⟩ := bind_cases t line identifier
  · rwa [h]
  · rw [h]
    exact sound_tidy ht
  · rw [h]
    exact sound_tidy ht
  · rw [h]
    exact sound_attach (sound_tidy ht) identifier hcreate

theorem text_bind (t : Tracker β) (line : Int) (identifier : Text) : (t.bind line identifier).2.text = t.text := by
  obtain h | h | ⟨-, h⟩ | ⟨t', ⟨-, -, handle, buffer, hcreate, rfl⟩, h⟩ := bind_cases t line identifier
  · rw [h]
  · rw [h, text_tidy]
  · rw [h, text_tidy]
  · rw [h, ← text_tidy t]
    exact text_createAnchor hcreate

theorem text_bindAll (t : Tracker β) (ids : List LineId) : (t.bindAll ids).text = t.text := by
  induction ids generalizing t with
  | nil => rfl
  | cons a ids ih => exact (ih _).trans (text_bind t a.line a.identifier)

/-! ## What is said afterwards -/

theorem identifierAt?_tidy_eq_none_iff (ht : t.Sound) {line : Int} :
    t.tidy.identifierAt? line = none ↔ t.identifierAt? line = none := by
  rw [identifierAt?_eq_none_iff, identifierAt?_eq_none_iff]
  exact forall_congr' fun x => imp_congr_left (mem_associations_tidy ht)

/-- A new anchor on a line where no live one is shows on this line, and all others show where they did. -/
theorem mem_live_attach (ht : t.Sound) {line : Int} {handle : Nat} {buffer : β} {identifier l : Text}
    (hcreate : createAnchor line t.buffer = .ok (handle, buffer)) (hline : line? t.buffer line = some l) (hl : l ≠ [])
    {a : LiveAnchor} :
    a ∈ (t.attach handle buffer identifier).live ↔ a ∈ t.live ∨ a = ⟨handle, identifier, line.toNat, 0⟩ := by
  have hstart : anchorStart? handle buffer = some (line.toNat, 0) := anchorStart?_createAnchor hcreate ht.buffer hline hl
  have hold : ∀ b ∈ t.bound, b.1 ≠ handle := by
    intro b hb
    rw [(handle_createAnchor hcreate).1]
    exact Nat.ne_of_lt (ht.below b hb)
  rw [mem_live, attach, List.mem_append, List.mem_singleton, or_and_right]
  refine or_congr ?_ ?_
  · rw [mem_live]
    refine and_congr_right fun hbound => ?_
    rw [anchorStart?_createAnchor_of_ne hcreate (hold _ hbound)]
  · obtain ⟨handle', identifier', line', column'⟩ := a
    constructor
    · rintro ⟨heq, hplace⟩
      obtain ⟨rfl, rfl⟩ := Prod.mk.inj heq
      obtain ⟨rfl, rfl⟩ := Prod.mk.inj (Option.some.inj (hplace.symm.trans hstart))
      rfl
    · intro heq
      obtain ⟨rfl, rfl, rfl, rfl⟩ := LiveAnchor.mk.inj heq
      exact ⟨rfl, hstart⟩

theorem mem_associations_of_attached (ht : t.Sound) {line : Int} {identifier : Text} {t' : Tracker β}
    (h : t.Attached line identifier t') {x : LineId} :
    x ∈ t'.associations ↔ x ∈ t.associations ∨ x = ⟨line, identifier⟩ := by
  obtain ⟨hcarry, hfree, handle, buffer, hcreate, rfl⟩ := h
  obtain ⟨l, hline, hcode⟩ := exists_line_of_canCarry hcarry
  have hl : l ≠ [] := by
    rintro rfl
    exact absurd hcode (by decide)
  have hone : 1 ≤ line := one_le_of_line? hline
  have hline' : line? t.tidy.buffer line = some l := by
    rw [line?, show LineBuffer.text t.tidy.buffer = LineBuffer.text t.buffer from text_tidy t]
    exact hline
  have hlive := @mem_live_attach β _ t.tidy _ (sound_tidy ht) line handle buffer identifier l hcreate hline' hl
  have hother : ∀ a ∈ t.tidy.live, a.line ≠ line.toNat := by
    intro a ha heq
    refine identifierAt?_eq_none_iff.1 hfree ⟨a.line, a.identifier⟩ ?_ (by simp only [heq]; omega)
    exact mem_associations.2 ⟨a, (mem_live_tidy ht).1 ha, rfl⟩
  have hnodup : ((t.tidy.attach handle buffer identifier).live.map LiveAnchor.line).Nodup := by
    refine List.Nodup.map_on (fun a ha b hb hab => ?_) (nodup_live (sound_attach (sound_tidy ht) identifier hcreate).nodup)
    rcases hlive.1 ha with ha | rfl <;> rcases hlive.1 hb with hb | rfl
    · exact List.inj_on_of_nodup_map (nodup_line_live_tidy ht) ha hb hab
    · exact absurd hab (hother a ha)
    · exact absurd hab.symm (hother b hb)
    · rfl
  have hkept : ∀ a : LiveAnchor, a ∈ (t.tidy.attach handle buffer identifier).kept ↔
      a ∈ t.kept ∨ a = ⟨handle, identifier, line.toNat, 0⟩ := by
    intro a
    rw [kept_eq_live hnodup, hlive, mem_live_tidy ht]
  rw [mem_associations, mem_associations]
  constructor
  · rintro ⟨a, ha, rfl⟩
    rcases (hkept a).1 ha with ha | rfl
    · exact .inl ⟨a, ha, rfl⟩
    · refine .inr ?_
      show LineId.mk (line.toNat : Int) identifier = _
      rw [Int.toNat_of_nonneg (by omega)]
  · rintro (⟨a, ha, rfl⟩ | rfl)
    · exact ⟨a, (hkept a).2 (.inl ha), rfl⟩
    · refine ⟨_, (hkept _).2 (.inr rfl), ?_⟩
      show LineId.mk (line.toNat : Int) identifier = _
      rw [Int.toNat_of_nonneg (by omega)]

/-- Where a line is free, binding adds what it says it adds. -/
theorem mem_associations_bind (ht : t.Sound) {line : Int} {identifier : Text} (hfree : t.identifierAt? line = none)
    {x : LineId} :
    x ∈ (t.bind line identifier).2.associations ↔
      x ∈ t.associations ∨ ((t.bind line identifier).1 = true ∧ x = ⟨line, identifier⟩) := by
  obtain h | h | ⟨hholder, -⟩ | ⟨t', hattached, h⟩ := bind_cases t line identifier
  · rw [h]
    simp only [Bool.false_eq_true, false_and, or_false]
  · rw [h]
    simp only [Bool.false_eq_true, false_and, or_false]
    exact mem_associations_tidy ht
  · rw [hfree] at hholder
    cases hholder
  · rw [h, mem_associations_of_attached ht hattached]
    simp only [true_and]

/-! ## Other operations -/

theorem sound_of_buffer {b : β} (hb : LawfulBuffer.Sound b) (file : Option Text) : Sound { buffer := b, file } where
  buffer := hb
  nodup := List.nodup_nil
  below := fun _ h => absurd h List.not_mem_nil

theorem sound_withBuffer (ht : t.Sound) {b : β} (hb : LawfulBuffer.Sound b) (hnext : nextHandle b = nextHandle t.buffer) :
    Sound { t with buffer := b } where
  buffer := hb
  nodup := ht.nodup
  below := fun a ha => by
    rw [hnext]
    exact ht.below a ha

theorem sound_bindAll (ht : t.Sound) (ids : List LineId) : (t.bindAll ids).Sound := by
  induction ids generalizing t with
  | nil => exact ht
  | cons a r ih => exact ih (sound_bind ht a.line a.identifier)

theorem sound_load (ht : t.Sound) (file : Option Text) (e : Extraction) : (t.load file e).Sound := by
  have hbuffer : LawfulBuffer.Sound (clearAnchors (setText e.clean t.buffer)) :=
    sound_clearAnchors _ (sound_setText e.clean t.buffer ht.buffer)
  exact sound_bindAll (sound_of_buffer hbuffer file) e.ids

theorem sound_unbind (ht : t.Sound) (identifier : Text) : (t.unbind identifier).Sound := sound_releaseAll ht _

/-- An insertion or a deletion in the buffer. -/
inductive Edited (t : Tracker β) : Tracker β → Prop
  | insert {line column : Int} {x : Text} {t' : Tracker β} :
    t.edit (LineBuffer.insert line column x) = .ok t' → Edited t t'
  | delete {startLine startColumn endLine endColumn : Int} {t' : Tracker β} :
    t.edit (LineBuffer.delete startLine startColumn endLine endColumn) = .ok t' → Edited t t'

omit [LineBuffer β] [LawfulBuffer β] in
theorem edit_eq_ok {change : β → Except BufferError β} {t' : Tracker β} (h : t.edit change = .ok t') :
    ∃ b, change t.buffer = .ok b ∧ t' = { t with buffer := b } := by
  unfold edit at h
  cases hb : change t.buffer with
  | error e => rw [hb] at h; cases h
  | ok b => rw [hb] at h; cases h; exact ⟨b, rfl, rfl⟩

omit [LawfulBuffer β] in
/-- Editing the text leaves the list of anchors alone. -/
theorem Edited.bound_eq {t' : Tracker β} (h : t.Edited t') : t'.bound = t.bound := by
  cases h with
  | insert h =>
    obtain ⟨b, -, rfl⟩ := edit_eq_ok h
    rfl
  | delete h =>
    obtain ⟨b, -, rfl⟩ := edit_eq_ok h
    rfl

theorem Edited.sound {t' : Tracker β} (h : t.Edited t') (ht : t.Sound) : t'.Sound := by
  cases h with
  | insert h =>
    obtain ⟨b, hb, rfl⟩ := edit_eq_ok h
    exact sound_withBuffer ht (sound_insert hb ht.buffer) (nextHandle_insert hb)
  | delete h =>
    obtain ⟨b, hb, rfl⟩ := edit_eq_ok h
    exact sound_withBuffer ht (sound_delete hb ht.buffer) (nextHandle_delete hb)

end LineTags.Tracker
