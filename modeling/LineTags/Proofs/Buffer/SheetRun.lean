import LineTags.Proofs.Buffer.Sheet
import LineTags.Proofs.Session.Opening

/-!
# What a tracker says of its sheet

A tracker that follows a sheet says of the lines what the sheet says of its rows, in the same order, because the anchors that have not collapsed start where the rows with identifiers start. Tidying, binding and unbinding keep the two together, and with the edits by whole lines so does every run of such calls.
-/

namespace LineTags

open Text

theorem MemoryBuffer.anchorStart?_eq_some_iff {b : MemoryBuffer} {handle : Nat} {place : Nat × Nat} :
    b.anchorStart? handle = some place ↔
      ∃ r, b.anchors.lookup handle = some r ∧ r.start < r.stop ∧ b.text.position r.start = place := by
  unfold anchorStart?
  cases b.anchors.lookup handle with
  | none => simp
  | some r => simp

/-- The first anchor of a line counts, so every line with a live anchor has one that counts. -/
theorem Tracker.exists_mem_firstOfLines (seen : List Nat) {l : List LiveAnchor} {a : LiveAnchor} (ha : a ∈ l)
    (hseen : a.line ∉ seen) : ∃ a' ∈ firstOfLines seen l, a'.line = a.line := by
  induction l generalizing seen with
  | nil => cases ha
  | cons a' l ih =>
    rw [firstOfLines]
    by_cases hmem : a'.line ∈ seen
    · rw [if_pos hmem]
      rcases List.mem_cons.1 ha with rfl | ha
      · exact absurd hmem hseen
      · exact ih seen ha hseen
    · rw [if_neg hmem]
      by_cases hline : a'.line = a.line
      · exact ⟨a', List.mem_cons_self, hline⟩
      · rcases List.mem_cons.1 ha with rfl | ha
        · exact absurd rfl hline
        · obtain ⟨kept, hkept, heq⟩ := ih (a'.line :: seen) ha (by simp [hseen, Ne.symm hline])
          exact ⟨kept, List.mem_cons_of_mem _ hkept, heq⟩

theorem pairwise_numbered (start : Nat) (parts : List (Text × Option Text)) :
    (Extraction.numbered start parts).Pairwise fun x y => x.line < y.line := by
  induction parts generalizing start with
  | nil => exact .nil
  | cons part parts ih =>
    obtain ⟨text, _ | identifier⟩ := part
    · exact ih (start + 1)
    · refine .cons (fun x hx => ?_) (ih (start + 1))
      obtain ⟨k, -, -, hline, -⟩ := mem_numbered.1 hx
      simp only
      omega

namespace Follows

open Tracker

variable {t : Tracker MemoryBuffer} {sheet : Sheet} {k : Nat}

theorem position_rowStart (h : Follows t sheet) (hk : k < sheet.length) :
    t.buffer.text.position (rowStart sheet.rows k) = (k + 1, 0) := by
  have hlines : lines t.buffer.text = sheet.rows := h.lines_text
  rw [← hlines]
  apply Text.position_rowStart
  rwa [hlines, Sheet.length_rows]

/-- A live anchor shows at the start of a row with its identifier. -/
theorem exists_row_of_mem_live (h : Follows t sheet) {a : LiveAnchor} (ha : a ∈ t.live) :
    ∃ k row, sheet[k]? = some (row, some a.identifier) ∧ a.line = k + 1 ∧
      t.buffer.anchors.lookup a.handle = some (sheet.range k) := by
  obtain ⟨hbound, hstart⟩ := mem_live.1 ha
  obtain ⟨r, hr, hlive, hplace⟩ := MemoryBuffer.anchorStart?_eq_some_iff.1 hstart
  obtain ⟨k, row, hrow, rfl⟩ := h.anchored _ hbound r hr hlive
  obtain ⟨hk, -⟩ := List.getElem?_eq_some_iff.1 hrow
  refine ⟨k, row, hrow, ?_, hr⟩
  rw [show (sheet.range k).start = rowStart sheet.rows k from rfl, h.position_rowStart hk] at hplace
  exact (Prod.mk.inj hplace).1.symm

theorem exists_mem_live (h : Follows t sheet) {row identifier : Text} (hrow : sheet[k]? = some (row, some identifier)) :
    ∃ a ∈ t.live, a.identifier = identifier ∧ a.line = k + 1 := by
  obtain ⟨handle, hbound, hr⟩ := h.carried k row identifier hrow
  obtain ⟨hk, -⟩ := List.getElem?_eq_some_iff.1 hrow
  refine ⟨⟨handle, identifier, k + 1, 0⟩, mem_live.2 ⟨hbound, ?_⟩, rfl, rfl⟩
  exact MemoryBuffer.anchorStart?_eq_some_iff.2 ⟨_, hr, h.range_lt hrow, h.position_rowStart hk⟩

/-- A row with an identifier has an anchor that counts. -/
theorem exists_mem_kept (h : Follows t sheet) {row identifier : Text} (hrow : sheet[k]? = some (row, some identifier)) :
    ∃ a ∈ t.kept, a.identifier = identifier ∧ a.line = k + 1 ∧ t.buffer.anchors.lookup a.handle = some (sheet.range k) := by
  obtain ⟨a, ha, -, hline⟩ := h.exists_mem_live hrow
  obtain ⟨a', ha', hline'⟩ := exists_mem_firstOfLines [] ha List.not_mem_nil
  obtain ⟨k', row', hrow', hk', hr⟩ := h.exists_row_of_mem_live ((kept_sublist t).subset ha')
  obtain rfl : k' = k := by omega
  obtain ⟨-, hid⟩ := Prod.mk.inj (Option.some.inj (hrow'.symm.trans hrow))
  exact ⟨a', ha', Option.some.inj hid, hk', hr⟩

/-- What the tracker says of the lines is what the sheet says. -/
theorem associations_eq (h : Follows t sheet) : t.associations = sheet.ids := by
  apply eq_of_pairwise_line t.pairwise_associations (pairwise_numbered 1 sheet)
  intro x
  rw [mem_associations, show x ∈ Extraction.numbered 1 sheet ↔ x ∈ sheet.ids from Iff.rfl, Sheet.mem_ids]
  constructor
  · intro hx
    obtain ⟨a, ha, rfl⟩ := hx
    obtain ⟨k, row, hrow, hline, -⟩ := h.exists_row_of_mem_live ((kept_sublist t).subset ha)
    exact ⟨k, row, hrow, by simp [hline]⟩
  · intro hx
    obtain ⟨k, row, hrow, hline⟩ := hx
    obtain ⟨a, ha, hid, hk, -⟩ := h.exists_mem_kept hrow
    refine ⟨a, ha, ?_⟩
    rw [hid, hk]
    cases x
    simp at hline ⊢
    omega

theorem identifierAt?_eq (h : Follows t sheet) {row : Text × Option Text} (hrow : sheet[k]? = some row) :
    t.identifierAt? ((k : Int) + 1) = row.2 := by
  have hentry : entryFor? (Extraction.numbered 1 sheet) (1 + k) = row.2.map fun i => ⟨(1 + k : Nat), i⟩ :=
    entryFor?_numbered hrow
  rw [Nat.add_comm] at hentry
  rw [identifierAt?, h.associations_eq]
  show (entryFor? (Extraction.numbered 1 sheet) (k + 1)).map LineId.identifier = row.2
  rw [hentry, Option.map_map]
  simp [Function.comp_def]

/-- The sheet is what the tracker shows. -/
theorem sheet_eq (h : Follows t sheet) : t.sheet = sheet := by
  apply List.ext_getElem?
  intro k
  rw [Tracker.sheet, List.getElem?_mapIdx, h.lines_text, Sheet.rows, List.getElem?_map, Option.map_map]
  cases hrow : sheet[k]? with
  | none => rfl
  | some row => simp [h.identifierAt?_eq hrow]

/-! ### Anchors that are released -/

theorem lookup_releaseAll (t : Tracker MemoryBuffer) (entries : List (Nat × Text)) (handle : Nat) :
    (t.releaseAll entries).buffer.anchors.lookup handle =
      if handle ∈ entries.map Prod.fst then none else t.buffer.anchors.lookup handle := by
  induction entries generalizing t with
  | nil => simp [releaseAll]
  | cons entry entries ih =>
    have hone : (t.release entry.1).buffer.anchors.lookup handle =
        if handle = entry.1 then none else t.buffer.anchors.lookup handle := lookup_filter_ne entry.1 handle _
    have hrest := ih (t.release entry.1)
    rw [hone] at hrest
    rw [releaseAll, List.foldl_cons]
    refine hrest.trans ?_
    by_cases hmem : handle ∈ entries.map Prod.fst
    · simp [hmem]
    · by_cases heq : handle = entry.1 <;> simp [heq, hmem]

/-- Releasing anchors wipes identifiers, if every row that keeps its identifier keeps an anchor and no other row does. -/
theorem releaseAll (h : Follows t sheet) (entries : List (Nat × Text)) (wipes : Text × Option Text → Bool)
    (hkept : ∀ k row identifier, sheet[k]? = some (row, some identifier) → wipes (row, some identifier) = false →
      ∃ handle, (handle, identifier) ∈ t.bound ∧ t.buffer.anchors.lookup handle = some (sheet.range k) ∧
        handle ∉ entries.map Prod.fst)
    (hwiped : ∀ b ∈ t.bound, b.1 ∉ entries.map Prod.fst → ∀ row, wipes (row, some b.2) = false) :
    Follows (t.releaseAll entries) (sheet.map fun row => if wipes row then (row.1, none) else row) := by
  have hrows : Sheet.rows (sheet.map fun row => if wipes row then (row.1, none) else row) = sheet.rows := by
    rw [Sheet.rows, Sheet.rows, List.map_map]
    apply List.map_congr_left
    intro row _
    simp only [Function.comp_apply]
    split <;> rfl
  have hrange : ∀ k, Sheet.range (sheet.map fun row => if wipes row then (row.1, none) else row) k = sheet.range k := by
    intro k
    rw [Sheet.range, Sheet.range, hrows]
  have hrow_iff : ∀ (k : Nat) (row identifier : Text),
      (sheet.map fun row => if wipes row then (row.1, none) else row)[k]? = some (row, some identifier) ↔
        sheet[k]? = some (row, some identifier) ∧ wipes (row, some identifier) = false := by
    intro k row identifier
    rw [List.getElem?_map, Option.map_eq_some_iff]
    constructor
    · intro hold
      obtain ⟨old, hrow, heq⟩ := hold
      by_cases hwipe : wipes old = true
      · rw [if_pos hwipe] at heq
        cases heq
      · rw [if_neg hwipe] at heq
        subst heq
        exact ⟨hrow, by simpa using hwipe⟩
    · intro hold
      exact ⟨_, hold.1, by simp [hold.2]⟩
  refine ⟨sound_releaseAll h.sound entries, by simpa using h.nonempty, fun row hrow => ?_, fun row hrow hid => ?_, ?_,
    fun b hb r hr hlive => ?_, fun k row identifier hrow => ?_⟩
  · obtain ⟨old, hold, rfl⟩ := List.mem_map.1 hrow
    have := h.plain old hold
    split <;> exact this
  · obtain ⟨k, hk⟩ := List.mem_iff_getElem?.1 hrow
    obtain ⟨text, identifier?⟩ := row
    obtain ⟨identifier, rfl⟩ := Option.ne_none_iff_exists'.1 hid
    exact h.filled _ (List.mem_of_getElem? ((hrow_iff k text identifier).1 hk).1) hid
  · rw [text_releaseAll, h.text, Sheet.text, Sheet.text, hrows]
  · rw [lookup_releaseAll] at hr
    rw [bound_releaseAll, List.mem_filter, decide_eq_true_eq] at hb
    rw [if_neg hb.2] at hr
    obtain ⟨k, row, hrow, rfl⟩ := h.anchored b hb.1 r hr hlive
    exact ⟨k, row, (hrow_iff k row b.2).2 ⟨hrow, hwiped b hb.1 hb.2 row⟩, (hrange k).symm⟩
  · obtain ⟨hold, hwipe⟩ := (hrow_iff k row identifier).1 hrow
    obtain ⟨handle, hbound, hr, hfree⟩ := hkept k row identifier hold hwipe
    refine ⟨handle, ?_, ?_⟩
    · rw [bound_releaseAll, List.mem_filter, decide_eq_true_eq]
      exact ⟨hbound, hfree⟩
    · rw [lookup_releaseAll, if_neg hfree, hr, hrange]

theorem tidy (h : Follows t sheet) : Follows t.tidy sheet := by
  have hreleased := h.releaseAll (t.bound.filter (·.1 ∉ t.kept.map LiveAnchor.handle)) (fun _ => false)
    (fun k row identifier hrow _ => ?_) (fun _ _ _ _ => rfl)
  · simp only [Bool.false_eq_true, if_false, List.map_id'] at hreleased
    exact hreleased
  · obtain ⟨a, ha, rfl, -, hr⟩ := h.exists_mem_kept hrow
    refine ⟨a.handle, (mem_live.1 ((kept_sublist t).subset ha)).1, hr, fun hmem => ?_⟩
    obtain ⟨b, hb, heq⟩ := List.mem_map.1 hmem
    have hdropped := of_decide_eq_true (List.mem_filter.1 hb).2
    exact hdropped (heq ▸ List.mem_map_of_mem ha)

theorem unbind (h : Follows t sheet) (identifier : Text) : Follows (t.unbind identifier) (sheet.unbind identifier) := by
  have hreleased := h.releaseAll (t.bound.filter (·.2 = identifier))
    (fun row => row.2 = some identifier) (fun k row other hrow hother => ?_) (fun b hb hfree row => ?_)
  · simp only [decide_eq_true_eq] at hreleased
    exact hreleased
  · obtain ⟨handle, hbound, hr⟩ := h.carried k row other hrow
    refine ⟨handle, hbound, hr, fun hmem => ?_⟩
    obtain ⟨b, hb, rfl⟩ := List.mem_map.1 hmem
    obtain ⟨hb, heq⟩ := List.mem_filter.1 hb
    have hid := identifier_eq_of_mem_bound h.sound.nodup hbound hb
    simp at hother heq
    exact hother (hid.trans heq)
  · have hne : b.2 ≠ identifier := by
      intro heq
      exact hfree (List.mem_map_of_mem (List.mem_filter.2 ⟨hb, by simpa using heq⟩))
    simpa using hne

/-! ### Binding -/

/-- An anchor on a row without identifier fills it in. -/
theorem attach (h : Follows t sheet) {row identifier : Text} {handle : Nat} {b : MemoryBuffer}
    (hrow : sheet[k]? = some (row, none)) (hne : row ≠ [])
    (hcreate : LineBuffer.createAnchor ((k : Int) + 1) t.buffer = .ok (handle, b)) :
    Follows (t.attach handle b identifier) (sheet.set k (row, some identifier)) := by
  obtain ⟨start, hstart, hhandle, hb⟩ := MemoryBuffer.createAnchor_eq_ok hcreate
  obtain ⟨hk, -⟩ := List.getElem?_eq_some_iff.1 hrow
  have hlines : lines t.buffer.text = sheet.rows := h.lines_text
  have hline : t.buffer.text.line? ((k : Int) + 1) = some row := by
    rw [line?_eq_some_iff, hlines, show ((k : Int) + 1).toNat - 1 = k by omega, Sheet.getElem?_rows hrow]
    exact ⟨by omega, rfl⟩
  have hrange : (⟨start, t.buffer.text.lineEnd start⟩ : AnchorRange) = sheet.range k := by
    rw [lineStart?_eq hline, show ((k : Int) + 1).toNat - 1 = k by omega, hlines, Option.some.injEq] at hstart
    have hend := lineEnd_rowStart (t := t.buffer.text) (by rw [hlines]; exact Sheet.getElem?_rows hrow)
    rw [hlines] at hend
    rw [← hstart, hend, Sheet.range, rowStart_succ (Sheet.getElem?_rows hrow)]
    simp
  rw [hrange] at hb
  have hrows : Sheet.rows (sheet.set k (row, some identifier)) = sheet.rows := by
    obtain ⟨hk', hat⟩ := List.getElem?_eq_some_iff.1 (Sheet.getElem?_rows hrow)
    have hself := List.set_getElem_self hk'
    rw [hat] at hself
    rw [Sheet.rows, List.map_set]
    exact hself
  have hrange' : ∀ k', Sheet.range (sheet.set k (row, some identifier)) k' = sheet.range k' := by
    intro k'
    rw [Sheet.range, Sheet.range, hrows]
  have hold : ∀ (k' : Nat) (row' identifier' : Text), sheet[k']? = some (row', some identifier') →
      (sheet.set k (row, some identifier))[k']? = some (row', some identifier') := by
    intro k' row' identifier' hrow'
    have hother : k ≠ k' := by
      intro heq
      subst heq
      simp [hrow] at hrow'
    rw [List.getElem?_set_ne hother, hrow']
  have hnew : (sheet.set k (row, some identifier))[k]? = some (row, some identifier) := by
    simp [hk]
  have hmem : ∀ row' ∈ sheet.set k (row, some identifier), row' ∈ sheet ∨ row' = (row, some identifier) := by
    intro row' hrow'
    exact List.mem_or_eq_of_mem_set hrow'
  have hbelow : ∀ c ∈ t.bound, c.1 ≠ handle := by
    intro c hc
    rw [hhandle]
    exact Nat.ne_of_lt (h.sound.below c hc)
  refine ⟨sound_attach h.sound identifier hcreate, by simpa using h.nonempty, fun row' hrow' => ?_, fun row' hrow' hid => ?_, ?_,
    fun c hc r hr hlive => ?_, fun k' row' identifier' hrow' => ?_⟩
  · obtain hrow' | rfl := hmem row' hrow'
    · exact h.plain row' hrow'
    · exact h.plain (row, none) (List.mem_of_getElem? hrow)
  · obtain hrow' | rfl := hmem row' hrow'
    · exact h.filled row' hrow' hid
    · exact hne
  · rw [Sheet.text, hrows, ← Sheet.text, ← h.text, Tracker.attach, hb]
    rfl
  · rw [Tracker.attach, List.mem_append, List.mem_singleton] at hc
    rw [Tracker.attach, hb] at hr
    simp only at hr
    obtain hc | rfl := hc
    · rw [lookup_append_of_ne (hbelow c hc)] at hr
      obtain ⟨k', row', hrow', rfl⟩ := h.anchored c hc r hr hlive
      exact ⟨k', row', hold k' row' c.2 hrow', (hrange' k').symm⟩
    · rw [hhandle, lookup_append_next h.sound.buffer, Option.some.injEq] at hr
      exact ⟨k, row, hnew, by rw [hrange', hr]⟩
  · by_cases hkk : k' = k
    · subst hkk
      rw [hnew, Option.some.injEq, Prod.mk.injEq, Option.some.injEq] at hrow'
      obtain ⟨-, rfl⟩ := hrow'
      refine ⟨handle, by simp [Tracker.attach], ?_⟩
      rw [Tracker.attach, hb, hrange', hhandle]
      exact lookup_append_next h.sound.buffer _
    · rw [List.getElem?_set_ne (Ne.symm hkk)] at hrow'
      obtain ⟨handle', hbound, hr⟩ := h.carried k' row' identifier' hrow'
      refine ⟨handle', by simp [Tracker.attach, hbound], ?_⟩
      rw [Tracker.attach, hb, hrange']
      exact (lookup_append_of_ne (hbelow _ hbound) _ _).trans hr

theorem bind (h : Follows t sheet) (line : Int) (identifier : Text) :
    Follows (t.bind line identifier).2 (sheet.bind line identifier) := by
  by_cases hcarry : t.canCarry line = true
  · obtain ⟨l, hl, hcode⟩ := exists_line_of_canCarry hcarry
    obtain ⟨hone, hrow⟩ := line?_eq_some_iff.1 hl
    obtain ⟨k, rfl⟩ : ∃ k : Nat, line = (k : Int) + 1 := ⟨line.toNat - 1, by omega⟩
    rw [show ((k : Int) + 1).toNat - 1 = k by omega, show lines (LineBuffer.text t.buffer) = sheet.rows from h.lines_text,
      Sheet.rows, List.getElem?_map, Option.map_eq_some_iff] at hrow
    obtain ⟨⟨l, identifier?⟩, hrow, rfl⟩ := hrow
    have hat := h.identifierAt?_eq hrow
    cases identifier? with
    | some holder =>
      have htidy : (t.bind ((k : Int) + 1) identifier).2 = t.tidy := by
        rw [Tracker.bind, if_pos hcarry, hat]
      rw [htidy, Sheet.bind_of_not_free]
      · exact h.tidy
      · intro k' row hrow' hline
        obtain rfl : k' = k := by omega
        obtain rfl := Option.some.inj (hrow'.symm.trans hrow)
        exact .inr (by simp)
    | none =>
      have htrue := bind_of_free hcarry hat identifier
      obtain hbind | hbind | ⟨hholder, -⟩ | ⟨t', ⟨-, -, handle, buffer, hcreate, rfl⟩, hbind⟩ := bind_cases t ((k : Int) + 1) identifier
      · rw [hbind] at htrue
        cases htrue
      · rw [hbind] at htrue
        cases htrue
      · rw [hat] at hholder
        cases hholder
      · have hne : l ≠ [] := by
          intro hnil
          subst hnil
          exact absurd hcode (by decide)
        rw [hbind, Sheet.bind_of_free hrow hcode]
        exact h.tidy.attach hrow hne hcreate
  · have hself : t.bind line identifier = (false, t) := by
      rw [Tracker.bind, if_neg hcarry]
    rw [hself, Sheet.bind_of_not_free]
    · exact h
    · intro k row hrow hline
      subst hline
      left
      by_contra hcode
      apply hcarry
      refine canCarry_iff.2 ⟨row.1, line?_eq_some_iff.2 ⟨by omega, ?_⟩, by simpa using hcode⟩
      rw [show ((k : Int) + 1).toNat - 1 = k by omega,
        show lines (LineBuffer.text t.buffer) = sheet.rows from h.lines_text, Sheet.getElem?_rows hrow]

theorem bindAll (h : Follows t sheet) (ids : List LineId) : ∃ sheet', Follows (t.bindAll ids) sheet' := by
  induction ids generalizing t sheet with
  | nil => exact ⟨sheet, h⟩
  | cons a ids ih => exact ih (h.bind a.line a.identifier)

/-- A text without anchors is a sheet without identifiers. -/
theorem of_noAnchors {b : MemoryBuffer} (hanchors : b.anchors = []) (file : Option Text) :
    Follows { buffer := b, file } ((lines b.text).map (·, none)) := by
  have hrows : Sheet.rows ((lines b.text).map (·, none)) = lines b.text := by
    simp [Sheet.rows, Function.comp_def]
  refine ⟨sound_of_buffer (fun a ha => ?_) file, by simpa using lines_ne_nil b.text, fun row hrow => ?_,
    fun row hrow hid => ?_, ?_, fun a ha => ?_, fun k row identifier hrow => ?_⟩
  · simp [hanchors] at ha
  · obtain ⟨l, hl, rfl⟩ := List.mem_map.1 hrow
    exact lineFeed_not_mem_of_mem_lines hl
  · obtain ⟨l, hl, rfl⟩ := List.mem_map.1 hrow
    exact absurd rfl hid
  · rw [Sheet.text, hrows, unlines_lines]
    rfl
  · simp at ha
  · rw [List.getElem?_map, Option.map_eq_some_iff] at hrow
    obtain ⟨l, -, heq⟩ := hrow
    cases heq

end Follows

/-! ## Runs -/

/-- What can be done to a document line by line. Asking where the identifiers are is among it, because it tidies. -/
inductive LineEdit
  | insertLines (before : Int) (ls : List Text)
  | deleteLines (first last : Int)
  | bind (line : Int) (identifier : Text)
  | unbind (identifier : Text)
  | ask

namespace LineEdit

def perform (t : Tracker MemoryBuffer) : LineEdit → Except BufferError (Tracker MemoryBuffer)
  | insertLines before ls => t.edit (LineBuffer.insertLines before ls)
  | deleteLines first last => t.edit (LineBuffer.deleteLines first last)
  | bind line identifier => .ok (t.bind line identifier).2
  | unbind identifier => .ok (t.unbind identifier)
  | ask => .ok t.tidy

def performAll (t : Tracker MemoryBuffer) : List LineEdit → Except BufferError (Tracker MemoryBuffer)
  | [] => .ok t
  | edit :: edits => do performAll (← edit.perform t) edits

def onSheet (sheet : Sheet) : LineEdit → Sheet
  | insertLines before ls => sheet.insertLines before ls
  | deleteLines first last => sheet.deleteLines first last
  | bind line identifier => sheet.bind line identifier
  | unbind identifier => sheet.unbind identifier
  | ask => sheet

def allOnSheet (sheet : Sheet) (edits : List LineEdit) : Sheet := edits.foldl onSheet sheet

/-- Lines are inserted where a line can stand, and only what has lines is deleted. -/
def Fits (sheet : Sheet) : LineEdit → Prop
  | insertLines before ls => 1 ≤ before ∧ ls ≠ [] ∧ ∀ l ∈ ls, '\n' ∉ l
  | deleteLines first last => 1 ≤ first ∧ first ≤ last ∧ first ≤ sheet.length
  | bind _ _ | unbind _ | ask => True

def FitsAll (sheet : Sheet) : List LineEdit → Prop
  | [] => True
  | edit :: edits => edit.Fits sheet ∧ FitsAll (edit.onSheet sheet) edits

end LineEdit

namespace Follows

variable {t : Tracker MemoryBuffer} {sheet : Sheet}

theorem perform (h : Follows t sheet) {edit : LineEdit} (hfits : edit.Fits sheet) :
    ∃ t', edit.perform t = .ok t' ∧ Follows t' (edit.onSheet sheet) := by
  cases edit with
  | insertLines before ls =>
    obtain ⟨hbefore, hne, hls⟩ := hfits
    obtain ⟨b, hb, hfollows⟩ := h.insertLines hbefore hne hls
    refine ⟨_, ?_, hfollows⟩
    rw [LineEdit.perform, Tracker.edit, hb]
    rfl
  | deleteLines first last =>
    obtain ⟨hone, hle, hexists⟩ := hfits
    obtain ⟨b, hb, hfollows⟩ := h.deleteLines hone hle hexists
    refine ⟨_, ?_, hfollows⟩
    rw [LineEdit.perform, Tracker.edit, hb]
    rfl
  | bind line identifier => exact ⟨_, rfl, h.bind line identifier⟩
  | unbind identifier => exact ⟨_, rfl, h.unbind identifier⟩
  | ask => exact ⟨_, rfl, h.tidy⟩

theorem performAll (h : Follows t sheet) {edits : List LineEdit} (hfits : LineEdit.FitsAll sheet edits) :
    ∃ t', LineEdit.performAll t edits = .ok t' ∧ Follows t' (LineEdit.allOnSheet sheet edits) := by
  induction edits generalizing t sheet with
  | nil => exact ⟨t, rfl, h⟩
  | cons edit edits ih =>
    obtain ⟨t', hperform, hfollows⟩ := h.perform hfits.1
    obtain ⟨t'', hall, hfollows'⟩ := ih hfollows hfits.2
    refine ⟨t'', ?_, hfollows'⟩
    rw [LineEdit.performAll, hperform]
    exact hall

end Follows

end LineTags
