import LineTags.Proofs.Script.Growing
import LineTags.Proofs.Session.FreeLines
import LineTags.Proofs.Session.Staging

/-!
# What identifiers add to what is saved

As identifiers accumulate, a session saves more and more: what it saves of a file becomes longer or stays the same, and it stays the same unless a line that takes a tag gets an identifier. So a session that saves the same as one long before it saves the same as each between. And whether activating a file adds something is seen before: an identifier that waits for the file must fit, that is, its line must read as it did, carry nothing and take a tag.
-/

namespace LineTags.Session

open Text Keyed LineBuffer

variable {β : Type} [LineBuffer β] {s s' s₀ : Session β} {file : Text} {w : StagedEdit}

/-- An identifier that waits would show in what is saved if its file were activated. -/
def fits (s : Session β) (file : Text) (w : StagedEdit) : Bool :=
  match s.document? file with
  | none => false
  | some t => line? t.buffer w.edit.line = some w.lineText ∧ t.identifierAt? w.edit.line = none ∧ takesTag w.lineText

theorem fits_iff : s.fits file w = true ↔
    s.Reads file w.edit.line w.lineText ∧ (∀ x ∈ s.idsOf file, x.line ≠ w.edit.line) ∧ takesTag w.lineText := by
  unfold fits Reads idsOf
  cases s.document? file with
  | none => simp
  | some t => simp [Tracker.identifierAt?_eq_none_iff]

/-- A line that takes a tag has an identifier in the second session only. -/
def Gains (s s' : Session β) : Prop :=
  ∃ file, ∃ x ∈ s'.idsOf file, x ∉ s.idsOf file ∧ ∃ l, s.Reads file x.line l ∧ takesTag l

/-! ## What is saved -/

theorem Extends.reads_iff (h : s.Extends s') (file : Text) (line : Int) (l : Text) :
    s'.Reads file line l ↔ s.Reads file line l := by
  have htext := h.text file
  unfold Reads
  cases hdoc : s.document? file with
  | none =>
    rw [hdoc, Option.map_none, Option.map_eq_none_iff] at htext
    rw [htext]
  | some t =>
    rw [hdoc, Option.map_some] at htext
    obtain ⟨t', hdoc', htext⟩ := Option.map_eq_some_iff.1 htext
    have hline : line? t'.buffer line = line? t.buffer line := by
      rw [LineBuffer.line?, show LineBuffer.text t'.buffer = LineBuffer.text t.buffer from htext]
      rfl
    simp [hdoc', hline]

theorem reads_iff_getElem? {t : Tracker β} (hdoc : s.document? file = some t) {i : Nat} {l : Text} :
    s.Reads file ((1 + i : Nat) : Int) l ↔ (lines t.text)[i]? = some l := by
  have hindex : (((1 + i : Nat) : Int)).toNat - 1 = i := by omega
  unfold Reads
  rw [hdoc]
  simp only [Option.some.injEq, exists_eq_left']
  rw [LineBuffer.line?, Text.line?_eq_getElem?, if_neg (by omega), hindex]
  rfl

section

variable (h : s.Extends s')

include h

/-- What both sessions hold of a file that is open. -/
theorem Extends.exists_document? {t' : Tracker β} (hdoc' : s'.document? file = some t') :
    ∃ t, s.document? file = some t ∧ t'.text = t.text ∧ ∀ x ∈ t.associations, x ∈ t'.associations := by
  have htext := h.text file
  rw [hdoc', Option.map_some, eq_comm, Option.map_eq_some_iff] at htext
  obtain ⟨t, hdoc, htext⟩ := htext
  refine ⟨t, hdoc, htext.symm, ?_⟩
  rw [← idsOf_of_document? hdoc, ← idsOf_of_document? hdoc']
  exact h.ids file

theorem Extends.document?_eq_none (hdoc' : s'.document? file = none) : s.document? file = none := by
  have htext := h.text file
  rwa [hdoc', Option.map_none, eq_comm, Option.map_eq_none_iff] at htext

theorem Extends.fullContent_of_closed (hdoc' : s'.document? file = none) : s'.fullContent file = s.fullContent file := by
  rw [fullContent, fullContent, h.document?_eq_none hdoc', hdoc']
  dsimp only
  rw [stored, stored, h.files]

theorem Extends.length_fullContent_le (file : Text) : (s.fullContent file).length ≤ (s'.fullContent file).length := by
  cases hdoc' : s'.document? file with
  | none => rw [h.fullContent_of_closed hdoc']
  | some t' =>
    obtain ⟨t, hdoc, htext, hkept⟩ := h.exists_document? hdoc'
    rw [fullContent, fullContent, hdoc, hdoc']
    dsimp only
    rw [Tracker.fullContent, Tracker.fullContent, htext]
    exact length_reconstruct_le t'.nodup_line_associations hkept

theorem Extends.fullContent_eq_of_length_le (hle : (s'.fullContent file).length ≤ (s.fullContent file).length) :
    s'.fullContent file = s.fullContent file := by
  cases hdoc' : s'.document? file with
  | none => exact h.fullContent_of_closed hdoc'
  | some t' =>
    obtain ⟨t, hdoc, htext, hkept⟩ := h.exists_document? hdoc'
    rw [fullContent, fullContent, hdoc, hdoc'] at hle ⊢
    dsimp only at hle ⊢
    rw [Tracker.fullContent, Tracker.fullContent, htext] at hle ⊢
    exact reconstruct_eq_of_length_le t'.nodup_line_associations hkept hle

theorem Extends.fullContent_eq_iff (file : Text) : s'.fullContent file = s.fullContent file ↔
    ∀ x ∈ s'.idsOf file, x ∉ s.idsOf file → ∀ l, s.Reads file x.line l → ¬takesTag l := by
  cases hdoc' : s'.document? file with
  | none =>
    refine iff_of_true (h.fullContent_of_closed hdoc') fun x _ _ l hreads => ?_
    obtain ⟨t', hdoc, -⟩ := (h.reads_iff file x.line l).2 hreads
    rw [hdoc'] at hdoc
    cases hdoc
  | some t' =>
    obtain ⟨t, hdoc, htext, hkept⟩ := h.exists_document? hdoc'
    rw [idsOf_of_document? hdoc', idsOf_of_document? hdoc, fullContent, fullContent, hdoc, hdoc']
    dsimp only
    rw [Tracker.fullContent, Tracker.fullContent, htext, reconstruct_eq_iff_of_subset t'.nodup_line_associations hkept]
    refine forall_congr' fun x => forall_congr' fun _ => forall_congr' fun _ => ⟨fun hall l hreads => ?_, fun hall i l hline hl => ?_⟩
    · obtain ⟨t₁, hdoc₁, hline⟩ := hreads
      have hone : 1 ≤ x.line := Tracker.one_le_of_line? hline
      have hindex : x.line = ((1 + (x.line.toNat - 1) : Nat) : Int) := by omega
      refine hall (x.line.toNat - 1) l hindex ((reads_iff_getElem? hdoc).1 ?_)
      rw [← hindex]
      exact ⟨t₁, hdoc₁, hline⟩
    · refine hall l ?_
      rw [hline]
      exact (reads_iff_getElem? hdoc).2 hl

theorem Extends.wellNamed (hs : s.WellNamed) : s'.WellNamed :=
  hs.of_names_eq h.names fun _ hname => h.files ▸ hname

theorem Extends.projectFiles_eq_iff_fullContent (hs : s.WellNamed) (hnodup : (Keyed.names s.files).Nodup) :
    s'.projectFiles = s.projectFiles ↔ ∀ file, s'.fullContent file = s.fullContent file := by
  have hs' : s'.WellNamed := h.wellNamed hs
  constructor
  · intro heq file
    by_cases hopen : s'.isOpen file = true
    · have hlookup := congrArg (List.lookup file) heq
      rw [lookup_projectFiles_of_isOpen hs' hopen, lookup_projectFiles_of_isOpen hs (h.isOpen file ▸ hopen)] at hlookup
      exact Option.some.inj hlookup
    · exact h.fullContent_of_closed (Option.not_isSome_iff_eq_none.1 hopen)
  · intro hall
    refine eq_of_lookup_eq ?_ ?_ fun file _ => ?_
    · rw [names_projectFiles hs, names_projectFiles hs', h.files]
    · rw [names_projectFiles hs', h.files]
      exact hnodup
    · have hfull := hall file
      rw [lookup_projectFiles hs, lookup_projectFiles hs', h.files]
      cases hdoc' : s'.document? file with
      | none =>
        have htext := h.text file
        rw [hdoc', Option.map_none, eq_comm, Option.map_eq_none_iff] at htext
        rw [htext]
      | some t' =>
        obtain ⟨t, hdoc, -, -⟩ := h.exists_document? hdoc'
        rw [fullContent, fullContent, hdoc, hdoc'] at hfull
        rw [hdoc, Option.map_some, Option.map_some, show t'.fullContent = t.fullContent from hfull]

/-- The same is saved exactly if nothing is gained. -/
theorem Extends.projectFiles_eq_iff_not_gains (hs : s.WellNamed) (hnodup : (Keyed.names s.files).Nodup) :
    s'.projectFiles = s.projectFiles ↔ ¬Gains s s' := by
  rw [h.projectFiles_eq_iff_fullContent hs hnodup]
  constructor
  · rintro hall ⟨file, x, hx, hnew, l, hreads, htakes⟩
    exact (h.fullContent_eq_iff file).1 (hall file) x hx hnew l hreads htakes
  · intro hnone file
    refine (h.fullContent_eq_iff file).2 fun x hx hnew l hreads htakes => hnone ?_
    exact ⟨file, x, hx, hnew, l, hreads, htakes⟩

/-- What was gained is not lost again. -/
theorem Extends.projectFiles_eq_iff_of_between (h₀ : s₀.Extends s) (hs : s₀.WellNamed) (hnodup : (Keyed.names s₀.files).Nodup) :
    s'.projectFiles = s₀.projectFiles ↔ s.projectFiles = s₀.projectFiles ∧ s'.projectFiles = s.projectFiles := by
  refine ⟨fun heq => ?_, fun ⟨hfirst, hsecond⟩ => hsecond.trans hfirst⟩
  have hall := ((h₀.trans h).projectFiles_eq_iff_fullContent hs hnodup).1 heq
  have hfirst : s.projectFiles = s₀.projectFiles := by
    -- what lies between two texts of one length has this length too
    refine (h₀.projectFiles_eq_iff_fullContent hs hnodup).2 fun file => h₀.fullContent_eq_of_length_le ?_
    exact hall file ▸ h.length_fullContent_le file
  exact ⟨hfirst, heq.trans hfirst.symm⟩

end

/-! ## What activating a file adds -/

variable [AnchoringBuffer β]

omit [AnchoringBuffer β] in
/-- Two sessions that say the same of the file agree on what fits. -/
theorem fits_congr (h : s.Extends s') (hids : ∀ x ∈ s'.idsOf file, x ∈ s.idsOf file) (w : StagedEdit) :
    s'.fits file w = s.fits file w := by
  rw [Bool.eq_iff_iff, fits_iff, fits_iff, h.reads_iff]
  refine and_congr_right fun _ => and_congr_left fun _ => ⟨fun hnone x hx => hnone x (h.ids file x hx), ?_⟩
  exact fun hnone x hx => hnone x (hids x hx)

/-- What comes with the identifiers that waited was in one of them, for a line that read as expected and carried nothing. -/
theorem exists_waiting_of_mem_idsOf (hs : s.Sound) {other : Text} {x : LineId} (hx : x ∈ (s.applyStaged file).idsOf other)
    (hnew : x ∉ s.idsOf other) :
    other = file ∧ ∃ w ∈ s.waiting file, x = ⟨w.edit.line, w.edit.identifier⟩ ∧ s.Reads file w.edit.line w.lineText ∧
      ∀ y ∈ s.idsOf file, y.line ≠ w.edit.line := by
  have hall := applyStaged_induction (P := fun r => r.Sound ∧ s.Extends r ∧ ∀ other, ∀ x ∈ r.idsOf other, x ∉ s.idsOf other →
      other = file ∧ ∃ w ∈ s.waiting file, x = ⟨w.edit.line, w.edit.identifier⟩ ∧
        s.Reads file w.edit.line w.lineText ∧ ∀ y ∈ s.idsOf file, y.line ≠ w.edit.line) file
    ⟨hs.of_documents_eq rfl, .of_eq rfl rfl, fun other x hx hnew => absurd hx hnew⟩ ?_
  · exact hall.2.2 other x hx hnew
  · rintro r w hw ⟨hr, hgrown, hold⟩
    refine ⟨sound_applyEdit hr file w.edit w.lineText, hgrown.trans (extends_applyEdit hr file w.edit w.lineText), ?_⟩
    intro other x hx hnew
    rcases (mem_idsOf_applyEdit hr file w.edit w.lineText other x).1 hx with hx | ⟨hbound, rfl, rfl⟩
    · exact hold other x hx hnew
    · refine ⟨rfl, w, hw, rfl, (hgrown.reads_iff _ _ _).1 (line?_of_applyEdit hbound), fun y hy => ?_⟩
      exact forall_line_ne_of_applyEdit hbound y (hgrown.ids _ y hy)

/-- A line for which an identifier waits, with the text that the line has, is not free afterwards. -/
theorem not_free_applyStaged (hs : s.Sound) (halive : s.alive? file = some true) (hw : w ∈ s.waiting file)
    (hreads : s.Reads file w.edit.line w.lineText) : ¬(s.applyStaged file).Free file w.edit.line := by
  have hfold : ∀ (ws : List StagedEdit) (r : Session β), r.Sound → r.alive? file = some true → w ∈ ws →
      r.Reads file w.edit.line w.lineText →
      ¬(ws.foldl (fun r w => (r.applyEdit file w.edit w.lineText).2) r).Free file w.edit.line := by
    intro ws
    induction ws with
    | nil => exact fun _ _ _ hmem => absurd hmem List.not_mem_nil
    | cons v ws ih =>
      intro r hr halive hmem hreads
      have hsound := sound_applyEdit hr file v.edit v.lineText
      rcases List.mem_cons.1 hmem with rfl | hmem
      · have hkept := List.foldlRecOn (motive := fun r : Session β => r.Sound ∧ ¬r.Free file w.edit.line) ws
          (fun r w => (r.applyEdit file w.edit w.lineText).2) ⟨hsound, not_free_applyEdit hr halive hreads⟩
          fun r hr v _ => ⟨sound_applyEdit hr.1 file v.edit v.lineText,
            fun hfree => hr.2 ((extends_applyEdit hr.1 file v.edit v.lineText).free hfree)⟩
        exact hkept.2
      · exact ih _ hsound ((alive?_applyEdit r file v.edit v.lineText file).trans halive) hmem
          ((steady_applyEdit r file v.edit v.lineText).reads hreads)
  exact hfold (s.waiting file) { s with staged := Keyed.remove file s.staged } (hs.of_documents_eq rfl) halive hw hreads

/-- Activating an open file adds to what is saved exactly if something fits that waits for it. -/
theorem gains_setActive_iff (hs : s.Sound) (hopen : s.isOpen file = true) (halive : s.alive? file = some true) :
    Gains s (s.setActive file).2 ↔ (s.waiting file).any (s.fits file) = true := by
  have hgrown := extends_setActive hs hopen
  rw [List.any_eq_true]
  constructor
  · rintro ⟨other, x, hx, hnew, l, hreads, htakes⟩
    rw [setActive_of_isOpen hopen] at hx
    obtain ⟨rfl, w, hw, rfl, hreads', hunheld⟩ :=
      exists_waiting_of_mem_idsOf (s := { s with active := some file }) (hs.of_documents_eq rfl) hx hnew
    have hsame : w.lineText = l := by
      obtain ⟨t, hdoc, hl⟩ := hreads
      obtain ⟨t', hdoc', hl'⟩ := hreads'
      obtain rfl := Option.some.inj (hdoc.symm.trans hdoc')
      exact Option.some.inj (hl'.symm.trans hl)
    exact ⟨w, hw, fits_iff.2 ⟨hreads', hunheld, hsame ▸ htakes⟩⟩
  · rintro ⟨w, hw, hfits⟩
    obtain ⟨hreads, hunheld, htakes⟩ := fits_iff.1 hfits
    have hbusy : ¬(s.setActive file).2.Free file w.edit.line := by
      rw [setActive_of_isOpen hopen]
      exact not_free_applyStaged (s := { s with active := some file }) (hs.of_documents_eq rfl) halive hw hreads
    obtain ⟨t, hdoc, hline⟩ := (hgrown.reads_iff file w.edit.line w.lineText).2 hreads
    have hcarry : t.canCarry w.edit.line = true := Tracker.canCarry_iff.2 ⟨w.lineText, hline, (takesTag_iff.1 htakes).2⟩
    have hheld : t.identifierAt? w.edit.line ≠ none := fun hnone => hbusy ⟨t, hdoc, hcarry, hnone⟩
    rw [Ne, Tracker.identifierAt?_eq_none_iff, not_forall] at hheld
    obtain ⟨x, hx⟩ := hheld
    rw [Classical.not_imp, not_not] at hx
    refine ⟨file, x, ?_, fun hold => hunheld x hold hx.2, w.lineText, hx.2 ▸ hreads, htakes⟩
    rw [idsOf_of_document? hdoc]
    exact hx.1

end LineTags.Session
