import LineTags.Session.Basic
import LineTags.Proofs.Buffer.Binding
import LineTags.Proofs.Keyed
import Mathlib.Algebra.Order.BigOperators.Group.List
import Mathlib.Algebra.Order.Group.Nat

/-!
# Sessions and identifiers that arrive

Applying an identifier, keeping one for later and tidying leave the texts of a session, its files and its active file alone; two sessions that agree on all these are called steady. What they change is what the session says about the lines, and for one identifier at most by one entry.
-/

namespace LineTags.Session

open LineBuffer

variable {β : Type} [LineBuffer β] {s s' s'' : Session β}

/-- The second session has the same files, texts and active file. -/
structure Steady (s s' : Session β) : Prop where
  files : s'.files = s.files
  active : s'.active = s.active
  text : ∀ file, (s'.document? file).map Tracker.text = (s.document? file).map Tracker.text

theorem Steady.refl (s : Session β) : Steady s s := ⟨rfl, rfl, fun _ => rfl⟩

theorem Steady.trans (h : Steady s s') (h' : Steady s' s'') : Steady s s'' :=
  ⟨h'.files.trans h.files, h'.active.trans h.active, fun file => (h'.text file).trans (h.text file)⟩

/-- An open file has this text in a line. -/
def Reads (s : Session β) (file : Text) (line : Int) (l : Text) : Prop :=
  ∃ t, s.document? file = some t ∧ line? t.buffer line = some l

theorem Steady.reads (h : Steady s s') {file : Text} {line : Int} {l : Text} (hreads : s.Reads file line l) :
    s'.Reads file line l := by
  obtain ⟨t, hdoc, hline⟩ := hreads
  have htext := h.text file
  rw [hdoc, Option.map_some] at htext
  obtain ⟨t', hdoc', htext'⟩ := Option.map_eq_some_iff.1 htext
  refine ⟨t', hdoc', ?_⟩
  rw [LineBuffer.line?, show LineBuffer.text t'.buffer = LineBuffer.text t.buffer from htext']
  exact hline

theorem Steady.activeDocument? (h : Steady s s') (hactive : s.activeDocument?.isSome = true) :
    s'.activeDocument?.isSome = true := by
  obtain ⟨⟨file, t⟩, hactive⟩ := Option.isSome_iff_exists.1 hactive
  obtain ⟨file', hfile, hdoc⟩ := Option.bind_eq_some_iff.1 hactive
  obtain ⟨t', hdoc, -⟩ := Option.map_eq_some_iff.1 hdoc
  have htext := h.text file'
  rw [hdoc, Option.map_some] at htext
  obtain ⟨t'', hdoc', -⟩ := Option.map_eq_some_iff.1 htext
  simp [Session.activeDocument?, h.active, hfile, hdoc']

theorem Steady.symm (h : Steady s s') : Steady s' s :=
  ⟨h.files.symm, h.active.symm, fun file => (h.text file).symm⟩

theorem Steady.reads_iff (h : Steady s s') (file : Text) (line : Int) (l : Text) :
    s'.Reads file line l ↔ s.Reads file line l :=
  ⟨h.symm.reads, h.reads⟩

omit [LineBuffer β] in
theorem document?_putDocument (s : Session β) (file other : Text) (t : Tracker β) :
    (s.putDocument file t).document? other = if other = file then some t else s.document? other :=
  Keyed.lookup_put file other t s.documents

theorem idsOf_putDocument (s : Session β) (file other : Text) (t : Tracker β) :
    (s.putDocument file t).idsOf other = if other = file then t.associations else s.idsOf other := by
  unfold idsOf
  rw [document?_putDocument]
  by_cases hother : other = file
  · rw [if_pos hother, if_pos hother]
  · rw [if_neg hother, if_neg hother]
    rfl

theorem idsOf_of_document? {file : Text} {t : Tracker β} (h : s.document? file = some t) :
    s.idsOf file = t.associations := by
  rw [idsOf, h]

theorem steady_putDocument {file : Text} {t t' : Tracker β} (hdoc : s.document? file = some t)
    (htext : t'.text = t.text) : Steady s (s.putDocument file t') := by
  refine ⟨rfl, rfl, fun other => ?_⟩
  rw [document?_putDocument]
  by_cases hother : other = file
  · rw [if_pos hother, hother, hdoc, Option.map_some, Option.map_some, htext]
  · rw [if_neg hother]

/-! ## What applying does -/

/-- Applying an identifier leaves the session alone, or tidies the document, or binds the identifier to a line that reads as expected and carries none. -/
theorem applyEdit_cases (s : Session β) (file : Text) (e : IdEdit) (expected : Text) :
    s.applyEdit file e expected = (false, s) ∨
    (∃ t, s.document? file = some t ∧ s.applyEdit file e expected = (false, s.putDocument file t.tidy)) ∨
    ∃ t, s.document? file = some t ∧ line? t.buffer e.line = some expected ∧ t.identifierAt? e.line = none ∧
      s.applyEdit file e expected =
        ((t.tidy.bind e.line e.identifier).1, s.putDocument file (t.tidy.bind e.line e.identifier).2) := by
  unfold applyEdit
  cases hdoc : s.document? file with
  | none => exact .inl rfl
  | some t =>
    dsimp only
    by_cases hline : line? t.buffer e.line = some expected
    · rw [if_neg (not_not_intro hline)]
      cases hholder : t.identifierAt? e.line with
      | some holder => exact .inr (.inl ⟨t, rfl, rfl⟩)
      | none => exact .inr (.inr ⟨t, rfl, hline, hholder, rfl⟩)
    · rw [if_pos hline]
      exact .inl rfl

omit [LineBuffer β] in
theorem stage_cases (s : Session β) (e : IdEdit) (lineText : Text) :
    s.stage e lineText = (false, s) ∨
    ∃ file, e.file = some file ∧ s.stage e lineText =
      (true, { s with staged := Keyed.put file ((s.staged.lookup file).getD [] ++ [⟨e, lineText⟩]) s.staged }) := by
  unfold stage
  cases hfile : e.file with
  | none => exact .inl rfl
  | some file =>
    dsimp only
    split
    · exact .inl rfl
    · exact .inr ⟨file, rfl, rfl⟩

theorem steady_stage (s : Session β) (e : IdEdit) (lineText : Text) : Steady s (s.stage e lineText).2 := by
  obtain h | ⟨file, -, h⟩ := stage_cases s e lineText
  · rw [h]
    exact Steady.refl s
  · rw [h]
    exact ⟨rfl, rfl, fun _ => rfl⟩

theorem staged_applyEdit (s : Session β) (file : Text) (e : IdEdit) (expected : Text) :
    (s.applyEdit file e expected).2.staged = s.staged := by
  obtain h | ⟨t, -, h⟩ | ⟨t, -, -, -, h⟩ := applyEdit_cases s file e expected
  · rw [h]
  · rw [h]
    rfl
  · rw [h]
    rfl

omit [LineBuffer β] in
theorem documents_stage (s : Session β) (e : IdEdit) (lineText : Text) :
    (s.stage e lineText).2.documents = s.documents := by
  obtain h | ⟨file, -, h⟩ := stage_cases s e lineText
  · rw [h]
  · rw [h]

/-- What holds without the entries that wait for a file, and goes on to hold when one of them is applied, holds when all are. -/
theorem applyStaged_induction {P : Session β → Prop} (file : Text)
    (htaken : P { s with staged := Keyed.remove file s.staged })
    (happly : ∀ r, ∀ w ∈ (s.staged.lookup file).getD [], P r → P (r.applyEdit file w.edit w.lineText).2) :
    P (s.applyStaged file) :=
  List.foldlRecOn _ _ htaken fun r hr w hw => happly r w hw hr

theorem idsOf_stage (s : Session β) (e : IdEdit) (lineText file : Text) :
    (s.stage e lineText).2.idsOf file = s.idsOf file := by
  obtain h | ⟨other, -, h⟩ := stage_cases s e lineText
  · rw [h]
  · rw [h]
    rfl

/-! ## How often an identifier is in use -/

/-- The number of anchors with an identifier, in all documents. -/
def anchorsOf (s : Session β) (identifier : Text) : Nat := (s.documents.map fun d => d.2.anchorsOf identifier).sum

omit [LineBuffer β] in
/-- Where each file is open once, the anchors can be counted file by file. -/
theorem anchorsOf_eq (hnodup : (Keyed.names s.documents).Nodup) (identifier : Text) :
    s.anchorsOf identifier =
      ((Keyed.names s.documents).map fun file => ((s.document? file).map fun t => t.anchorsOf identifier).getD 0).sum := by
  rw [anchorsOf, Keyed.names, List.map_map]
  refine congrArg List.sum (List.map_congr_left fun d hd => ?_)
  have hdoc : s.document? d.1 = some d.2 := Keyed.lookup_of_mem hnodup hd
  rw [Function.comp_apply, hdoc, Option.map_some, Option.getD_some]

/-- The number of waiting entries with an identifier. -/
def entriesOf (identifier : Text) (waiting : List StagedEdit) : Nat := waiting.countP fun w => w.edit.identifier = identifier

/-- The number of entries that wait with an identifier, for all files. -/
def waitingFor (s : Session β) (identifier : Text) : Nat := (s.staged.map fun w => entriesOf identifier w.2).sum

theorem entriesOf_append_singleton (identifier : Text) (waiting : List StagedEdit) (e : IdEdit) (lineText : Text) :
    entriesOf identifier (waiting ++ [⟨e, lineText⟩]) =
      entriesOf identifier waiting + if e.identifier = identifier then 1 else 0 := by
  rw [entriesOf, List.countP_append, List.countP_singleton]
  simp only [decide_eq_true_eq]
  rfl

theorem entriesOf_getD (identifier : Text) (waiting? : Option (List StagedEdit)) :
    entriesOf identifier (waiting?.getD []) = (waiting?.map (entriesOf identifier)).getD 0 := by
  cases waiting? with
  | none => rfl
  | some waiting => rfl

omit [LineBuffer β] in
theorem anchorsOf_putDocument {file : Text} {t : Tracker β} (hdoc : s.document? file = some t) (t' : Tracker β)
    (identifier : Text) :
    (s.putDocument file t').anchorsOf identifier + t.anchorsOf identifier =
      s.anchorsOf identifier + t'.anchorsOf identifier := by
  have hsum := Keyed.sum_put (fun t : Tracker β => t.anchorsOf identifier) file t' s.documents
  rw [show s.documents.lookup file = some t from hdoc] at hsum
  exact hsum

omit [LineBuffer β] in
theorem anchorsOf_putDocument_le {file : Text} {t t' : Tracker β} (hdoc : s.document? file = some t) {identifier : Text}
    {n : Nat} (hle : t'.anchorsOf identifier ≤ t.anchorsOf identifier + n) :
    (s.putDocument file t').anchorsOf identifier ≤ s.anchorsOf identifier + n := by
  have hsum := anchorsOf_putDocument hdoc t' identifier
  omega

theorem anchorsOf_applyEdit_le (s : Session β) (file : Text) (e : IdEdit) (expected identifier : Text) :
    (s.applyEdit file e expected).2.anchorsOf identifier ≤
      s.anchorsOf identifier + if e.identifier = identifier then 1 else 0 := by
  obtain h | ⟨t, hdoc, h⟩ | ⟨t, hdoc, -, -, h⟩ := applyEdit_cases s file e expected
  · rw [h]
    exact Nat.le_add_right _ _
  · rw [h]
    exact anchorsOf_putDocument_le hdoc (Nat.le_add_right_of_le (t.anchorsOf_tidy_le identifier))
  · rw [h]
    refine anchorsOf_putDocument_le hdoc ?_
    exact Nat.le_trans (t.tidy.anchorsOf_bind_le e.line e.identifier identifier)
      (Nat.add_le_add_right (t.anchorsOf_tidy_le identifier) _)

omit [LineBuffer β] in
theorem waitingFor_stage_le (s : Session β) (e : IdEdit) (lineText identifier : Text) :
    (s.stage e lineText).2.waitingFor identifier ≤
      s.waitingFor identifier + if e.identifier = identifier then 1 else 0 := by
  obtain h | ⟨file, -, h⟩ := stage_cases s e lineText
  · rw [h]
    exact Nat.le_add_right _ _
  · rw [h]
    have hsum := Keyed.sum_put (entriesOf identifier) file ((s.staged.lookup file).getD [] ++ [⟨e, lineText⟩]) s.staged
    rw [entriesOf_append_singleton, entriesOf_getD] at hsum
    simp only [waitingFor]
    omega

/-- What waits for a file moves to its lines: nothing is in use more often than before. -/
theorem carriers_applyStaged_le (s : Session β) (file identifier : Text) :
    (s.applyStaged file).anchorsOf identifier + (s.applyStaged file).waitingFor identifier ≤
      s.anchorsOf identifier + s.waitingFor identifier := by
  have hfold : ∀ (waiting : List StagedEdit) (r : Session β),
      (waiting.foldl (fun r w => (r.applyEdit file w.edit w.lineText).2) r).anchorsOf identifier ≤
        r.anchorsOf identifier + entriesOf identifier waiting ∧
      (waiting.foldl (fun r w => (r.applyEdit file w.edit w.lineText).2) r).staged = r.staged := by
    intro waiting
    induction waiting with
    | nil => exact fun r => ⟨Nat.le_refl _, rfl⟩
    | cons w waiting ih =>
      intro r
      obtain ⟨hle, hstaged⟩ := ih (r.applyEdit file w.edit w.lineText).2
      have hstep := anchorsOf_applyEdit_le r file w.edit w.lineText identifier
      have hcount : entriesOf identifier (w :: waiting) =
          entriesOf identifier waiting + if w.edit.identifier = identifier then 1 else 0 := by
        rw [entriesOf, List.countP_cons]
        simp only [decide_eq_true_eq]
        rfl
      rw [List.foldl_cons]
      refine ⟨?_, hstaged.trans (staged_applyEdit r file w.edit w.lineText)⟩
      omega
  obtain ⟨hanchors, hstaged⟩ := hfold ((s.staged.lookup file).getD []) { s with staged := Keyed.remove file s.staged }
  have hremove := Keyed.sum_remove_le (entriesOf identifier) file s.staged
  rw [entriesOf_getD] at hanchors
  have hwaiting : (s.applyStaged file).waitingFor identifier =
      ((Keyed.remove file s.staged).map fun w => entriesOf identifier w.2).sum := by
    rw [waitingFor, applyStaged, hstaged]
  have hsame : ({ s with staged := Keyed.remove file s.staged } : Session β).anchorsOf identifier =
      s.anchorsOf identifier := rfl
  rw [hwaiting, applyStaged]
  rw [waitingFor]
  omega

theorem anchorsOf_tidy_le (s : Session β) (identifier : Text) : s.tidy.anchorsOf identifier ≤ s.anchorsOf identifier := by
  rw [anchorsOf, tidy, List.map_map]
  exact List.sum_le_sum fun d _ => d.2.anchorsOf_tidy_le identifier

variable [LawfulBuffer β]

/-! ## Soundness -/

/-- The trackers of all documents are sound. -/
def Sound (s : Session β) : Prop := ∀ d ∈ s.documents, d.2.Sound

theorem Sound.of_document? (hs : s.Sound) {file : Text} {t : Tracker β} (hdoc : s.document? file = some t) : t.Sound :=
  hs (file, t) (Keyed.mem_of_lookup hdoc)

theorem Sound.of_documents_eq (hs : s.Sound) (h : s'.documents = s.documents) : s'.Sound := by
  rw [Sound, h]
  exact hs

theorem sound_putDocument (hs : s.Sound) (file : Text) {t : Tracker β} (ht : t.Sound) : (s.putDocument file t).Sound :=
  Keyed.forall_put ht hs

theorem sound_tidy (hs : s.Sound) : s.tidy.Sound := by
  intro d hd
  obtain ⟨d', hd', rfl⟩ := List.mem_map.1 hd
  exact Tracker.sound_tidy (hs d' hd')

theorem sound_applyEdit (hs : s.Sound) (file : Text) (e : IdEdit) (expected : Text) :
    (s.applyEdit file e expected).2.Sound := by
  obtain h | ⟨t, hdoc, h⟩ | ⟨t, hdoc, -, -, h⟩ := applyEdit_cases s file e expected
  · rwa [h]
  · rw [h]
    exact sound_putDocument hs file (Tracker.sound_tidy (hs.of_document? hdoc))
  · rw [h]
    exact sound_putDocument hs file (Tracker.sound_bind (Tracker.sound_tidy (hs.of_document? hdoc)) _ _)

theorem sound_stage (hs : s.Sound) (e : IdEdit) (lineText : Text) : (s.stage e lineText).2.Sound :=
  hs.of_documents_eq (documents_stage s e lineText)

theorem sound_applyStaged (hs : s.Sound) (file : Text) : (s.applyStaged file).Sound :=
  applyStaged_induction file (hs.of_documents_eq rfl) fun _ w _ hr => sound_applyEdit hr file w.edit w.lineText

/-! ## What the session says afterwards -/

theorem steady_applyEdit (s : Session β) (file : Text) (e : IdEdit) (expected : Text) :
    Steady s (s.applyEdit file e expected).2 := by
  obtain h | ⟨t, hdoc, h⟩ | ⟨t, hdoc, -, -, h⟩ := applyEdit_cases s file e expected
  · rw [h]
    exact Steady.refl s
  · rw [h]
    exact steady_putDocument hdoc t.text_tidy
  · rw [h]
    exact steady_putDocument hdoc ((t.tidy.text_bind e.line e.identifier).trans t.text_tidy)

omit [LawfulBuffer β] in
/-- An identifier is applied only to a line that reads as expected. -/
theorem line?_of_applyEdit {file : Text} {e : IdEdit} {expected : Text}
    (h : (s.applyEdit file e expected).1 = true) :
    s.Reads file e.line expected := by
  obtain h' | ⟨t, hdoc, h'⟩ | ⟨t, hdoc, hline, -, -⟩ := applyEdit_cases s file e expected
  · rw [h'] at h
    cases h
  · rw [h'] at h
    cases h
  · exact ⟨t, hdoc, hline⟩

/-- What was said before is said afterwards; the only new answer is the identifier that was applied. -/
theorem mem_idsOf_applyEdit (hs : s.Sound) (file : Text) (e : IdEdit) (expected other : Text) (x : LineId) :
    x ∈ (s.applyEdit file e expected).2.idsOf other ↔
      x ∈ s.idsOf other ∨
        ((s.applyEdit file e expected).1 = true ∧ other = file ∧ x = ⟨e.line, e.identifier⟩) := by
  obtain h | ⟨t, hdoc, h⟩ | ⟨t, hdoc, hline, hfree, h⟩ := applyEdit_cases s file e expected
  · rw [h]
    simp only [Bool.false_eq_true, false_and, or_false]
  · rw [h, idsOf_putDocument]
    simp only [Bool.false_eq_true, false_and, or_false]
    by_cases hother : other = file
    · rw [if_pos hother, hother, idsOf_of_document? hdoc]
      exact Tracker.mem_associations_tidy (hs.of_document? hdoc)
    · rw [if_neg hother]
  · have ht : t.Sound := hs.of_document? hdoc
    have hfree' : t.tidy.identifierAt? e.line = none := (Tracker.identifierAt?_tidy_eq_none_iff ht).2 hfree
    rw [h, idsOf_putDocument]
    by_cases hother : other = file
    · rw [if_pos hother, hother, idsOf_of_document? hdoc,
        Tracker.mem_associations_bind (Tracker.sound_tidy ht) hfree', Tracker.mem_associations_tidy ht]
      simp only [true_and]
    · rw [if_neg hother]
      simp only [hother, false_and, and_false, or_false]

omit [LawfulBuffer β] in
theorem document?_tidy (s : Session β) (file : Text) : s.tidy.document? file = (s.document? file).map Tracker.tidy :=
  Keyed.lookup_map Tracker.tidy file s.documents

omit [LawfulBuffer β] in
theorem document?_tidyFile (s : Session β) (file other : Text) : (s.tidyFile file).document? other =
    if other = file then (s.document? other).map Tracker.tidy else s.document? other :=
  Keyed.lookup_update file other Tracker.tidy s.documents

theorem steady_tidy (s : Session β) : Steady s s.tidy := by
  refine ⟨rfl, rfl, fun file => ?_⟩
  rw [document?_tidy, Option.map_map]
  exact congrArg (fun f => (s.document? file).map f) (funext fun t => t.text_tidy)

theorem mem_idsOf_tidy (hs : s.Sound) (file : Text) (x : LineId) : x ∈ s.tidy.idsOf file ↔ x ∈ s.idsOf file := by
  rw [idsOf, document?_tidy, idsOf]
  cases hdoc : s.document? file with
  | none => exact Iff.rfl
  | some t => exact Tracker.mem_associations_tidy (hs.of_document? hdoc)

end LineTags.Session
