import LineTags.Proofs.Session.Reachable
import LineTags.Proofs.Script.Survival

/-!
# Openings that are refused

A session that can occur has each open file once, and every open file is one of its files. So what it would save is, file by file, what its documents hold and for the other files what is stored. When strict checking refuses a content, the session has changed nonetheless: a file that was not open is open afterwards and would be saved as the text of its buffer, a fresh one being empty, and a file that was open and was given another buffer would be saved as the text of that one and has lost its identifiers. Only a file that was open already and keeps its buffer comes out as it went in.
-/

namespace LineTags.Session

open Keyed

variable {β : Type} [LineBuffer β] {s s' : Session β}

/-! ## The names of open files -/

/-- Each open file is open once, and is a file of the session. -/
structure WellNamed (s : Session β) : Prop where
  nodup : (names s.documents).Nodup
  known : ∀ file ∈ names s.documents, file ∈ names s.files

omit [LineBuffer β] in
theorem WellNamed.of_names_eq (hs : s.WellNamed) (hdocuments : names s'.documents = names s.documents)
    (hfiles : ∀ file ∈ names s.files, file ∈ names s'.files) : s'.WellNamed where
  nodup := hdocuments ▸ hs.nodup
  known := fun file hfile => hfiles file (hs.known file (hdocuments ▸ hfile))

omit [LineBuffer β] in
theorem mem_names_of_document? {file : Text} {t : Tracker β} (hdoc : s.document? file = some t) : file ∈ names s.documents :=
  lookup_isSome_iff.1 (Option.isSome_of_eq_some hdoc)

omit [LineBuffer β] in
theorem names_putDocument {file : Text} {t : Tracker β} (hdoc : s.document? file = some t) (t' : Tracker β) :
    names (s.putDocument file t').documents = names s.documents :=
  names_put_of_mem (mem_names_of_document? hdoc)

omit [LineBuffer β] in
theorem WellNamed.putDocument (hs : s.WellNamed) {file : Text} {t : Tracker β} (hdoc : s.document? file = some t)
    (t' : Tracker β) : (s.putDocument file t').WellNamed :=
  hs.of_names_eq (names_putDocument hdoc t') fun _ h => h

theorem names_applyEdit (s : Session β) (file : Text) (e : IdEdit) (expected : Text) :
    names (s.applyEdit file e expected).2.documents = names s.documents := by
  obtain h | ⟨t, hdoc, h⟩ | ⟨t, hdoc, -, -, h⟩ := applyEdit_cases s file e expected
  · rw [h]
  · rw [h]
    exact names_putDocument hdoc _
  · rw [h]
    exact names_putDocument hdoc _

theorem files_applyEdit (s : Session β) (file : Text) (e : IdEdit) (expected : Text) :
    (s.applyEdit file e expected).2.files = s.files := by
  obtain h | ⟨t, hdoc, h⟩ | ⟨t, hdoc, -, -, h⟩ := applyEdit_cases s file e expected
  all_goals
    rw [h]
    try rfl

theorem WellNamed.applyEdit (hs : s.WellNamed) (file : Text) (e : IdEdit) (expected : Text) :
    (s.applyEdit file e expected).2.WellNamed :=
  hs.of_names_eq (names_applyEdit s file e expected) fun _ h => by rwa [files_applyEdit]

theorem WellNamed.applyStaged (hs : s.WellNamed) (file : Text) : (s.applyStaged file).WellNamed :=
  applyStaged_induction file (hs.of_names_eq rfl fun _ h => h) fun _ w _ hr => hr.applyEdit file w.edit w.lineText

omit [LineBuffer β] in
/-- Putting a document for a file and a content for it leaves no file open that has none. -/
theorem WellNamed.put (hs : s.WellNamed) (file : Text) (t : Tracker β) (content : Text) :
    WellNamed { s.putDocument file t with files := Keyed.put file content s.files } where
  nodup := nodup_names_put hs.nodup
  known := fun other hother => by
    rw [mem_names_put]
    exact (mem_names_put.1 hother).imp id (hs.known other)

theorem WellNamed.openDocument (hs : s.WellNamed) (file : Text) (content? : Option Text) (buffer? : Option β) :
    (s.openDocument file content? buffer?).2.WellNamed := by
  have hput := hs.put file (s.trackerFor file buffer?) (content?.getD (s.stored file))
  unfold Session.openDocument
  dsimp only
  split
  · exact hput
  · next extraction _ =>
    refine WellNamed.applyStaged ?_ file
    have hagain := hput.put file ((s.trackerFor file buffer?).load file extraction) (content?.getD (s.stored file))
    exact hagain.of_names_eq rfl fun other hother => by
      rw [mem_names_put] at hother
      exact hother.elim (fun h => h ▸ mem_names_put.2 (.inl rfl)) id

theorem WellNamed.closeDocument (hs : s.WellNamed) (file : Text) : (s.closeDocument file).WellNamed := by
  unfold Session.closeDocument
  split
  · exact hs
  · refine ⟨?_, fun other hother => ?_⟩
    · dsimp only
      rw [names_remove]
      exact hs.nodup.filter _
    · dsimp only at hother ⊢
      rw [names_remove] at hother
      exact mem_names_put.2 (.inr (hs.known other (List.mem_filter.1 hother).1))

theorem WellNamed.setActive (hs : s.WellNamed) (file : Text) : (s.setActive file).2.WellNamed := by
  have hopened := hs.openDocument file none none
  unfold Session.setActive
  by_cases h : s.isOpen file = true
  · rw [if_pos h]
    apply WellNamed.applyStaged
    exact hs.of_names_eq rfl fun _ h => h
  · rw [if_neg h]
    split
    · next e r heq =>
      rw [heq] at hopened
      exact hopened
    · next r heq =>
      rw [heq] at hopened
      apply WellNamed.applyStaged
      exact hopened.of_names_eq rfl fun _ h => h

theorem names_tidy (s : Session β) : names s.tidy.documents = names s.documents := by
  rw [names, tidy, List.map_map]
  rfl

theorem names_tidyFile (s : Session β) (file : Text) : names (s.tidyFile file).documents = names s.documents := by
  rw [names, tidyFile, Keyed.update, List.map_map]
  rfl

theorem Reachable.wellNamed [LawfulBuffer β] (h : Reachable s) : s.WellNamed := by
  induction h with
  | ofFiles files mode => exact ⟨List.nodup_nil, fun _ h => absurd h List.not_mem_nil⟩
  | openDocument file content? buffer? _ _ ih => exact ih.openDocument file content? buffer?
  | closeDocument file _ ih => exact ih.closeDocument file
  | setActive file _ ih => exact ih.setActive file
  | clear _ _ => exact ⟨List.nodup_nil, fun _ h => absurd h List.not_mem_nil⟩
  | tidy _ ih => exact ih.of_names_eq (names_tidy _) fun _ h => h
  | tidyFile file _ ih => exact ih.of_names_eq (names_tidyFile _ file) fun _ h => h
  | edited _ hdoc _ ih => exact ih.putDocument hdoc _
  | bind line identifier _ hdoc ih => exact ih.putDocument hdoc _
  | unbind identifier _ hdoc ih => exact ih.putDocument hdoc _
  | applyEdit file e expected _ ih => exact ih.applyEdit file e expected
  | stage e lineText _ ih =>
    refine ih.of_names_eq (congrArg names (documents_stage _ e lineText)) fun _ h => ?_
    rwa [(steady_stage _ e lineText).files]

/-! ## What is saved and which identifiers are in use -/

/-- What is saved under a name is what its document holds, or else what is stored. -/
theorem lookup_projectFiles (hs : s.WellNamed) (file : Text) :
    s.projectFiles.lookup file = ((s.document? file).map Tracker.fullContent).or (s.files.lookup file) :=
  lookup_foldl_put Tracker.fullContent hs.nodup s.files file

theorem lookup_projectFiles_of_isOpen (hs : s.WellNamed) {file : Text} (hopen : s.isOpen file = true) :
    s.projectFiles.lookup file = some (s.fullContent file) := by
  obtain ⟨t, hdoc⟩ := Option.isSome_iff_exists.1 hopen
  rw [lookup_projectFiles hs, fullContent, hdoc]
  rfl

theorem names_projectFiles (hs : s.WellNamed) : names s.projectFiles = names s.files := by
  have hfold : ∀ (documents : List (Text × Tracker β)) (files : List (Text × Text)),
      (∀ file ∈ names documents, file ∈ names files) →
      names (documents.foldl (fun files d => Keyed.put d.1 d.2.fullContent files) files) = names files := by
    intro documents
    induction documents with
    | nil => exact fun _ _ => rfl
    | cons d documents ih =>
      intro files hknown
      have hput : names (Keyed.put d.1 d.2.fullContent files) = names files :=
        names_put_of_mem (hknown d.1 List.mem_cons_self)
      refine (ih _ fun file hfile => ?_).trans hput
      rw [hput]
      exact hknown file (List.mem_cons_of_mem _ hfile)
  exact hfold s.documents s.files hs.known

/-- An identifier is in use on the lines of other files than the given one, or waits. -/
def InUseBeside (s : Session β) (file identifier : Text) : Prop :=
  (∃ f ∈ s.files, s.isOpen f.1 = false ∧ f.1 ≠ file ∧ identifier ∈ idsIn f.2) ∨
    (∃ d ∈ s.documents, d.1 ≠ file ∧ identifier ∈ d.2.identifiers) ∨
    ∃ w ∈ s.staged, ∃ e ∈ w.2, e.edit.identifier = identifier

theorem mem_existingIds {identifier : Text} :
    identifier ∈ s.existingIds ↔
      (∃ f ∈ s.files, s.isOpen f.1 = false ∧ identifier ∈ idsIn f.2) ∨
        (∃ d ∈ s.documents, identifier ∈ d.2.identifiers) ∨
        ∃ w ∈ s.staged, ∃ e ∈ w.2, e.edit.identifier = identifier := by
  simp only [existingIds, List.mem_append, List.mem_flatMap, List.mem_filter, List.mem_map, Bool.not_eq_true', or_assoc,
    and_assoc]

omit [LineBuffer β] in
theorem isOpen_of_document? {file : Text} {t : Tracker β} (hdoc : s.document? file = some t) : s.isOpen file = true :=
  Option.isSome_of_eq_some hdoc

theorem mem_existingIds_iff (hs : s.WellNamed) {file : Text} {t : Tracker β} (hdoc : s.document? file = some t)
    {identifier : Text} : identifier ∈ s.existingIds ↔ identifier ∈ t.identifiers ∨ s.InUseBeside file identifier := by
  have hfile : ∀ f : Text × Text, s.isOpen f.1 = false → f.1 ≠ file := by
    rintro f hclosed rfl
    rw [isOpen_of_document? hdoc] at hclosed
    cases hclosed
  have hfiles : (∃ f ∈ s.files, s.isOpen f.1 = false ∧ identifier ∈ idsIn f.2) ↔
      ∃ f ∈ s.files, s.isOpen f.1 = false ∧ f.1 ≠ file ∧ identifier ∈ idsIn f.2 :=
    exists_congr fun f => and_congr_right fun _ => and_congr_right fun hclosed => (and_iff_right (hfile f hclosed)).symm
  have hdocuments : (∃ d ∈ s.documents, identifier ∈ d.2.identifiers) ↔
      identifier ∈ t.identifiers ∨ ∃ d ∈ s.documents, d.1 ≠ file ∧ identifier ∈ d.2.identifiers := by
    constructor
    · rintro ⟨d, hd, hid⟩
      by_cases hname : d.1 = file
      · have hlookup : s.document? file = some d.2 := lookup_of_mem hs.nodup (hname ▸ hd)
        rw [Option.some.inj (hdoc.symm.trans hlookup)]
        exact .inl hid
      · exact .inr ⟨d, hd, hname, hid⟩
    · rintro (hid | ⟨d, hd, -, hid⟩)
      · exact ⟨(file, t), mem_of_lookup hdoc, hid⟩
      · exact ⟨d, hd, hid⟩
  rw [mem_existingIds, hfiles, hdocuments, InUseBeside, or_assoc, or_left_comm]

/-! ## What a refused opening changes -/

/-- All that a session shows is the same in both: what is saved, the content of every file, the identifiers in use, the open files, the active one, and what waits. -/
structure SameView (s s' : Session β) : Prop where
  saved : s'.projectFiles = s.projectFiles
  content : ∀ file, s'.fullContent file = s.fullContent file
  ids : ∀ identifier, identifier ∈ s'.existingIds ↔ identifier ∈ s.existingIds
  opened : names s'.documents = names s.documents
  active : s'.active = s.active
  staged : s'.staged = s.staged

variable {file : Text} {content? : Option Text} {buffer? : Option β} {e : MultipleTags}

/-- The session right before the content is taken apart, which is all that a refused opening does. -/
def entered (s : Session β) (file : Text) (content? : Option Text) (buffer? : Option β) : Session β :=
  { s.putDocument file (s.trackerFor file buffer?) with files := Keyed.put file (content?.getD (s.stored file)) s.files }

theorem openDocument_of_refused (h : (s.openDocument file content? buffer?).1 = .error e) :
    (s.openDocument file content? buffer?).2 = s.entered file content? buffer? := by
  unfold openDocument at h ⊢
  dsimp only at h ⊢
  split at h
  · rfl
  · cases h

theorem document?_entered (s : Session β) (file other : Text) (content? : Option Text) (buffer? : Option β) :
    (s.entered file content? buffer?).document? other =
      if other = file then some (s.trackerFor file buffer?) else s.document? other :=
  document?_putDocument s file other _

theorem isOpen_entered (s : Session β) (file other : Text) (content? : Option Text) (buffer? : Option β) :
    (s.entered file content? buffer?).isOpen other = (decide (other = file) || s.isOpen other) := by
  rw [isOpen, document?_entered]
  by_cases hother : other = file
  · simp [hother]
  · simp [hother, isOpen]

/-- The files beside the one that was to be opened keep their identifiers. -/
theorem inUseBeside_entered {identifier : Text} :
    (s.entered file content? buffer?).InUseBeside file identifier ↔ s.InUseBeside file identifier := by
  refine or_congr ?_ (or_congr ?_ Iff.rfl)
  · refine exists_congr fun f => ?_
    by_cases hname : f.1 = file
    · simp [hname]
    · rw [show (s.entered file content? buffer?).files = Keyed.put file (content?.getD (s.stored file)) s.files from rfl,
        mem_put_of_ne hname, isOpen_entered, decide_eq_false hname, Bool.false_or]
  · refine exists_congr fun d => ?_
    by_cases hname : d.1 = file
    · simp [hname]
    · rw [show (s.entered file content? buffer?).documents = Keyed.put file (s.trackerFor file buffer?) s.documents from rfl,
        mem_put_of_ne hname]

theorem fullContent_of_bound_nil {t : Tracker β} (h : t.bound = []) : t.fullContent = t.text := by
  rw [Tracker.fullContent, Tracker.associations_of_bound_nil h, reconstruct_nil]

/-- What the document of a refused content holds: what it held, if it was there and keeps its buffer, and otherwise the text of the buffer it is given. -/
def heldAfterRefusal (s : Session β) (file : Text) (buffer? : Option β) : Text :=
  match buffer? with
  | some b => LineBuffer.text b
  | none => if s.isOpen file then s.fullContent file else LineBuffer.text (LineBuffer.fresh : β)

theorem fullContent_trackerFor (s : Session β) (file : Text) (buffer? : Option β) :
    (s.trackerFor file buffer?).fullContent = s.heldAfterRefusal file buffer? := by
  cases buffer? with
  | some b =>
    have htracker : s.trackerFor file (some b) = { buffer := b, file } := by
      unfold trackerFor
      cases s.document? file <;> rfl
    rw [htracker]
    exact fullContent_of_bound_nil rfl
  | none =>
    unfold trackerFor heldAfterRefusal isOpen fullContent
    cases s.document? file with
    | some t => rfl
    | none => exact fullContent_of_bound_nil rfl

theorem fullContent_entered (s : Session β) (file other : Text) (content? : Option Text) (buffer? : Option β) :
    (s.entered file content? buffer?).fullContent other =
      if other = file then s.heldAfterRefusal file buffer? else s.fullContent other := by
  rw [fullContent, document?_entered]
  by_cases hother : other = file
  · rw [if_pos hother, if_pos hother]
    exact fullContent_trackerFor s file buffer?
  · rw [if_neg hother, if_neg hother, fullContent, stored, stored, entered]
    dsimp only
    rw [lookup_put, if_neg hother]

theorem WellNamed.entered (hs : s.WellNamed) (file : Text) (content? : Option Text) (buffer? : Option β) :
    (s.entered file content? buffer?).WellNamed :=
  hs.put file _ _

theorem lookup_projectFiles_entered (hs : s.WellNamed) (file other : Text) (content? : Option Text) (buffer? : Option β) :
    (s.entered file content? buffer?).projectFiles.lookup other =
      if other = file then some (s.heldAfterRefusal file buffer?) else s.projectFiles.lookup other := by
  rw [lookup_projectFiles (hs.entered file content? buffer?), lookup_projectFiles hs, document?_entered]
  by_cases hother : other = file
  · rw [if_pos hother, if_pos hother, Option.map_some, fullContent_trackerFor, Option.some_or]
  · rw [if_neg hother, if_neg hother, entered]
    dsimp only
    rw [lookup_put, if_neg hother]

/-- A file that is open and is given no buffer that says otherwise is saved as before. -/
theorem projectFiles_entered (hs : s.WellNamed) (hopen : s.isOpen file = true)
    (hheld : s.heldAfterRefusal file buffer? = s.fullContent file) :
    (s.entered file content? buffer?).projectFiles = s.projectFiles := by
  obtain ⟨t, hdoc⟩ := Option.isSome_iff_exists.1 hopen
  have hname : file ∈ names s.documents := mem_names_of_document? hdoc
  have hcontent : (s.trackerFor file buffer?).fullContent = t.fullContent := by
    rw [fullContent_trackerFor, hheld, fullContent, hdoc]
  refine (foldl_put_of_eq Tracker.fullContent hdoc hcontent _).trans ?_
  exact foldl_put_put Tracker.fullContent _ hname (hs.known file hname)

theorem identifiers_trackerFor_some (s : Session β) (file : Text) (b : β) : (s.trackerFor file (some b)).identifiers = [] := by
  have hbound : (s.trackerFor file (some b)).bound = [] := by
    unfold trackerFor
    cases s.document? file <;> rfl
  rw [Tracker.identifiers, Tracker.associations_of_bound_nil hbound, List.map_nil]

theorem sameView_entered_iff (hs : s.WellNamed) :
    SameView s (s.entered file content? buffer?) ↔
      s.isOpen file = true ∧
        ∀ b ∈ buffer?, LineBuffer.text b = s.fullContent file ∧ ∀ a ∈ s.idsOf file, s.InUseBeside file a.identifier := by
  have hentered : (s.entered file content? buffer?).document? file = some (s.trackerFor file buffer?) := by
    rw [document?_entered, if_pos rfl]
  constructor
  · intro h
    have hname : file ∈ names s.documents := h.opened ▸ mem_names_of_document? hentered
    obtain ⟨t, hdoc⟩ := Option.isSome_iff_exists.1 (lookup_isSome_iff.2 hname)
    refine ⟨isOpen_of_document? hdoc, fun b hb => ?_⟩
    obtain rfl : buffer? = some b := hb
    refine ⟨?_, fun a ha => ?_⟩
    · have hcontent := h.content file
      rwa [fullContent_entered, if_pos rfl] at hcontent
    · rw [idsOf_of_document? hdoc] at ha
      have hused := (mem_existingIds_iff hs hdoc).2 (.inl (List.mem_map_of_mem ha))
      rw [← h.ids, mem_existingIds_iff (hs.entered file content? (some b)) hentered, identifiers_trackerFor_some,
        inUseBeside_entered] at hused
      exact hused.resolve_left List.not_mem_nil
  · rintro ⟨hopen, hbuffer⟩
    obtain ⟨t, hdoc⟩ := Option.isSome_iff_exists.1 hopen
    have hheld : s.heldAfterRefusal file buffer? = s.fullContent file := by
      cases buffer? with
      | none => exact if_pos hopen
      | some b => exact (hbuffer b rfl).1
    refine ⟨projectFiles_entered hs hopen hheld, fun other => ?_, fun identifier => ?_, ?_, rfl, rfl⟩
    · rw [fullContent_entered]
      split
      · next hother => rw [hheld, hother]
      · rfl
    · rw [mem_existingIds_iff (hs.entered file content? buffer?) hentered, inUseBeside_entered, mem_existingIds_iff hs hdoc]
      cases buffer? with
      | none =>
        have hsame : s.trackerFor file none = t := by
          unfold trackerFor
          rw [hdoc]
        rw [hsame]
      | some b =>
        rw [identifiers_trackerFor_some, or_iff_right List.not_mem_nil]
        refine (or_iff_right_of_imp fun hid => ?_).symm
        obtain ⟨a, ha, rfl⟩ := List.mem_map.1 hid
        exact (hbuffer b rfl).2 a (idsOf_of_document? hdoc ▸ ha)
    · exact names_put_of_mem (mem_names_of_document? hdoc)

/-- A refused opening leaves the active file, what waits, and all other files alone. The file itself is open afterwards and is saved as what its document then holds, and the session shows the same as before exactly if the file was open and either keeps its buffer or gets one with the same content and all its identifiers are in use elsewhere. -/
theorem openDocument_refused (hs : s.WellNamed)
    (hrefused : (s.openDocument file content? buffer?).1 = .error e) :
    let s' := (s.openDocument file content? buffer?).2
    (s'.active = s.active ∧ s'.staged = s.staged ∧
      (∀ other, s'.isOpen other = (decide (other = file) || s.isOpen other)) ∧
      ∀ other, s'.projectFiles.lookup other =
        if other = file then some (s.heldAfterRefusal file buffer?) else s.projectFiles.lookup other) ∧
    (SameView s s' ↔
      s.isOpen file = true ∧
        ∀ b ∈ buffer?, LineBuffer.text b = s.fullContent file ∧ ∀ a ∈ s.idsOf file, s.InUseBeside file a.identifier) := by
  intro s'
  have hs' : s' = s.entered file content? buffer? := openDocument_of_refused hrefused
  rw [hs']
  refine ⟨⟨rfl, rfl, fun other => ?_, fun other => ?_⟩, sameView_entered_iff hs⟩
  · exact isOpen_entered s file other content? buffer?
  · exact lookup_projectFiles_entered hs file other content? buffer?

/-- A project whose only file has two tags on a line: refusing it makes the session save an empty file. -/
theorem openDocument_refused_twoTags :
    let file := "a.ink".toList
    let story := "x #id:AAAA #id:BBBB".toList
    let s : Session MemoryBuffer := ofFiles [(file, story)] { strict := true }
    let s' := (s.openDocument file none none).2
    s.WellNamed ∧ (s.openDocument file none none).1 = .error ⟨story, ["AAAA".toList, "BBBB".toList]⟩ ∧
      s.projectFiles.lookup file = some story ∧ s'.projectFiles.lookup file = some [] ∧ ¬SameView s s' := by
  intro file story s s'
  have hs : s.WellNamed := (Reachable.ofFiles [(file, story)] { strict := true }).wellNamed
  have hrefused : (s.openDocument file none none).1 = .error ⟨story, ["AAAA".toList, "BBBB".toList]⟩ := by rfl
  obtain ⟨⟨-, -, -, hsaved⟩, hview⟩ := openDocument_refused hs hrefused
  refine ⟨hs, hrefused, rfl, ?_, fun h => ?_⟩
  · rw [hsaved, if_pos rfl]
    rfl
  · exact absurd (hview.1 h).1 (by decide)

/-- A refused opening can change what a session shows and saves. -/
theorem not_sameView_openDocument_twoTags :
    let s : Session MemoryBuffer := ofFiles [("a.ink".toList, "x #id:AAAA #id:BBBB".toList)] { strict := true }
    let (refused, s') := s.openDocument "a.ink".toList none none
    refused = .error ⟨"x #id:AAAA #id:BBBB".toList, ["AAAA".toList, "BBBB".toList]⟩ ∧ ¬SameView s s' := by
  refine ⟨rfl, fun h => ?_⟩
  exact absurd h.opened (by decide)

end LineTags.Session
