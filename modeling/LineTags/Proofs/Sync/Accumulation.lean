import LineTags.Proofs.Session.Refusal
import LineTags.Proofs.Story.ContainerNames
import LineTags.Proofs.Sync.Uniqueness

/-!
# Identifiers accumulate

As long as nobody types and no document is opened or closed, a driver only adds. The files and the texts of the documents stay as they are, a line with an identifier keeps it, and what comes in use beside what was in use is minted by a run. So where only identifiers were in use, and all stories come from parsing, only identifiers are in use afterwards, and each of them can be written as a tag and read again.
-/

namespace LineTags

open Keyed

namespace Session

variable {β : Type} [LineBuffer β] {s s' s'' : Session β}

/-- The second session has the same files, and the same documents with the same texts, and every line that has an identifier keeps it. -/
structure Extends (s s' : Session β) : Prop where
  files : s'.files = s.files
  names : names s'.documents = names s.documents
  text : ∀ file, (s'.document? file).map Tracker.text = (s.document? file).map Tracker.text
  ids : ∀ file, ∀ x ∈ s.idsOf file, x ∈ s'.idsOf file

theorem Extends.refl (s : Session β) : Extends s s := ⟨rfl, rfl, fun _ => rfl, fun _ _ hx => hx⟩

theorem Extends.trans (h : Extends s s') (h' : Extends s' s'') : Extends s s'' where
  files := h'.files.trans h.files
  names := h'.names.trans h.names
  text := fun file => (h'.text file).trans (h.text file)
  ids := fun file x hx => h'.ids file x (h.ids file x hx)

theorem Extends.of_eq (hfiles : s'.files = s.files) (hdocuments : s'.documents = s.documents) : Extends s s' where
  files := hfiles
  names := by rw [hdocuments]
  text := fun file => by rw [document?, hdocuments, document?]
  ids := fun file x hx => by
    rw [idsOf, document?, hdocuments, stored, hfiles]
    exact hx

theorem Extends.of_steady (h : Steady s s') (hnames : Keyed.names s'.documents = Keyed.names s.documents)
    (hids : ∀ file, ∀ x ∈ s.idsOf file, x ∈ s'.idsOf file) : Extends s s' :=
  ⟨h.files, hnames, h.text, hids⟩

theorem Extends.isOpen (h : Extends s s') (file : Text) : s'.isOpen file = s.isOpen file := by
  have htext := congrArg Option.isSome (h.text file)
  rwa [Option.isSome_map, Option.isSome_map] at htext

/-- Only identifiers are in use. -/
def WellSpelled (s : Session β) : Prop := ∀ identifier, s.carriers identifier ≠ 0 → isIdentifier identifier

omit [LineBuffer β] in
theorem WellSpelled.of_le (hs : s.WellSpelled) (hle : ∀ identifier, s'.carriers identifier ≤ s.carriers identifier) :
    s'.WellSpelled := by
  intro identifier hused
  have := hle identifier
  exact hs identifier (by omega)

variable [LawfulBuffer β]

theorem extends_tidy (hs : s.Sound) : Extends s s.tidy :=
  .of_steady (steady_tidy s) (names_tidy s) fun file x hx => (mem_idsOf_tidy hs file x).2 hx

theorem extends_applyEdit (hs : s.Sound) (file : Text) (e : IdEdit) (expected : Text) :
    Extends s (s.applyEdit file e expected).2 :=
  .of_steady (steady_applyEdit s file e expected) (names_applyEdit s file e expected) fun other x hx =>
    (mem_idsOf_applyEdit hs file e expected other x).2 (.inl hx)

omit [LawfulBuffer β] in
theorem extends_stage (s : Session β) (e : IdEdit) (lineText : Text) : Extends s (s.stage e lineText).2 :=
  .of_eq (steady_stage s e lineText).files (documents_stage s e lineText)

theorem extends_applyStaged (hs : s.Sound) (file : Text) : Extends s (s.applyStaged file) := by
  have htaken : Extends s { s with staged := Keyed.remove file s.staged } := .of_eq rfl rfl
  have hboth := applyStaged_induction (P := fun r => r.Sound ∧ Extends s r) file ⟨hs.of_documents_eq rfl, htaken⟩
    fun r w _ hr => ⟨sound_applyEdit hr.1 file w.edit w.lineText,
      hr.2.trans (extends_applyEdit hr.1 file w.edit w.lineText)⟩
  exact hboth.2

theorem extends_setActive (hs : s.Sound) {file : Text} (hopen : s.isOpen file = true) : Extends s (s.setActive file).2 := by
  rw [setActive_of_isOpen hopen]
  have hactive : Extends s { s with active := some file } := .of_eq rfl rfl
  exact hactive.trans (extends_applyStaged (s := { s with active := some file }) hs file)

end Session

/-- The containers around the text of what was compiled have valid names. -/
def Compiled.ValidNames : Compiled → Prop
  | .story s => ∀ c ∈ Candidate.ofTree s.root, ∀ k ∈ c.ancestry, LineForm.isContainerName k.name = true
  | _ => True

theorem Compiled.eq_ok_of_ofParse {parsed : Except ParseFailure Story} {story : Story} (h : ofParse parsed = .story story) :
    parsed = .ok story := by
  unfold ofParse at h
  split at h
  · rw [Compiled.story.inj h]
  · cases h
  · cases h

theorem Compiled.validNames_ofParse (library : Library) (file t : Text) :
    (ofParse (Story.parse library file t)).ValidNames := by
  cases hparse : Story.parse library file t with
  | ok story => exact isContainerName_of_parse hparse
  | error e => cases e <;> exact trivial

namespace TagDriver

variable {β : Type} [LineBuffer β] [LawfulBuffer β] {d : TagDriver β} {s : Session β}

theorem extends_deliver (hs : s.Sound) (run : Run) (e : IdEdit) : s.Extends (deliver run e s).2 := by
  obtain h | ⟨expected, -, -, h⟩ | ⟨expected, -, h⟩ := deliver_cases run e s
  · rw [h]
    exact .refl s
  · rw [h]
    exact Session.extends_applyEdit hs run.file e expected
  · rw [h]
    exact Session.extends_stage s e expected

theorem extends_deliverAll (hs : s.Sound) (run : Run) (es : List IdEdit) : s.Extends (deliverAll run es s).2 := by
  induction es generalizing s with
  | nil => exact .refl s
  | cons e es ih => exact (extends_deliver hs run e).trans (ih (sound_deliver hs run e))

theorem Issued.extends {run : Run} {d' : TagDriver β} (h : Issued d run d') (hs : d.session.Sound) :
    d.session.Extends d'.session := by
  rw [h.session_eq]
  exact Session.extends_tidy hs

theorem extends_delivered (hs : d.session.Sound) (run : Run) (story : Story) :
    d.session.Extends (d.delivered run story).session :=
  (Session.extends_tidy hs).trans (extends_deliverAll (Session.sound_tidy hs) run _)

omit [LawfulBuffer β] in
/-- What comes in use when a run delivers was minted for its story. -/
theorem wellSpelled_delivered (hs : d.session.WellSpelled) (hlength : d.generator.length = codeLength) (run : Run)
    {story : Story} (hstory : (Compiled.story story).ValidNames) : (d.delivered run story).session.WellSpelled := by
  intro identifier hused
  have hdelivered := carriers_deliverAll_le run (d.generator.run d.session.existingIds story.root).1.edits
    d.session.tidy identifier
  have hcarriers : (d.delivered run story).session.carriers identifier ≤ d.session.tidy.carriers identifier +
      (d.generator.run d.session.existingIds story.root).1.edits.countP fun e => e.identifier = identifier := hdelivered
  have htidy := d.session.carriers_tidy_le identifier
  by_cases hold : d.session.carriers identifier = 0
  · have hminted : 0 < (d.generator.run d.session.existingIds story.root).1.edits.countP
        fun e => e.identifier = identifier := by omega
    obtain ⟨e, he, heq⟩ := List.countP_pos_iff.1 hminted
    rw [← of_decide_eq_true heq]
    exact Generator.isIdentifier_of_mem_run hlength hstory he
  · exact hs identifier hold

end TagDriver

namespace Interleaving

variable {β : Type} [LineBuffer β] [LawfulBuffer β] {c c' c'' : Interleaving β} {e : Event} {es es' : List Event}
  {d : TagDriver β} {s : Session β} {g : Generator}

/-- Whether an event leaves the text of every document as it is, and the documents open. -/
def Event.KeepsTexts : Event → Prop
  | edited _ | opened _ | documentClosed _ => False
  | _ => True

theorem Event.KeepsTexts.not_changesDocuments (h : e.KeepsTexts) : ¬ e.ChangesDocuments := by
  cases e <;> first | exact not_false | exact h.elim

/-- Whether an event is other than the end of a compiling with names that no script can have. -/
def Event.ValidNames : Event → Prop
  | completed _ outcome _ => outcome.ValidNames
  | _ => True

theorem Path.append (h : Path c es c') (h' : Path c' es' c'') : Path c (es ++ es') c'' := by
  induction h' with
  | nil => rwa [List.append_nil]
  | snoc _ hstep ih =>
    rw [← List.append_assoc]
    exact ih.snoc hstep

theorem Effect.extends (h : Effect d e s g) (hs : d.session.Sound) (he : e.KeepsTexts) : d.session.Extends s := by
  cases h with
  | nothing => exact .refl _
  | tidied => exact Session.extends_tidy hs
  | delivered => exact TagDriver.extends_delivered hs _ _
  | activated hopen => exact Session.extends_setActive hs hopen
  | edited hdoc hedited => exact he.elim
  | activatedUnopened => exact he.elim
  | opened hbuffer => exact he.elim
  | closed => exact he.elim

theorem Path.extends (h : Path c es c') (hs : c.driver.session.Sound) (hes : ∀ e ∈ es, e.KeepsTexts) :
    c.driver.session.Extends c'.driver.session := by
  induction h with
  | nil => exact .refl _
  | snoc hpath hstep ih =>
    have hbefore := ih fun e he => hes e (List.mem_append_left _ he)
    exact hbefore.trans (hstep.effect.extends (hpath.sound hs) (hes _ (List.mem_append_right _ List.mem_cons_self)))

theorem Effect.wellSpelled (h : Effect d e s g) (hs : d.session.WellSpelled) (hlength : d.generator.length = codeLength)
    (he : ¬ e.ChangesDocuments) (hnames : e.ValidNames) : s.WellSpelled ∧ g.length = codeLength := by
  cases h with
  | nothing => exact ⟨hs, hlength⟩
  | tidied => exact ⟨hs.of_le d.session.carriers_tidy_le, hlength⟩
  | delivered =>
    exact ⟨TagDriver.wellSpelled_delivered hs hlength _ hnames, (Generator.length_run _ _ _).trans hlength⟩
  | edited hdoc hedited =>
    exact ⟨hs.of_le fun i => Nat.le_of_eq (Session.carriers_putDocument_of_bound_eq hdoc hedited.bound_eq i), hlength⟩
  | activated hopen =>
    refine ⟨?_, hlength⟩
    rw [Session.setActive_of_isOpen hopen]
    exact hs.of_le fun i => Session.carriers_applyStaged_le { d.session with active := some _ } _ i
  | activatedUnopened => exact absurd trivial he
  | opened hbuffer => exact absurd trivial he
  | closed => exact absurd trivial he

theorem Path.wellSpelled (h : Path c es c') (hs : c.driver.session.WellSpelled)
    (hlength : c.driver.generator.length = codeLength) (hes : ∀ e ∈ es, ¬ e.ChangesDocuments)
    (hnames : ∀ e ∈ es, e.ValidNames) :
    c'.driver.session.WellSpelled ∧ c'.driver.generator.length = codeLength := by
  induction h with
  | nil => exact ⟨hs, hlength⟩
  | snoc hpath hstep ih =>
    obtain ⟨hbefore, hlength'⟩ :=
      ih (fun e he => hes e (List.mem_append_left _ he)) fun e he => hnames e (List.mem_append_left _ he)
    exact hstep.effect.wellSpelled hbefore hlength' (hes _ (List.mem_append_right _ List.mem_cons_self))
      (hnames _ (List.mem_append_right _ List.mem_cons_self))

end Interleaving

end LineTags
