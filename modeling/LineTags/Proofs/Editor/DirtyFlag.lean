import LineTags.Editor.Launch
import LineTags.Proofs.CommandLine.Rerun
import LineTags.Proofs.Editor.Actions
import LineTags.Proofs.Editor.Opening

/-!
# The dirty flag

The flag says whether something would be lost if the editor were closed. What is saved of a project changes in three ways: the user types, a run binds identifiers, and a file is activated for which identifiers wait. The first two set the flag. The third does not, and it is the only gap: as long as the flag is not set, what would be saved is what was saved last, unless since then a file was activated for which an identifier waited that fits.

A `Course` is any sequence of what can happen to an editor after a project was opened. Nothing is assumed about when runs are issued and completed, which runs, and with what outcome; and the events of widgets may be delivered late. What the editor does by itself after each action is such a sequence.
-/

namespace LineTags

open Session

namespace Editor

variable {e : Editor} {saved : List (Text × Text)} {slipped : Bool}

/-! ## What happens by itself -/

/-- Issues a run. -/
def issue (e : Editor) : Editor := { e with driver := e.driver.startRun.2 }

/-- Completes a run. -/
def complete (run : Run) (outcome : Compiled) (e : Editor) : Editor :=
  match e.driver.finishRun run outcome with
  | (.ok (_ :: _), driver) => ({ e with driver }.setDirty true).refreshStatus
  | (_, driver) => { e with driver }

/-- A run that is made is issued and completed at once. -/
theorem tag_eq (e : Editor) : e.tag = match e.driver.startRun.1 with
    | none => e.issue
    | some run => e.issue.complete run (e.compile run) := by
  unfold tag issue complete
  cases e.driver.startRun with
  | mk run? driver => cases run? <;> rfl

/-- Issuing a run tidies the session, if there is something to make a run for. -/
theorem session_issue (e : Editor) : e.issue.session = e.session ∨ e.issue.session = e.session.tidy := by
  cases hstart : e.driver.startRun with
  | mk run? driver =>
    have hsession : e.issue.session = driver.session := by
      show e.driver.startRun.2.session = _
      rw [hstart]
    rw [hsession]
    cases run? with
    | none =>
      rw [TagDriver.startRun_none hstart]
      exact .inl rfl
    | some run => exact .inr (TagDriver.startRun_issued hstart).session_eq

theorem Keeps.issue (h : Keeps saved slipped e) : Keeps saved slipped e.issue := by
  show Sealed saved slipped e.issue.session e.dirty e.listed
  rcases session_issue e with hsession | hsession <;> rw [hsession]
  · exact h
  · exact Sealed.alike h (alike_tidy h.sound)

/-- What a run binds sets the flag; a run that binds nothing changes nothing that is saved. -/
theorem Keeps.complete (h : Keeps saved slipped e) (run : Run) (outcome : Compiled) :
    Keeps saved slipped (e.complete run outcome) := by
  unfold Editor.complete
  obtain ⟨phase, -, hfinish⟩ | ⟨story, -, -, hfinish⟩ := TagDriver.finishRun_cases run outcome e.driver
  · rw [hfinish]
    cases outcome with
    | failed failure => exact h
    | nothing => exact h
    | story story => exact h
  · have htidied : Alike e.session e.session.tidy := alike_tidy h.sound
    rw [hfinish]
    cases happlied : (TagDriver.deliverAll run (e.driver.generator.run e.driver.session.existingIds story.root).1.edits
        e.driver.session.tidy).1 with
    | nil => exact Sealed.alike h (htidied.trans (alike_deliverAll htidied.sound run happlied))
    | cons edit edits =>
      have hdelivered : (e.driver.delivered run story).session.Proper e.listed :=
        h.toProper.enriched (htidied.toEnriched.trans (enriched_deliverAll htidied.sound run _))
      have hdirty : Keeps saved slipped (({ e with driver := e.driver.delivered run story } : Editor).setDirty true) :=
        hdelivered.sealed_of_dirty
      exact hdirty.refreshStatus

theorem Keeps.tag (h : Keeps saved slipped e) : Keeps saved slipped e.tag := by
  rw [tag_eq]
  cases e.driver.startRun.1 with
  | none => exact h.issue
  | some run => exact h.issue.complete run _

/-- An event that tells of a change sets the flag. -/
theorem Keeps.deliverEvents (h : Keeps saved slipped e) (file : Text) : Keeps saved slipped (e.deliverEvents file) := by
  unfold Editor.deliverEvents widget?
  cases hdoc : e.session.document? file with
  | none => exact h
  | some t =>
    rw [Option.map_some]
    dsimp only
    have hproper := h.toProper.acknowledged hdoc
    rw [updateWidget_of_document? hdoc]
    by_cases hnews : 0 < t.buffer.pendingEvents ∧ t.buffer.modified = true
    · rw [if_pos hnews]
      have hdirty : Keeps saved slipped ((e.setSession (e.session.putDocument file
          { t with buffer := { t.buffer with modified := false, pendingEvents := 0 } })).setDirty true).notify :=
        hproper.sealed_of_dirty
      exact hdirty.refreshStatus
    · rw [if_neg hnews]
      have hsame : t.buffer.modified = false := by
        refine Bool.eq_false_iff.2 fun hmodified => hnews ?_
        exact ⟨(h.announcing file t hdoc).event hmodified, hmodified⟩
      exact Sealed.acknowledged h hdoc hsame

/-! ## Opening a project -/

/-- Clearing the flag of a widget keeps its session proper. -/
theorem proper_clearModified {s : Session Widget} {listed : List Text} (hp : s.Proper listed) (file : Text) :
    ((e.setSession s).updateWidget file (Widget.setModified false)).session.Proper listed := by
  unfold updateWidget
  cases hdoc : (e.setSession s).session.document? file with
  | none => exact hp
  | some t =>
    have ht : t.Sound := hp.sound.of_document? hdoc
    have hhandles := Widget.handles_setModified false t.buffer
    refine hp.putDocument hdoc (Tracker.sound_withBuffer ht (Widget.sound_of_handles_eq hhandles ht.buffer)
      (congrArg Prod.snd hhandles)) ⟨?_, fun hmodified => ?_⟩
    · unfold Widget.setModified
      split <;> exact (hp.announcing file t hdoc).alive
    · unfold Widget.setModified at hmodified
      split at hmodified
      · next hsame =>
        rw [hsame] at hmodified
        cases hmodified
      · cases hmodified

theorem proper_openFiles (files : List (Text × Text)) (hp : e.session.Proper e.listed) :
    (openFiles files e).2.session.Proper (openFiles files e).2.listed := by
  induction files generalizing e with
  | nil => exact hp
  | cons f files ih =>
    obtain ⟨file, content⟩ := f
    have hfresh : ∀ b ∈ some ({} : Widget), LawfulBuffer.Sound b ∧ b.Announcing := by
      intro b hb
      obtain rfl := Option.some.inj hb
      exact ⟨LawfulBuffer.sound_fresh, rfl, nofun⟩
    have hopened := hp.openDocument file (some content) (some {}) hfresh
    unfold openFiles
    cases hopen : e.session.openDocument file (some content) (some {}) with
    | mk result s =>
      rw [hopen] at hopened
      cases result with
      | error refusal => exact hopened.mono fun _ h => List.mem_cons_of_mem file h
      | ok u =>
        cases u
        have hcleared := proper_clearModified (e := e) hopened file
        have hlisted : ((e.setSession s).updateWidget file (Widget.setModified false)).listed = e.listed :=
          listed_updateWidget file _ _
        dsimp only
        refine ih (hcleared.mono fun other hother => ?_)
        rw [hlisted, List.mem_append, List.mem_singleton] at hother
        exact List.mem_cons.2 hother.symm

theorem proper_switchTo {p : Project} {path : Text} {e' : Editor} (h : e.switchTo p path = (.ok true, e')) :
    e'.session.Proper e'.listed := by
  obtain ⟨settings, effective, disk, ⟨hresult, -⟩ | ⟨-, opened, hfiles, rfl⟩⟩ := switchTo_cases h
  · cases hresult
  · have hcleared : (e.cleared p settings effective disk).session.Proper (e.cleared p settings effective disk).listed :=
      proper_ofFiles p.files _
    have hopened := proper_openFiles p.files hcleared
    rw [hfiles] at hopened
    have hshown : Keeps (opened.session.setActive p.rootName).2.projectFiles false
        (({ opened.showFile p.rootName with selected := some 0 } : Editor).setDirty false) :=
      (hopened.setActive p.rootName).sealed false
    exact hshown.refreshStatus.toProper

/-- Once a project is open, the session of the editor is proper. -/
theorem proper_openProject {path : Text} {e' : Editor} (h : e.openProject path = (.ok true, e')) :
    e'.session.Proper e'.listed := by
  obtain ⟨-, ⟨d, hopen⟩ | ⟨fault, hopen⟩⟩ | ⟨p, -, -, hopen⟩ := openProject_cases path e
  · cases hopen.symm.trans h
  · cases hopen.symm.trans h
  · exact proper_switchTo (hopen.symm.trans h)

/-! ## Courses -/

/-- The editor when an action begins: no dialog is shown yet, and the answers are known. -/
def begun (replies : List Reply) (e : Editor) : Editor := { e with dialogs := [], replies }

/-- What can happen after a project was opened, with what would have been saved then or was saved last, and whether since then a file was activated for which an identifier waited that fits. -/
inductive Course : List (Text × Text) → Bool → Editor → Prop
  | opened {e e' : Editor} {path : Text} (h : e.openProject path = (.ok true, e')) : Course e'.session.projectFiles false e'
  | acted {saved : List (Text × Text)} {slipped : Bool} {e : Editor} (a : Action) (replies : List Reply)
      (hopens : a ≠ .command .openProject) (hwrites : (e.begun replies).writes a = false) : Course saved slipped e →
    Course saved (slipped || slips e.session ((e.begun replies).act a).2.session) ((e.begun replies).act a).2
  | wrote {saved : List (Text × Text)} {slipped : Bool} {e : Editor} (a : Action) (replies : List Reply)
      (hwrites : (e.begun replies).writes a = true) : Course saved slipped e →
    Course ((e.begun replies).act a).2.session.projectFiles false ((e.begun replies).act a).2
  | delivered {saved : List (Text × Text)} {slipped : Bool} {e : Editor} (file : Text) : Course saved slipped e →
    Course saved slipped (e.deliverEvents file)
  | asked {saved : List (Text × Text)} {slipped : Bool} {e : Editor} : Course saved slipped e →
    Course saved slipped { e with runWaiting := false }
  | timerFired {saved : List (Text × Text)} {slipped : Bool} {e : Editor} : Course saved slipped e →
    Course saved slipped { e with driver := e.driver.stopTimer }
  | issued {saved : List (Text × Text)} {slipped : Bool} {e : Editor} : Course saved slipped e → Course saved slipped e.issue
  | completed {saved : List (Text × Text)} {slipped : Bool} {e : Editor} (run : Run) (outcome : Compiled) :
    Course saved slipped e → Course saved slipped (e.complete run outcome)

theorem Course.keeps (h : Course saved slipped e) : Keeps saved slipped e := by
  induction h with
  | opened hopen => exact (proper_openProject hopen).sealed _
  | acted a replies hopens hwrites _ ih => exact Keeps.act (e := Editor.begun replies _) ih hopens hwrites
  | wrote a replies hwrites _ ih => exact Keeps.act_of_writes (e := Editor.begun replies _) ih hwrites
  | delivered file _ ih => exact ih.deliverEvents file
  | asked _ ih => exact ih
  | timerFired _ ih => exact ih
  | issued _ ih => exact ih.issue
  | completed run outcome _ ih => exact ih.complete run outcome

/-! ## What the editor does by itself is part of a course -/

theorem Course.tag (h : Course saved slipped e) : Course saved slipped e.tag := by
  rw [tag_eq]
  cases e.driver.startRun.1 with
  | none => exact h.issued
  | some run => exact h.issued.completed run _

theorem Course.settle (h : Course saved slipped e) : Course saved slipped e.settle := by
  have hevents : ∀ (files : List Text) (e : Editor), Course saved slipped e → Course saved slipped (files.foldl deliverEvents e) := by
    intro files
    induction files with
    | nil => exact fun _ => id
    | cons file files ih => exact fun e h => ih _ (h.delivered file)
  have hasked : ∀ e : Editor, Course saved slipped e → Course saved slipped e.tagIfAsked := by
    intro e h
    unfold tagIfAsked
    split
    · exact h.asked.tag
    · exact h
  have hdue : ∀ e : Editor, Course saved slipped e → Course saved slipped e.tagIfDue := by
    intro e h
    unfold tagIfDue
    split
    · split
      · exact h.timerFired.tag
      · exact h
    · exact h
  unfold Editor.settle
  split
  · exact hdue _ (hasked _ (hevents _ e h))
  · exact h

/-- An action that writes nothing, with all that it leads to. -/
theorem Course.step (h : Course saved slipped e) {a : Action} (hopens : a ≠ .command .openProject) (replies : List Reply)
    (hwrites : (e.begun replies).writes a = false) :
    Course saved (slipped || slips e.session ((e.begun replies).act a).2.session) (e.step a replies).2 :=
  (h.acted a replies hopens hwrites).settle

/-- An action that writes the project, with all that it leads to. -/
theorem Course.step_of_writes (h : Course saved slipped e) {a : Action} (replies : List Reply)
    (hwrites : (e.begun replies).writes a = true) :
    Course ((e.begun replies).act a).2.session.projectFiles false (e.step a replies).2 :=
  (h.wrote a replies hwrites).settle

/-! ## All events are delivered before the user acts again -/

theorem flags_refreshStatus (e : Editor) (file : Text) :
    e.refreshStatus.session.trait? Widget.flags file = e.session.trait? Widget.flags file := by
  unfold refreshStatus
  split
  · rfl
  · next active t _ =>
    show (e.session.tidyFile active).trait? Widget.flags file = _
    exact trait?_tidyFile Widget.unanchored_flags e.session active file

theorem flags_complete (run : Run) (outcome : Compiled) (e : Editor) (file : Text) :
    (e.complete run outcome).session.trait? Widget.flags file = e.session.trait? Widget.flags file := by
  unfold complete
  obtain ⟨phase, -, hfinish⟩ | ⟨story, -, -, hfinish⟩ := TagDriver.finishRun_cases run outcome e.driver
  · rw [hfinish]
    cases outcome <;> rfl
  · have hflags : (e.driver.delivered run story).session.trait? Widget.flags file = e.session.trait? Widget.flags file :=
      (trait?_deliverAll Widget.unanchored_flags run _ _ file).trans (trait?_tidy Widget.unanchored_flags e.session file)
    rw [hfinish]
    split
    · next driver hresult =>
      obtain ⟨-, rfl⟩ := Prod.mk.inj hresult
      exact (flags_refreshStatus _ file).trans hflags
    · next driver _ hresult =>
      obtain ⟨-, rfl⟩ := Prod.mk.inj hresult
      exact hflags

theorem flags_tag (e : Editor) (file : Text) : e.tag.session.trait? Widget.flags file = e.session.trait? Widget.flags file := by
  have hissue : e.issue.session.trait? Widget.flags file = e.session.trait? Widget.flags file := by
    rcases session_issue e with hsession | hsession <;> rw [hsession]
    exact trait?_tidy Widget.unanchored_flags e.session file
  rw [tag_eq]
  cases e.driver.startRun.1 with
  | none => exact hissue
  | some run => exact (flags_complete run _ e.issue file).trans hissue

/-- Delivering the events of one widget leaves no change of its text to tell, and leaves the other widgets alone. -/
theorem delivered_deliverEvents (e : Editor) (file : Text) :
    (∀ t, (e.deliverEvents file).session.document? file = some t → t.buffer.modified = false) ∧
      ∀ other, other ≠ file →
        (e.deliverEvents file).session.trait? Widget.flags other = e.session.trait? Widget.flags other := by
  unfold deliverEvents widget?
  cases hdoc : e.session.document? file with
  | none =>
    refine ⟨fun t ht => ?_, fun _ _ => rfl⟩
    have ht : e.session.document? file = some t := ht
    rw [hdoc] at ht
    cases ht
  | some t =>
    rw [Option.map_some]
    dsimp only
    rw [updateWidget_of_document? hdoc]
    have hflags : ∀ other, (e.session.putDocument file
        { t with buffer := { t.buffer with modified := false, pendingEvents := 0 } }).trait? Widget.flags other =
          if other = file then some (false, 0, t.buffer.alive) else e.session.trait? Widget.flags other := by
      intro other
      rw [trait?, document?_putDocument]
      split <;> rfl
    have hend : ∀ e' : Editor, (∀ other, e'.session.trait? Widget.flags other = (e.session.putDocument file
        { t with buffer := { t.buffer with modified := false, pendingEvents := 0 } }).trait? Widget.flags other) →
          (∀ t, e'.session.document? file = some t → t.buffer.modified = false) ∧
            ∀ other, other ≠ file → e'.session.trait? Widget.flags other = e.session.trait? Widget.flags other := by
      intro e' he'
      refine ⟨fun t' ht' => ?_, fun other hother => by rw [he', hflags, if_neg hother]⟩
      have hat := he' file
      rw [hflags, if_pos rfl, trait?, ht', Option.map_some] at hat
      exact (Prod.mk.inj (Option.some.inj hat)).1
    split
    · exact hend _ fun other => flags_refreshStatus _ other
    · exact hend _ fun other => rfl

theorem delivered_settle (halive : e.alive = true) : e.settle.session.Delivered := by
  have hevents : ∀ (files : List Text) (e : Editor),
      (∀ file t, file ∉ files → e.session.document? file = some t → t.buffer.modified = false) →
      (files.foldl deliverEvents e).session.Delivered := by
    intro files
    induction files with
    | nil => exact fun e hrest file t hdoc => hrest file t List.not_mem_nil hdoc
    | cons first files ih =>
      intro e hrest
      obtain ⟨hfirst, hothers⟩ := delivered_deliverEvents e first
      refine ih _ fun file t hfile hdoc => ?_
      by_cases heq : file = first
      · exact hfirst t (heq ▸ hdoc)
      · obtain ⟨t₀, hdoc₀, hflags⟩ := exists_document?_of_flags_eq (hothers file heq) hdoc
        refine (Prod.mk.inj hflags).1.trans (hrest file t₀ (fun hmem => ?_) hdoc₀)
        exact (List.mem_cons.1 hmem).elim heq hfile
  have hasked : ∀ e : Editor, e.session.Delivered → e.tagIfAsked.session.Delivered := by
    intro e hdelivered
    unfold tagIfAsked
    split
    · exact delivered_of_flags_eq (flags_tag _) hdelivered
    · exact hdelivered
  have hdue : ∀ e : Editor, e.session.Delivered → e.tagIfDue.session.Delivered := by
    intro e hdelivered
    unfold tagIfDue
    split
    · split
      · exact delivered_of_flags_eq (flags_tag _) hdelivered
      · exact hdelivered
    · exact hdelivered
  unfold settle
  rw [if_pos halive]
  refine hdue _ (hasked _ (hevents _ e fun file t hfile hdoc => ?_))
  exact absurd (mem_names_of_document? hdoc) hfile

/-! ## When the flag can be relied on -/

/-- As long as the flag is not set, what would be saved is what was saved last exactly if no activated file had an identifier waiting that fits. -/
theorem Course.projectFiles_eq_iff (h : Course saved slipped e) (hclean : e.dirty = false) (hdelivered : e.session.Delivered) :
    e.session.projectFiles = saved ↔ slipped = false := by
  obtain ⟨-, -, -, -, -, hiff⟩ := h.keeps.kept hclean hdelivered
  exact hiff

/-- An editor for a script with a tagged line and an included script with a line to tag. -/
def desk : Editor :=
  .blank
    (Tagging.placeOfScripts
      { rootPath := "main.ink".toList
        files := [("main.ink".toList, "INCLUDE a.ink\nHello #id:AAAA".toList), ("a.ink".toList, "x".toList)] })
    { platform := "linux".toList, home := .ofText "/home".toList, environment := [] } "en".toList {} ⟨.cycle [1], 0⟩

def openedDesk : Editor := (desk.openProject "main.ink".toList).2

/-- The run that opening led to was made. It staged an identifier for the included script. -/
def taggedDesk : Editor := (openedDesk.settle.step (.wait 500) []).2

/-- Then the included script was chosen. -/
def chosenDesk : Editor := (taggedDesk.step (.choose (some 1)) []).2

theorem course_taggedDesk : Course openedDesk.session.projectFiles false taggedDesk := by
  have hopen : (desk.openProject "main.ink".toList).1 = .ok true := by decide +kernel
  have hopened : Course openedDesk.session.projectFiles false openedDesk := .opened (Prod.ext hopen rfl)
  have hslips : slips openedDesk.settle.session ((openedDesk.settle.begun []).act (.wait 500)).2.session = false :=
    slips_of_active_eq rfl
  have hwaited := hopened.settle.step (a := .wait 500) (by decide) [] rfl
  rwa [hslips] at hwaited

/-- The identifier waits, so nothing would be lost. -/
theorem projectFiles_eq_iff_taggedDesk : Course openedDesk.session.projectFiles false taggedDesk ∧
    taggedDesk.dirty = false ∧ taggedDesk.session.Delivered ∧
    (taggedDesk.session.projectFiles = openedDesk.session.projectFiles ↔ false = false) := by
  have hclean : taggedDesk.dirty = false := by decide +kernel
  have hdelivered : taggedDesk.session.Delivered := delivered_of_documents (by decide +kernel)
  exact ⟨course_taggedDesk, hclean, hdelivered, course_taggedDesk.projectFiles_eq_iff hclean hdelivered⟩

/-- Choosing the script binds the identifier, which would be saved, and the flag is not set. -/
theorem not_projectFiles_eq_chosenDesk : Course openedDesk.session.projectFiles true chosenDesk ∧
    chosenDesk.dirty = false ∧ chosenDesk.session.Delivered ∧
    chosenDesk.session.projectFiles ≠ openedDesk.session.projectFiles := by
  have hslips : slips taggedDesk.session ((taggedDesk.begun []).act (.choose (some 1))).2.session = true := by decide +kernel
  have hchosen := course_taggedDesk.step (a := .choose (some 1)) (by decide) [] rfl
  rw [hslips] at hchosen
  exact ⟨hchosen, by decide +kernel, delivered_of_documents (by decide +kernel), by decide +kernel⟩

end Editor

end LineTags
