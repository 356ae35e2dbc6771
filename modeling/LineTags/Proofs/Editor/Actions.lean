import LineTags.Editor.Action
import LineTags.Proofs.Editor.Baseline

/-!
# Actions and what was saved last

An editor keeps to what was saved last, in the sense of `Session.Sealed`, through everything that a user does but opening another project. Typing is announced by the widget that is shown; tidying and moving about change nothing; only choosing a file, or going to an identifier in one, makes a file active; and the dirty flag is cleared where the project was written, and nowhere else.
-/

namespace LineTags

open Session

/-- Handling by a user, whatever the state of the widget. -/
def Widget.Handles (f : Widget → Widget) : Prop := ∀ w : Widget, w.Announcing → w.Handled (f w)

namespace Editor

variable {e : Editor} {saved : List (Text × Text)} {slipped : Bool}

/-- The editor keeps to what was saved last. -/
def Keeps (saved : List (Text × Text)) (slipped : Bool) (e : Editor) : Prop := Sealed saved slipped e.session e.dirty e.listed

/-- Whether the project would be written without a fault. -/
def canSave (e : Editor) : Bool :=
  match e.project with
  | none => false
  | some p => (p.save e.workplace e.session.projectFiles).2.isNone

/-- Whether an action writes the project. -/
def writes (a : Action) (e : Editor) : Bool :=
  match a with
  | .command .save => e.canSave
  | .command .exit => e.dirty && e.replies.headD .closed = .yes && e.canSave
  | _ => false

/-! ## Looking and typing -/

theorem session_setSession (s : Session Widget) (e : Editor) : (e.setSession s).session = s := rfl

theorem Keeps.refreshStatus (h : Keeps saved slipped e) : Keeps saved slipped e.refreshStatus := by
  unfold Editor.refreshStatus
  split
  · exact h
  · next file t _ => exact Sealed.alike h (alike_tidyFile h.sound file)

theorem active_refreshStatus (e : Editor) : e.refreshStatus.session.active = e.session.active := by
  unfold refreshStatus
  split <;> rfl

theorem Keeps.updateWidget (h : Keeps saved slipped e) (file : Text) {f : Widget → Widget} (hf : Widget.Handles f) :
    Keeps saved slipped (e.updateWidget file f) := by
  unfold Editor.updateWidget
  cases hdoc : e.session.document? file with
  | none => exact h
  | some t => exact Sealed.handled h hdoc (hf t.buffer (h.announcing file t hdoc))

theorem updateWidget_of_document? {file : Text} {t : Tracker Widget} (hdoc : e.session.document? file = some t)
    (f : Widget → Widget) : e.updateWidget file f = e.setSession (e.session.putDocument file { t with buffer := f t.buffer }) := by
  rw [updateWidget, hdoc]

theorem active_updateWidget (file : Text) (f : Widget → Widget) (e : Editor) :
    (e.updateWidget file f).session.active = e.session.active := by
  unfold updateWidget
  split <;> rfl

theorem listed_updateWidget (file : Text) (f : Widget → Widget) (e : Editor) : (e.updateWidget file f).listed = e.listed := by
  unfold updateWidget
  split <;> rfl

theorem Keeps.updateShown (h : Keeps saved slipped e) {f : Widget → Widget} (hf : Widget.Handles f) :
    Keeps saved slipped (e.updateShown f) := by
  unfold Editor.updateShown
  cases e.shown with
  | none => exact h
  | some file => exact h.updateWidget file hf

theorem active_updateShown (f : Widget → Widget) (e : Editor) : (e.updateShown f).session.active = e.session.active := by
  unfold updateShown
  cases e.shown with
  | none => rfl
  | some file => exact active_updateWidget file f e

theorem handles_paste (t : Text) : Widget.Handles fun w => w.deleteSelection.type t := fun _ hw =>
  (Widget.handled_deleteSelection hw).trans (Widget.handled_type ((Widget.handled_deleteSelection hw).announcing hw) t)

theorem keeps_copy (h : Keeps saved slipped e) : Keeps saved slipped e.copy ∧ e.copy.session = e.session := by
  unfold copy
  split
  · exact ⟨h, rfl⟩
  · exact ⟨h, rfl⟩

/-! ## Choosing files -/

/-- What an action does to what was saved last, if it writes nothing. -/
def Carries (saved : List (Text × Text)) (slipped : Bool) (e e' : Editor) : Prop :=
  Keeps saved (slipped || slips e.session e'.session) e'

theorem Keeps.carries {e' : Editor} (h : Keeps saved slipped e') (hactive : e'.session.active = e.session.active) :
    Carries saved slipped e e' := by
  rw [Carries, slips_of_active_eq hactive, Bool.or_false]
  exact h

theorem Keeps.followSelection (h : Keeps saved slipped e) : Carries saved slipped e e.followSelection := by
  unfold Editor.followSelection
  cases e.project with
  | none => exact h.carries rfl
  | some p =>
    cases hselected : e.selected.bind (e.listed[·]?) with
    | none => exact h.carries rfl
    | some file =>
      dsimp only
      by_cases hactive : e.session.active = some file
      · rw [if_pos hactive]
        exact h.carries rfl
      · rw [if_neg hactive]
        obtain ⟨index, -, hlisted⟩ := Option.bind_eq_some_iff.1 hselected
        have hopen : e.session.isOpen file = true := h.opened file (List.mem_of_getElem? hlisted)
        have hshown : Keeps saved (slipped || slips e.session (e.session.setActive file).2) (e.showFile file) :=
          Sealed.setActive h hopen hactive
        have hslips : slips e.session (e.showFile file).notify.refreshStatus.session =
            slips e.session (e.session.setActive file).2 := slips_congr_right (active_refreshStatus _)
        rw [Carries, hslips]
        exact Keeps.refreshStatus (e := (e.showFile file).notify) hshown

theorem Keeps.arrive (h : Keeps saved slipped e) (file : Text) (line : Int) :
    Keeps saved slipped (e.updateWidget file (Widget.setCursor line 0)).refreshStatus :=
  (h.updateWidget file fun w _ => Widget.handled_setCursor w line 0).refreshStatus

theorem active_arrive (e : Editor) (file : Text) (line : Int) :
    (e.updateWidget file (Widget.setCursor line 0)).refreshStatus.session.active = e.session.active :=
  (active_refreshStatus _).trans (active_updateWidget file _ e)

theorem Keeps.goToLine (h : Keeps saved slipped e) (file : Text) (line : Int) :
    Carries saved slipped e (e.goToLine file line).2 := by
  unfold Editor.goToLine
  dsimp only
  by_cases hactive : e.session.active = some file
  · rw [if_pos hactive]
    exact (h.arrive file line).carries (active_arrive e file line)
  · rw [if_neg hactive]
    cases e.listed.idxOf? file with
    | none => exact h.carries rfl
    | some index =>
      have hfollowed := Keeps.followSelection (e := { e with selected := some index }) h
      rw [Carries, slips_congr_right (active_arrive _ file line)]
      exact Keeps.arrive hfollowed file line

/-- Looking for an identifier tidies some files, and nothing of what is seen of them changes. -/
theorem locate_quiet (hs : e.session.Sound) (identifier : Text) :
    Alike e.session (e.session.locate identifier).2 ∧ (e.session.locate identifier).2.active = e.session.active ∧
      (e.session.locate identifier).2.staged = e.session.staged := by
  refine ⟨alike_locateIn identifier _ hs, ?_⟩
  have hsame : ∀ (files : List Text) (s : Session Widget),
      (locateIn identifier files s).2.active = s.active ∧ (locateIn identifier files s).2.staged = s.staged := by
    intro files
    induction files with
    | nil => exact fun _ => ⟨rfl, rfl⟩
    | cons file files ih =>
      intro s
      unfold locateIn
      split
      · exact ⟨rfl, rfl⟩
      · exact ih (s.tidyFile file)
  exact hsame _ _

/-- A dialog is nothing that is saved. -/
theorem Keeps.tellUser (h : Keeps saved slipped e) (d : Dialog) : Keeps saved slipped (e.tellUser d) := h

theorem Keeps.ask (h : Keeps saved slipped e) {d : Dialog} {reply : Reply} {asked : Editor} (hask : e.ask d = (reply, asked)) :
    Keeps saved slipped asked ∧ asked.session = e.session := by
  obtain ⟨-, rfl⟩ := Prod.mk.inj hask
  exact ⟨h, rfl⟩

theorem Keeps.goToIdentifier (h : Keeps saved slipped e) : Carries saved slipped e e.goToIdentifier.2 := by
  unfold Editor.goToIdentifier
  by_cases hproject : e.project.isNone = true
  · rw [if_pos hproject]
    exact h.carries rfl
  · rw [if_neg hproject]
    cases hask : e.ask (.askText (e.say "menu_goto_id" []) (e.say "goto_id_prompt" [])) with
    | mk reply asked =>
      obtain ⟨hasked, hsession⟩ := h.ask hask
      have hstill : asked.session.active = e.session.active := congrArg Session.active hsession
      cases reply with
      | closed => exact hasked.carries hstill
      | yes => exact hasked.carries hstill
      | no => exact hasked.carries hstill
      | text typed =>
        cases typed with
        | nil => exact hasked.carries hstill
        | cons c typed =>
          dsimp only
          cases identifierOfInput? (c :: typed) with
          | none => exact (hasked.tellUser _).carries hstill
          | some identifier =>
            dsimp only
            obtain ⟨halike, hactive, hstaged⟩ := locate_quiet hasked.sound identifier
            cases hlocate : asked.session.locate identifier with
            | mk found s =>
              rw [hlocate] at halike hactive hstaged
              have hlocated : Keeps saved slipped (asked.setSession s) := Sealed.alike hasked halike
              cases found with
              | none => exact (hlocated.tellUser _).carries (hactive.trans hstill)
              | some place =>
                have hwent := hlocated.goToLine place.1 place.2
                rw [Carries, session_setSession, slips_congr_left halike hactive hstaged, hsession] at hwent
                exact hwent

/-! ## Saving -/

/-- Saving tidies, and clears the flag if the project was written. -/
theorem save_cases (e : Editor) :
    (e.save.session = e.session ∨ e.save.session = e.session.tidy) ∧ e.save.listed = e.listed ∧
      e.save.dirty = (e.dirty && !e.canSave) := by
  unfold save canSave
  cases e.project with
  | none => exact ⟨.inl rfl, rfl, (Bool.and_true _).symm⟩
  | some p =>
    have hworkplace : (e.setSession e.session.tidy).workplace = e.workplace := rfl
    dsimp only
    rw [hworkplace]
    cases p.save e.workplace e.session.projectFiles with
    | mk workplace fault? =>
      cases fault? with
      | some fault => exact ⟨.inr rfl, rfl, (Bool.and_true _).symm⟩
      | none => exact ⟨.inr rfl, rfl, (Bool.and_false _).symm⟩

theorem active_save (e : Editor) : e.save.session.active = e.session.active := by
  rcases (save_cases e).1 with h | h <;> rw [h]
  rfl

theorem alike_save (hs : e.session.Sound) : Alike e.session e.save.session := by
  rcases (save_cases e).1 with h | h <;> rw [h]
  · exact .refl hs
  · exact alike_tidy hs

theorem Keeps.save (h : Keeps saved slipped e) (hfault : e.canSave = false) : Keeps saved slipped e.save := by
  obtain ⟨-, hlisted, hdirty⟩ := save_cases e
  rw [hfault, Bool.not_false, Bool.and_true] at hdirty
  rw [Keeps, hdirty, hlisted]
  exact Sealed.alike h (alike_save h.sound)

theorem proper_save (hp : e.session.Proper e.listed) : e.save.session.Proper e.save.listed := by
  rw [(save_cases e).2.1]
  exact hp.enriched (alike_save hp.sound).toEnriched

/-- Before something could be lost nothing happens, or the project is saved because the user wants it. -/
theorem confirmLoss_cases (e : Editor) : ∃ asked : Editor, asked.session = e.session ∧ asked.dirty = e.dirty ∧
    asked.listed = e.listed ∧ asked.canSave = e.canSave ∧
    ((e.confirmLoss.2 = asked ∧ (e.dirty && e.replies.headD .closed = .yes) = false) ∨
      (e.confirmLoss.2 = asked.save ∧ (e.dirty && e.replies.headD .closed = .yes) = true)) := by
  unfold confirmLoss
  cases hdirty : e.dirty with
  | false => exact ⟨e, rfl, hdirty, rfl, rfl, .inl ⟨rfl, rfl⟩⟩
  | true =>
    refine ⟨(e.ask (.confirm (e.say "unsaved_changes_title" []) (e.say "unsaved_changes_prompt" []))).2, rfl, hdirty, rfl,
      rfl, ?_⟩
    rw [Bool.not_true, if_neg Bool.false_ne_true]
    unfold ask
    dsimp only
    cases e.replies.headD .closed with
    | yes => exact .inr ⟨rfl, rfl⟩
    | closed => exact .inl ⟨rfl, rfl⟩
    | no => exact .inl ⟨rfl, rfl⟩
    | text t => exact .inl ⟨rfl, rfl⟩

theorem exit_eq (e : Editor) : e.exit.session = e.confirmLoss.2.session ∧ e.exit.dirty = e.confirmLoss.2.dirty ∧
    e.exit.listed = e.confirmLoss.2.listed := by
  unfold exit
  cases e.confirmLoss with
  | mk goesOn after => cases goesOn <;> exact ⟨rfl, rfl, rfl⟩

theorem active_confirmLoss (e : Editor) : e.confirmLoss.2.session.active = e.session.active := by
  obtain ⟨asked, hsession, -, -, -, ⟨h, -⟩ | ⟨h, -⟩⟩ := confirmLoss_cases e
  · rw [h, hsession]
  · rw [h, active_save, hsession]

theorem Keeps.exit (h : Keeps saved slipped e) (hwrites : e.writes (.command .exit) = false) : Keeps saved slipped e.exit := by
  obtain ⟨hsession, hdirty, hlisted⟩ := exit_eq e
  rw [Keeps, hsession, hdirty, hlisted]
  obtain ⟨asked, hsame, hstill, hlist, hcan, ⟨h', -⟩ | ⟨h', hyes⟩⟩ := confirmLoss_cases e
  · rw [h', hsame, hstill, hlist]
    exact h
  · have hasked : Keeps saved slipped asked := by
      rw [Keeps, hsame, hstill, hlist]
      exact h
    rw [h']
    refine hasked.save ?_
    rwa [writes, hyes, Bool.true_and, ← hcan] at hwrites

theorem proper_exit (hp : e.session.Proper e.listed) : e.exit.session.Proper e.exit.listed := by
  obtain ⟨hsession, -, hlisted⟩ := exit_eq e
  rw [hsession, hlisted]
  obtain ⟨asked, hsame, -, hlist, -, ⟨h, -⟩ | ⟨h, -⟩⟩ := confirmLoss_cases e
  · rw [h, hsame, hlist]
    exact hp
  · rw [h]
    refine proper_save ?_
    rw [hsame, hlist]
    exact hp

/-! ## Any action -/

theorem keeps_tagNow (h : Keeps saved slipped e) : Carries saved slipped e e.tagNow := by
  unfold tagNow
  split
  · exact h.carries rfl
  · exact h.carries rfl

theorem keeps_validate (h : Keeps saved slipped e) : Carries saved slipped e e.validate := by
  unfold validate
  split
  · exact h.carries rfl
  · exact Keeps.carries (Sealed.alike h (alike_tidy h.sound)) rfl

theorem keeps_speak (h : Keeps saved slipped e) (language : Text) : Carries saved slipped e (e.speak language) := by
  unfold speak
  dsimp only
  split
  · exact h.carries rfl
  · exact h.carries rfl

/-- An action that writes leaves the editor with what it wrote. -/
theorem Keeps.act_of_writes (h : Keeps saved slipped e) {a : Action} (hwrites : e.writes a = true) :
    Keeps (e.act a).2.session.projectFiles false (e.act a).2 := by
  unfold writes at hwrites
  split at hwrites
  · exact (proper_save h.toProper).sealed _
  · exact (proper_exit h.toProper).sealed _
  · cases hwrites

theorem Keeps.act (h : Keeps saved slipped e) {a : Action} (hopens : a ≠ .command .openProject) (hwrites : e.writes a = false) :
    Carries saved slipped e (e.act a).2 := by
  have hshown : ∀ {f : Widget → Widget}, Widget.Handles f → Carries saved slipped e (e.updateShown f) := fun hf =>
    (h.updateShown hf).carries (active_updateShown _ e)
  cases a with
  | command c =>
    cases c with
    | openProject => exact absurd rfl hopens
    | save => exact (h.save hwrites).carries (active_save e)
    | exit => exact (h.exit hwrites).carries ((congrArg Session.active (exit_eq e).1).trans (active_confirmLoss e))
    | tagNow => exact keeps_tagNow h
    | validate => exact keeps_validate h
    | goTo => exact h.goToIdentifier
    | speak language => exact keeps_speak h language.toList
  | choose index => exact Keeps.followSelection (e := { e with selected := index }) h
  | closeReport => exact h.carries rfl
  | type t => exact hshown fun _ hw => Widget.handled_type hw t
  | insert line column t => exact hshown fun w hw => Widget.handled_insertAt hw (w.offset line column) t
  | erase startLine startColumn endLine endColumn =>
    exact hshown fun w hw => Widget.handled_deleteBetween hw (w.offset startLine startColumn) (w.offset endLine endColumn)
  | moveCursor line column => exact hshown fun w _ => Widget.handled_setCursor w line column
  | select startLine startColumn endLine endColumn =>
    exact hshown fun w _ => Widget.handled_select w startLine startColumn endLine endColumn
  | release =>
    show Carries saved slipped e (if e.shown.isSome then e.refreshStatus else e)
    by_cases hsome : e.shown.isSome = true
    · rw [if_pos hsome]
      exact h.refreshStatus.carries (active_refreshStatus e)
    · rw [if_neg hsome]
      exact h.carries rfl
  | copy => exact (keeps_copy h).1.carries (congrArg Session.active (keeps_copy h).2)
  | cut =>
    obtain ⟨hcopied, hsession⟩ := keeps_copy h
    refine (hcopied.updateShown fun _ hw => Widget.handled_deleteSelection hw).carries ?_
    exact (active_updateShown _ e.copy).trans (congrArg Session.active hsession)
  | paste =>
    show Carries saved slipped e e.paste
    unfold paste
    cases e.clipboard with
    | none => exact h.carries rfl
    | some t => exact hshown (handles_paste (eraseTags t))
  | setClipboard t => exact h.carries rfl
  | wait milliseconds => exact h.carries rfl

end Editor

end LineTags
