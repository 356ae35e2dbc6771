import LineTags.Editor.Opening
import LineTags.Proofs.Disk.Loading

/-!
# What opening a project does

What cannot be read or parsed leaves the editor as it is but for what the user is told. Anything else takes the place of the project that is open. If the settings can be used, its files are then opened, all of them or up to the first that is refused.
-/

namespace LineTags

namespace Editor

variable {e : Editor}

/-! ## Changing to a loaded project -/

/-- Renewing the settings changes the settings and the disk, and nothing else. -/
theorem renewSettings_eq {path : Text} {e' : Editor} (h : e.renewSettings path = (.ok (), e')) :
    ∃ settings disk, e' = { e with settings, workplace := { e.workplace with disk } } := by
  unfold renewSettings at h
  dsimp only at h
  split at h
  · cases h
  · exact ⟨_, _, (Prod.mk.inj h).2.symm⟩

/-- An editor that gave up its project for another one whose files are still to be opened. -/
def cleared (p : Project) (settings effective : Settings) (disk : Disk) (e : Editor) : Editor :=
  let bare : Editor := { e.giveUp with project := some p, settings, workplace := { e.workplace with disk } }
  { bare with driver := bare.freshDriver effective p.files }

/-- The change to another project opens its files in an editor that was cleared, and tells whether all were opened. -/
theorem switchTo_cases {p : Project} {path : Text} {result : Bool} {e' : Editor} (h : e.switchTo p path = (.ok result, e')) :
    ∃ settings effective disk,
      (result = false ∧ ∃ refusal stopped d,
        openFiles p.files (e.cleared p settings effective disk) = (.error refusal, stopped) ∧ e' = stopped.tellUser d) ∨
      (result = true ∧ ∃ opened, openFiles p.files (e.cleared p settings effective disk) = (.ok (), opened) ∧
        e' = ({ opened.showFile p.rootName with selected := some 0 }.setDirty false).refreshStatus.notify) := by
  unfold switchTo at h
  dsimp only at h
  cases hrenew : ({ e.giveUp with project := some p } : Editor).renewSettings (e.workplace.absolute path) with
  | mk result renewed =>
    rw [hrenew] at h
    cases result with
    | error fault => cases h
    | ok u =>
      cases u
      obtain ⟨settings, disk, rfl⟩ := renewSettings_eq hrenew
      dsimp only at h
      split at h
      · cases h
      · next effective _ =>
        refine ⟨settings, effective, disk, ?_⟩
        split at h
        · next refusal stopped hfiles =>
          obtain ⟨hresult, hend⟩ := Prod.mk.inj h
          exact .inl ⟨(Except.ok.inj hresult).symm, refusal, stopped, _, hfiles, hend.symm⟩
        · next opened hfiles =>
          obtain ⟨hresult, hend⟩ := Prod.mk.inj h
          exact .inr ⟨(Except.ok.inj hresult).symm, opened, hfiles, hend.symm⟩

/-! ## Loading it first -/

/-- The project with the root script at a path, if it can be read and parsed. -/
def loads (e : Editor) (path : Text) : Option Project :=
  (Project.load e.workplace path).toOption.filter fun p => (p.parse e.workplace).toOption.isSome

/-- Opening what cannot be read or parsed tells the user, or stops at a name that no file can have. -/
theorem reportUnreadable_cases (fault : FileError) (e : Editor) :
    (∃ d, e.reportUnreadable fault = (.ok false, e.tellUser d)) ∨ ∃ fault', e.reportUnreadable fault = (.error fault', e) := by
  unfold reportUnreadable
  cases fault with
  | nullInName => exact .inr ⟨_, rfl⟩
  | refused refusal path => exact .inl ⟨_, rfl⟩
  | undecodable fault => exact .inl ⟨_, rfl⟩

/-- What cannot be read or parsed changes nothing but the screen; everything else is put in the place of the project that is open. -/
theorem openProject_cases (path : Text) (e : Editor) :
    (e.loads path = none ∧
      ((∃ d, e.openProject path = (.ok false, e.tellUser d)) ∨ ∃ fault, e.openProject path = (.error fault, e))) ∨
    ∃ p, e.loads path = some p ∧ p.Loaded e.workplace path ∧ e.openProject path = e.switchTo p path := by
  unfold openProject loads
  cases hload : Project.load e.workplace path with
  | error fault => exact .inl ⟨rfl, reportUnreadable_cases fault e⟩
  | ok p =>
    have hloads : (Except.ok p : Except FileError Project).toOption = some p := rfl
    rw [hloads, Option.filter_some]
    dsimp only
    cases hparse : p.parse e.workplace with
    | ok story => exact .inr ⟨p, rfl, Project.loaded_of_load hload, rfl⟩
    | error fault =>
      refine .inl ⟨rfl, ?_⟩
      cases fault with
      | rejected refusal => exact .inl ⟨_, rfl⟩
      | unreadable fault => exact reportUnreadable_cases fault e

end Editor

end LineTags
