import LineTags.Proofs.Session.Reachable

/-!
# Identifiers that wait

An identifier for a file that is not active waits until the file becomes active. Then it is taken from those that wait and bound, or dropped if its line does not fit any more. The notices of an operation, `StagingNotice`, say what became of which identifier, and for a bound one in which session. An operation `Accounts` for its notices: what waits afterwards is what waited before and was staged, less what was bound and what was dropped; and what was bound went to a line that read as expected and carried nothing. Beside this a session keeps two rules, `StagedRight`: nothing waits for the active file, and no two identifiers wait for the same line with the same text.
-/

namespace LineTags

/-- What becomes of an identifier that waits for a file. A bound one is told with the session as it was just before. -/
inductive StagingNotice (β : Type)
  | staged (file : Text) (w : StagedEdit)
  | bound (file : Text) (w : StagedEdit) (s : Session β)
  | dropped (file : Text) (w : StagedEdit)

namespace StagingNotice

variable {β : Type}

def isStaged (file : Text) (w : StagedEdit) : StagingNotice β → Bool
  | staged f v => f = file ∧ v = w
  | _ => false

def isBound (file : Text) (w : StagedEdit) : StagingNotice β → Bool
  | bound f v _ => f = file ∧ v = w
  | _ => false

def isDropped (file : Text) (w : StagedEdit) : StagingNotice β → Bool
  | dropped f v => f = file ∧ v = w
  | _ => false

end StagingNotice

namespace Session

open LineBuffer StagingNotice

variable {β : Type} [LineBuffer β] {s s' s'' : Session β} {file other : Text} {w : StagedEdit}
  {notices more : List (StagingNotice β)}

/-- What waits for a file. -/
def waiting (s : Session β) (file : Text) : List StagedEdit := (s.staged.lookup file).getD []

/-! ## What an operation tells -/

/-- What becomes of identifiers that are applied one after the other. -/
def handOut (file : Text) : List StagedEdit → Session β → List (StagingNotice β)
  | [], _ => []
  | w :: ws, s =>
    (if (s.applyEdit file w.edit w.lineText).1 then .bound file w s else .dropped file w) ::
      handOut file ws (s.applyEdit file w.edit w.lineText).2

/-- What becomes of all that waits for a file. -/
def handedOut (s : Session β) (file : Text) : List (StagingNotice β) :=
  handOut file (s.waiting file) { s with staged := Keyed.remove file s.staged }

/-- The session in which an opened file gets what waits for it, unless its content is refused. -/
def filled? (s : Session β) (file : Text) (content? : Option Text) (buffer? : Option β) : Option (Session β) :=
  let content := content?.getD (s.stored file)
  let t := s.trackerFor file buffer?
  let s := { s.putDocument file t with files := Keyed.put file content s.files }
  (Extraction.ofScript s.mode content).toOption.map fun extraction =>
    { s.putDocument file (t.load file extraction) with active := s.active.or (some file) }

def openNotices (s : Session β) (file : Text) (content? : Option Text) (buffer? : Option β) : List (StagingNotice β) :=
  match s.filled? file content? buffer? with
  | some s => s.handedOut file
  | none => []

def activateNotices (s : Session β) (file : Text) : List (StagingNotice β) :=
  if s.isOpen file then { s with active := some file }.handedOut file
  else
    match s.openDocument file none none with
    | (.error _, _) => []
    | (.ok (), opened) => s.openNotices file none none ++ { opened with active := some file }.handedOut file

def stageNotices (s : Session β) (e : IdEdit) (lineText : Text) : List (StagingNotice β) :=
  match e.file with
  | some file => if (s.stage e lineText).1 then [.staged file ⟨e, lineText⟩] else []
  | none => []

/-! ## Accounts -/

/-- What waits is what was staged and was neither bound nor dropped; what was bound fitted. -/
structure Accounts (notices : List (StagingNotice β)) (s s' : Session β) : Prop where
  balance : ∀ file w, notices.countP (isStaged file w) + (s.waiting file).count w =
    notices.countP (isBound file w) + notices.countP (isDropped file w) + (s'.waiting file).count w
  fits : ∀ file w r, .bound file w r ∈ notices →
    r.Reads file w.edit.line w.lineText ∧ ∀ x ∈ r.idsOf file, x.line ≠ w.edit.line

theorem Accounts.of_staged_eq (h : s'.staged = s.staged) : Accounts [] s s' where
  balance file w := by
    rw [waiting, waiting, h]
    rfl
  fits _ _ _ h := absurd h List.not_mem_nil

theorem Accounts.trans (h : Accounts notices s s') (h' : Accounts more s' s'') : Accounts (notices ++ more) s s'' where
  balance file w := by
    have hfirst := h.balance file w
    have hsecond := h'.balance file w
    rw [List.countP_append, List.countP_append, List.countP_append]
    omega
  fits file w r hr := (List.mem_append.1 hr).elim (h.fits file w r) (h'.fits file w r)

/-- An identifier is applied only where none is yet. -/
theorem forall_line_ne_of_applyEdit {e : IdEdit} {expected : Text} (h : (s.applyEdit file e expected).1 = true) :
    ∀ x ∈ s.idsOf file, x.line ≠ e.line := by
  obtain h' | ⟨t, hdoc, h'⟩ | ⟨t, hdoc, -, hfree, -⟩ := applyEdit_cases s file e expected
  · rw [h'] at h
    cases h
  · rw [h'] at h
    cases h
  · rw [idsOf_of_document? hdoc]
    exact Tracker.identifierAt?_eq_none_iff.1 hfree

/-! ## Handing out -/

omit [LineBuffer β] in
theorem waiting_remove (s : Session β) (file other : Text) :
    ({ s with staged := Keyed.remove file s.staged } : Session β).waiting other =
      if other = file then [] else s.waiting other := by
  unfold waiting
  dsimp only
  rw [Keyed.lookup_remove]
  split
  · rfl
  · rfl

theorem staged_applyStaged (s : Session β) (file : Text) : (s.applyStaged file).staged = Keyed.remove file s.staged :=
  applyStaged_induction (P := fun r => r.staged = Keyed.remove file s.staged) file rfl fun r w _ hr =>
    (staged_applyEdit r file w.edit w.lineText).trans hr

theorem waiting_applyStaged (s : Session β) (file other : Text) :
    (s.applyStaged file).waiting other = if other = file then [] else s.waiting other := by
  rw [← waiting_remove, waiting, waiting, staged_applyStaged]

/-- Handing out stages nothing, and tells of each identifier once. -/
theorem countP_handOut (file other : Text) (w : StagedEdit) (ws : List StagedEdit) (s : Session β) :
    (handOut file ws s).countP (isStaged other w) = 0 ∧
      (handOut file ws s).countP (isBound other w) + (handOut file ws s).countP (isDropped other w) =
        if other = file then ws.count w else 0 := by
  induction ws generalizing s with
  | nil => exact ⟨rfl, by split <;> rfl⟩
  | cons v ws ih =>
    obtain ⟨hstaged, hsettled⟩ := ih (s.applyEdit file v.edit v.lineText).2
    rw [handOut, List.countP_cons, List.countP_cons, List.countP_cons, List.count_cons, hstaged]
    generalize handOut file ws (s.applyEdit file v.edit v.lineText).2 = told at hsettled
    by_cases hother : other = file
    · rw [if_pos hother] at hsettled ⊢
      subst hother
      by_cases hv : v = w <;> split <;> simp [isStaged, isBound, isDropped, hv] <;> omega
    · rw [if_neg hother] at hsettled ⊢
      have hne : file ≠ other := Ne.symm hother
      split <;> simpa [isStaged, isBound, isDropped, hne] using hsettled

/-- Only what fits is bound. -/
theorem fits_of_mem_handOut {ws : List StagedEdit} {r : Session β} (h : .bound other w r ∈ handOut file ws s) :
    r.Reads other w.edit.line w.lineText ∧ ∀ x ∈ r.idsOf other, x.line ≠ w.edit.line := by
  induction ws generalizing s with
  | nil => cases h
  | cons v ws ih =>
    rcases List.mem_cons.1 h with heq | h
    · split at heq
      · next hbound =>
        obtain ⟨rfl, rfl, rfl⟩ := StagingNotice.bound.inj heq
        exact ⟨line?_of_applyEdit hbound, forall_line_ne_of_applyEdit hbound⟩
      · cases heq
    · exact ih h

theorem accounts_applyStaged (s : Session β) (file : Text) : Accounts (s.handedOut file) s (s.applyStaged file) where
  balance other w := by
    obtain ⟨hstaged, hsettled⟩ := countP_handOut file other w (s.waiting file) { s with staged := Keyed.remove file s.staged }
    rw [handedOut, hstaged, hsettled, waiting_applyStaged]
    by_cases hother : other = file
    · rw [if_pos hother, if_pos hother, hother, List.count_nil, Nat.zero_add, Nat.add_zero]
    · rw [if_neg hother, if_neg hother]
  fits _ _ _ h := fits_of_mem_handOut h

/-! ## Opening and activating -/

/-- A refused content leaves alone what waits; otherwise the file is filled and gets what waits for it. -/
theorem openDocument_cases (s : Session β) (file : Text) (content? : Option Text) (buffer? : Option β) :
    (∃ (e : MultipleTags) (r : Session β), s.openDocument file content? buffer? = (.error e, r) ∧ r.staged = s.staged ∧
      r.active = s.active ∧ s.openNotices file content? buffer? = []) ∨
    ∃ r : Session β, s.openDocument file content? buffer? = (.ok (), r.applyStaged file) ∧ r.staged = s.staged ∧
      r.active = s.active.or (some file) ∧ s.openNotices file content? buffer? = r.handedOut file := by
  unfold openDocument openNotices filled?
  dsimp only
  cases Extraction.ofScript (({ s.putDocument file (s.trackerFor file buffer?) with
      files := Keyed.put file (content?.getD (s.stored file)) s.files } : Session β).mode) (content?.getD (s.stored file)) with
  | error e => exact .inl ⟨e, _, rfl, rfl, rfl, rfl⟩
  | ok extraction => exact .inr ⟨_, rfl, rfl, rfl, rfl⟩

theorem accounts_openDocument (s : Session β) (file : Text) (content? : Option Text) (buffer? : Option β) :
    Accounts (s.openNotices file content? buffer?) s (s.openDocument file content? buffer?).2 := by
  obtain ⟨e, r, h, hstaged, -, hnotices⟩ | ⟨r, h, hstaged, -, hnotices⟩ := openDocument_cases s file content? buffer?
  · rw [h, hnotices]
    exact .of_staged_eq hstaged
  · rw [h, hnotices]
    exact (Accounts.of_staged_eq hstaged).trans (accounts_applyStaged r file)

theorem accounts_setActive (s : Session β) (file : Text) : Accounts (s.activateNotices file) s (s.setActive file).2 := by
  unfold activateNotices setActive
  by_cases hopen : s.isOpen file = true
  · rw [if_pos hopen, if_pos hopen]
    have hactive : Accounts [] s { s with active := some file } := .of_staged_eq rfl
    exact hactive.trans (accounts_applyStaged _ file)
  · rw [if_neg hopen, if_neg hopen]
    have hopened := accounts_openDocument s file none none
    obtain ⟨e, r, h, hstaged, -, hnotices⟩ | ⟨r, h, hstaged, -, hnotices⟩ := openDocument_cases s file none none
    · rw [h]
      exact .of_staged_eq hstaged
    · have hactive : Accounts [] (r.applyStaged file) { r.applyStaged file with active := some file } := .of_staged_eq rfl
      rw [h] at hopened ⊢
      exact hopened.trans (hactive.trans (accounts_applyStaged _ file))

/-- An operation that does not refuse leaves nothing that waits for the file; what waits for others it leaves alone in any case. -/
structure HandsOut (s : Session β) (file : Text) (result : Except MultipleTags Unit × Session β) : Prop where
  emptied : result.1 = .ok () → result.2.waiting file = []
  others : ∀ other, other ≠ file → result.2.waiting other = s.waiting other

theorem HandsOut.applyStaged (h : ∀ other, other ≠ file → s'.waiting other = s.waiting other) :
    HandsOut s file (.ok (), s'.applyStaged file) where
  emptied _ := (waiting_applyStaged s' file file).trans (if_pos rfl)
  others other hother := by rw [waiting_applyStaged, if_neg hother, h other hother]

theorem handsOut_openDocument (s : Session β) (file : Text) (content? : Option Text) (buffer? : Option β) :
    HandsOut s file (s.openDocument file content? buffer?) := by
  obtain ⟨e, r, h, hstaged, -, -⟩ | ⟨r, h, hstaged, -, -⟩ := openDocument_cases s file content? buffer?
  · rw [h]
    exact ⟨nofun, fun other _ => by rw [waiting, waiting, hstaged]⟩
  · rw [h]
    exact .applyStaged fun other _ => by rw [waiting, waiting, hstaged]

theorem handsOut_setActive (s : Session β) (file : Text) : HandsOut s file (s.setActive file) := by
  unfold setActive
  by_cases hopen : s.isOpen file = true
  · rw [if_pos hopen]
    exact .applyStaged fun _ _ => rfl
  · rw [if_neg hopen]
    have hothers := (handsOut_openDocument s file none none).others
    cases h : s.openDocument file none none with
    | mk result r =>
      rw [h] at hothers
      cases result with
      | error e => exact ⟨nofun, hothers⟩
      | ok _ => exact .applyStaged hothers

/-- Closing a file leaves alone what waits, and makes none active. -/
theorem closeDocument_quiet (s : Session β) (file : Text) : (s.closeDocument file).staged = s.staged ∧
    ∀ other, (s.closeDocument file).active = some other → s.active = some other := by
  unfold closeDocument
  cases s.document? file with
  | none => exact ⟨rfl, fun _ => id⟩
  | some t =>
    refine ⟨rfl, fun other hother => ?_⟩
    dsimp only at hother
    split at hother
    · cases hother
    · exact hother

/-! ## Staging -/

omit [LineBuffer β] in
/-- Staging leaves what waits alone, or adds one identifier to what waits for its file, where none waits for its line with its text. -/
theorem waiting_stage (s : Session β) (e : IdEdit) (lineText : Text) :
    ((s.stage e lineText).2 = s ∧ stageNotices s e lineText = []) ∨
    ∃ file, e.file = some file ∧ stageNotices s e lineText = [.staged file ⟨e, lineText⟩] ∧
      (∀ w ∈ s.waiting file, ¬(w.edit.line = e.line ∧ w.lineText = lineText)) ∧
      ∀ other, (s.stage e lineText).2.waiting other =
        if other = file then s.waiting file ++ [⟨e, lineText⟩] else s.waiting other := by
  unfold stageNotices stage
  cases e.file with
  | none => exact .inl ⟨rfl, rfl⟩
  | some file =>
    dsimp only
    split
    · exact .inl ⟨rfl, rfl⟩
    · next hnew =>
      refine .inr ⟨file, rfl, rfl, fun w hw hsame => hnew (List.any_eq_true.2 ⟨w, hw, decide_eq_true hsame⟩), ?_⟩
      intro other
      rw [waiting, Keyed.lookup_put]
      by_cases hother : other = file
      · rw [if_pos hother, if_pos hother]
        rfl
      · rw [if_neg hother, if_neg hother]
        rfl

theorem accounts_stage (s : Session β) (e : IdEdit) (lineText : Text) :
    Accounts (stageNotices s e lineText) s (s.stage e lineText).2 := by
  obtain ⟨h, hnotices⟩ | ⟨file, -, hnotices, -, hwaiting⟩ := waiting_stage s e lineText
  · rw [h, hnotices]
    exact .of_staged_eq rfl
  · rw [hnotices]
    refine ⟨fun other w => ?_, fun _ _ _ hbound => by cases List.mem_singleton.1 hbound⟩
    rw [hwaiting, List.countP_singleton, List.countP_singleton, List.countP_singleton]
    by_cases hother : other = file
    · subst hother
      rw [if_pos rfl, List.count_append, List.count_singleton]
      simp [isStaged, isBound, isDropped]
      omega
    · rw [if_neg hother]
      simp [isStaged, isBound, isDropped, Ne.symm hother]

/-! ## What waits is right -/

/-- Nothing waits for the active file, and no two identifiers wait for the same line with the same text. -/
structure StagedRight (s : Session β) : Prop where
  active : ∀ file, s.active = some file → s.waiting file = []
  distinct : ∀ file, (s.waiting file).Pairwise fun w v => ¬(w.edit.line = v.edit.line ∧ w.lineText = v.lineText)

omit [LineBuffer β] in
/-- It stays right where files only shed what waits for them, and a file that becomes active sheds all. -/
theorem StagedRight.of_shed (hs : s.StagedRight)
    (hwaiting : ∀ other, s'.waiting other = s.waiting other ∨ s'.waiting other = [])
    (hactive : ∀ file, s'.active = some file → s.active = some file ∨ s'.waiting file = []) : s'.StagedRight where
  active file hfile := by
    rcases hactive file hfile with h | h
    · exact (hwaiting file).elim (fun heq => heq.trans (hs.active file h)) id
    · exact h
  distinct file := by
    rcases hwaiting file with h | h
    · rw [h]
      exact hs.distinct file
    · rw [h]
      exact .nil

omit [LineBuffer β] in
theorem StagedRight.of_staged_eq (hs : s.StagedRight) (hstaged : s'.staged = s.staged)
    (hactive : ∀ file, s'.active = some file → s.active = some file) : s'.StagedRight :=
  hs.of_shed (fun other => .inl (by rw [waiting, waiting, hstaged])) fun file h => .inl (hactive file h)

omit [LineBuffer β] in
/-- It stays right where an identifier is staged for a file that is not active. -/
theorem StagedRight.stage (hs : s.StagedRight) {e : IdEdit} (hfile : e.file ≠ s.active) (lineText : Text) :
    (s.stage e lineText).2.StagedRight := by
  obtain ⟨h, -⟩ | ⟨file, hfile', -, hnew, hwaiting⟩ := waiting_stage s e lineText
  · rwa [h]
  · have hactive : (s.stage e lineText).2.active = s.active := by
      obtain h | ⟨file, -, h⟩ := stage_cases s e lineText <;> rw [h]
    constructor
    · intro other hother
      rw [hactive] at hother
      have hne : other ≠ file := fun heq => hfile (by rw [hfile', hother, heq])
      rw [hwaiting, if_neg hne]
      exact hs.active other hother
    · intro other
      rw [hwaiting]
      by_cases hother : other = file
      · rw [if_pos hother, List.pairwise_append]
        refine ⟨hs.distinct file, List.pairwise_singleton _ _, fun w hw v hv => ?_⟩
        rw [List.mem_singleton.1 hv]
        exact hnew w hw
      · rw [if_neg hother]
        exact hs.distinct other

section

variable [LawfulBuffer β]

theorem steady_applyStaged (s : Session β) (file : Text) : Steady s (s.applyStaged file) :=
  applyStaged_induction file ⟨rfl, rfl, fun _ => rfl⟩ fun r w _ hr => hr.trans (steady_applyEdit r file w.edit w.lineText)

/-- It stays right where a file, which may become active, gets what waits for it. -/
theorem StagedRight.applyStaged (hs : s.StagedRight) (hstaged : s'.staged = s.staged)
    (hactive : s'.active = s.active ∨ s'.active = some file) : (s'.applyStaged file).StagedRight := by
  refine hs.of_shed (fun other => ?_) fun other hother => ?_
  · rw [waiting_applyStaged]
    by_cases hsame : other = file
    · exact .inr (if_pos hsame)
    · exact .inl ((if_neg hsame).trans (by rw [waiting, waiting, hstaged]))
  · rw [(steady_applyStaged s' file).active] at hother
    rcases hactive with h | h
    · exact .inl (h.symm.trans hother)
    · have hsame : other = file := Option.some.inj (hother.symm.trans h)
      exact .inr ((waiting_applyStaged s' file other).trans (if_pos hsame))

theorem StagedRight.openDocument (hs : s.StagedRight) (file : Text) (content? : Option Text) (buffer? : Option β) :
    (s.openDocument file content? buffer?).2.StagedRight := by
  obtain ⟨e, r, h, hstaged, hactive, -⟩ | ⟨r, h, hstaged, hactive, -⟩ := openDocument_cases s file content? buffer?
  · rw [h]
    exact hs.of_staged_eq hstaged fun other hother => hactive.symm.trans hother
  · rw [h]
    refine hs.applyStaged hstaged ?_
    rw [hactive]
    cases s.active with
    | none => exact .inr rfl
    | some other => exact .inl rfl

theorem StagedRight.setActive (hs : s.StagedRight) (file : Text) : (s.setActive file).2.StagedRight := by
  unfold Session.setActive
  by_cases hopen : s.isOpen file = true
  · rw [if_pos hopen]
    have hstaged : ({ s with active := some file } : Session β).staged = s.staged := rfl
    exact hs.applyStaged hstaged (.inr rfl)
  · rw [if_neg hopen]
    have hopened := hs.openDocument file none none
    cases h : s.openDocument file none none with
    | mk result r =>
      rw [h] at hopened
      cases result with
      | error e => exact hopened
      | ok _ =>
        have hstaged : ({ r with active := some file } : Session β).staged = r.staged := rfl
        exact hopened.applyStaged hstaged (.inr rfl)

end

end Session

end LineTags
