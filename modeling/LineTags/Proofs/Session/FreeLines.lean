import LineTags.Proofs.Session.Opening
import LineTags.Proofs.Session.Traits
import LineTags.Proofs.Sync.Accumulation

/-!
# Free lines

A line of an open file is free if it has code and carries no identifier. Only a free line takes an identifier, and it is not free afterwards; no line becomes free again unless somebody types. So a session to which identifiers come only for lines that are not free goes on saying the same of every line, however many of them are applied or wait.
-/

namespace LineTags.Session

open LineBuffer Keyed

section

variable {β : Type} [LineBuffer β] [LawfulBuffer β] {s s' s₀ : Session β} {file : Text} {line : Int} {e : IdEdit}
  {expected : Text}

/-- A line of an open file that has code and carries no identifier. -/
def Free (s : Session β) (file : Text) (line : Int) : Prop :=
  ∃ t, s.document? file = some t ∧ t.canCarry line = true ∧ t.identifierAt? line = none

omit [LawfulBuffer β] in
/-- As identifiers accumulate, no line becomes free. -/
theorem Extends.free (h : s.Extends s') (hfree : s'.Free file line) : s.Free file line := by
  obtain ⟨t', hdoc', hcarry, hnone⟩ := hfree
  have htext := h.text file
  rw [hdoc', Option.map_some, eq_comm, Option.map_eq_some_iff] at htext
  obtain ⟨t, hdoc, htext⟩ := htext
  refine ⟨t, hdoc, (Tracker.canCarry_of_text_eq htext line).trans hcarry, ?_⟩
  rw [Tracker.identifierAt?_eq_none_iff] at hnone ⊢
  intro x hx
  have hkept := h.ids file x (idsOf_of_document? hdoc ▸ hx)
  rw [idsOf_of_document? hdoc'] at hkept
  exact hnone x hkept

theorem free_of_applyEdit (h : (s.applyEdit file e expected).1 = true) : s.Free file e.line := by
  obtain h' | ⟨t, -, h'⟩ | ⟨t, hdoc, -, hnone, h'⟩ := applyEdit_cases s file e expected
  · rw [h'] at h
    cases h
  · rw [h'] at h
    cases h
  · rw [h'] at h
    refine ⟨t, hdoc, ?_, hnone⟩
    rw [← Tracker.canCarry_of_text_eq t.text_tidy]
    exact Tracker.canCarry_of_bind h

/-! ## Identifiers for lines that are not free -/

/-- The second session says of every line what the first one says, and what waits is for lines that are not free. -/
structure Idle (s₀ s : Session β) : Prop where
  grown : s₀.Extends s
  sound : s.Sound
  ids : ∀ file, ∀ x ∈ s.idsOf file, x ∈ s₀.idsOf file
  staged : ∀ file, ∀ w ∈ (s.staged.lookup file).getD [], ¬s₀.Free file w.edit.line

theorem idle_refl (hs : s.Sound) (hstaged : s.staged = []) : Idle s s where
  grown := .refl s
  sound := hs
  ids := fun _ _ hx => hx
  staged := fun file w hw => by
    rw [hstaged] at hw
    exact absurd hw List.not_mem_nil

theorem Idle.tidy (h : Idle s₀ s) : Idle s₀ s.tidy where
  grown := h.grown.trans (extends_tidy h.sound)
  sound := sound_tidy h.sound
  ids := fun file x hx => h.ids file x ((mem_idsOf_tidy h.sound file x).1 hx)
  staged := h.staged

theorem Idle.applyEdit (h : Idle s₀ s) (hbusy : ¬s₀.Free file e.line) : Idle s₀ (s.applyEdit file e expected).2 where
  grown := h.grown.trans (extends_applyEdit h.sound file e expected)
  sound := sound_applyEdit h.sound file e expected
  ids := fun other x hx => by
    rcases (mem_idsOf_applyEdit h.sound file e expected other x).1 hx with hx | ⟨hbound, -, -⟩
    · exact h.ids other x hx
    · exact absurd (h.grown.free (free_of_applyEdit hbound)) hbusy
  staged := by
    rw [staged_applyEdit]
    exact h.staged

theorem Idle.stage (h : Idle s₀ s) (hbusy : ∀ file, e.file = some file → ¬s₀.Free file e.line) (lineText : Text) :
    Idle s₀ (s.stage e lineText).2 where
  grown := h.grown.trans (extends_stage s e lineText)
  sound := sound_stage h.sound e lineText
  ids := fun other x hx => h.ids other x (idsOf_stage s e lineText other ▸ hx)
  staged := fun other w hw => by
    obtain hstage | ⟨file, hfile, hstage⟩ := stage_cases s e lineText
    · rw [hstage] at hw
      exact h.staged other w hw
    · rw [hstage] at hw
      dsimp only at hw
      rw [lookup_put] at hw
      split at hw
      · next hother =>
        rw [Option.getD_some, List.mem_append, List.mem_singleton] at hw
        rcases hw with hw | rfl
        · exact hother ▸ h.staged file w hw
        · exact hother ▸ hbusy file hfile
      · exact h.staged other w hw

theorem Idle.applyStaged (h : Idle s₀ s) (file : Text) : Idle s₀ (s.applyStaged file) := by
  refine applyStaged_induction file ⟨h.grown.trans (.of_eq rfl rfl), h.sound, h.ids, fun other w hw => ?_⟩
    fun r w hw hr => hr.applyEdit (h.staged file w hw)
  rw [lookup_remove] at hw
  split at hw
  · cases hw
  · exact h.staged other w hw

theorem Idle.setActive (h : Idle s₀ s) (hopen : s.isOpen file = true) : Idle s₀ (s.setActive file).2 := by
  have hactive : Idle s₀ ({ s with active := some file } : Session β) :=
    ⟨h.grown.trans (.of_eq rfl rfl), h.sound, h.ids, h.staged⟩
  rw [setActive_of_isOpen hopen]
  exact hactive.applyStaged file

theorem Idle.deliverAll (h : Idle s₀ s) (run : Run) {es : List IdEdit}
    (hbusy : ∀ e ∈ es, ∀ file, e.file = some file → ¬s₀.Free file e.line) :
    Idle s₀ (TagDriver.deliverAll run es s).2 := by
  induction es generalizing s with
  | nil => exact h
  | cons e es ih =>
    have hfirst : Idle s₀ (TagDriver.deliver run e s).2 := by
      obtain heq | ⟨expected, -, hfile, heq⟩ | ⟨expected, -, heq⟩ := TagDriver.deliver_cases run e s
      · rwa [heq]
      · rw [heq]
        exact h.applyEdit (hbusy e List.mem_cons_self run.file hfile)
      · rw [heq]
        exact h.stage (hbusy e List.mem_cons_self) expected
    exact ih hfirst fun e he => hbusy e (List.mem_cons_of_mem _ he)

end

/-! ## Free lines take what comes -/

section

variable {β : Type} [LineBuffer β] {s : Session β}

/-- Whether the buffer of an open file can be used. -/
def alive? (s : Session β) (file : Text) : Option Bool := (s.document? file).map fun t => isAlive t.buffer

theorem alive?_of_document? {file : Text} {t : Tracker β} (hdoc : s.document? file = some t) :
    s.alive? file = some (isAlive t.buffer) := by
  rw [alive?, hdoc, Option.map_some]

variable [AnchoringBuffer β] {file : Text} {e : IdEdit} {expected : Text}

theorem alive?_tidy (s : Session β) (file : Text) : s.tidy.alive? file = s.alive? file :=
  trait?_tidy unanchored_isAlive s file

theorem alive?_applyEdit (s : Session β) (file : Text) (e : IdEdit) (expected other : Text) :
    (s.applyEdit file e expected).2.alive? other = s.alive? other :=
  trait?_applyEdit unanchored_isAlive s file e expected other

theorem alive?_deliver (run : Run) (e : IdEdit) (s : Session β) (file : Text) :
    (TagDriver.deliver run e s).2.alive? file = s.alive? file :=
  trait?_deliver unanchored_isAlive run e s file

theorem alive?_deliverAll (run : Run) (es : List IdEdit) (s : Session β) (file : Text) :
    (TagDriver.deliverAll run es s).2.alive? file = s.alive? file :=
  trait?_deliverAll unanchored_isAlive run es s file

theorem alive?_of_applyEdit (hs : s.Sound) (h : (s.applyEdit file e expected).1 = true) : s.alive? file = some true := by
  obtain h' | ⟨t, -, h'⟩ | ⟨t, hdoc, -, hnone, h'⟩ := applyEdit_cases s file e expected
  · rw [h'] at h
    cases h
  · rw [h'] at h
    cases h
  · rw [h'] at h
    have hfree := (Tracker.identifierAt?_tidy_eq_none_iff (hs.of_document? hdoc)).2 hnone
    rw [alive?_of_document? hdoc, ← t.isAlive_tidy, Tracker.isAlive_of_bind hfree h]

theorem applyEdit_of_free (hs : s.Sound) (halive : s.alive? file = some true) (hreads : s.Reads file e.line expected)
    (hfree : s.Free file e.line) : (s.applyEdit file e expected).1 = true := by
  obtain ⟨t, hdoc, hline⟩ := hreads
  obtain ⟨t', hdoc', hcarry, hnone⟩ := hfree
  obtain rfl := Option.some.inj (hdoc'.symm.trans hdoc)
  rw [alive?_of_document? hdoc, Option.some_inj, ← t'.isAlive_tidy] at halive
  unfold applyEdit
  rw [hdoc]
  dsimp only
  rw [if_neg (not_not_intro hline), hnone, Option.isSome_none, if_neg Bool.false_ne_true]
  have ht : t'.Sound := hs.of_document? hdoc
  exact Tracker.bind_of_isAlive halive ((Tracker.canCarry_of_text_eq t'.text_tidy _).trans hcarry)
    ((Tracker.identifierAt?_tidy_eq_none_iff ht).2 hnone) e.identifier

/-- A line that an identifier comes for, with the text that the line has, is not free afterwards. -/
theorem not_free_applyEdit (hs : s.Sound) (halive : s.alive? file = some true) (hreads : s.Reads file e.line expected) :
    ¬(s.applyEdit file e expected).2.Free file e.line := by
  intro hafter
  have hbound := applyEdit_of_free hs halive hreads ((extends_applyEdit hs file e expected).free hafter)
  have hmem := (mem_idsOf_applyEdit hs file e expected file ⟨e.line, e.identifier⟩).2 (.inr ⟨hbound, rfl, rfl⟩)
  obtain ⟨t, hdoc, -, hnone⟩ := hafter
  rw [idsOf_of_document? hdoc] at hmem
  exact Tracker.identifierAt?_eq_none_iff.1 hnone _ hmem rfl

theorem not_free_deliverAll (hs : s.Sound) (run : Run) (halive : s.alive? run.file = some true) {es : List IdEdit}
    (he : e ∈ es) (hfile : e.file = some run.file) (hexpected : TagDriver.expectedLine? run e = some expected)
    (hreads : s.Reads run.file e.line expected) : ¬(TagDriver.deliverAll run es s).2.Free run.file e.line := by
  induction es generalizing s with
  | nil => cases he
  | cons first es ih =>
    have hsound := TagDriver.sound_deliver hs run first
    rcases List.mem_cons.1 he with rfl | he
    · have hdeliver : TagDriver.deliver run e s = s.applyEdit run.file e expected := by
        unfold TagDriver.deliver
        rw [hexpected]
        dsimp only
        rw [if_pos hfile]
      have hfirst := not_free_applyEdit hs halive hreads
      rw [← hdeliver] at hfirst
      exact fun hfree => hfirst ((TagDriver.extends_deliverAll hsound run es).free hfree)
    · exact ih hsound ((alive?_deliver run first s run.file).trans halive) he
        ((TagDriver.steady_deliver run first s).reads hreads)

end

end LineTags.Session
