import LineTags.Proofs.Minting.Freshness
import LineTags.Proofs.Sync.Interleaving

/-!
# New identifiers stay unique

An identifier is in use on anchors, whether they count or not, and on entries that wait for a file. Edits of the text make anchors collapse or meet, but never add one, and activating a file only moves waiting entries onto lines. New ones come from runs alone, and a run mints right after the session was tidied: then every anchor shows its identifier, so an identifier that is new to the session is on no anchor and waits nowhere, and it is delivered once.
-/

namespace LineTags

namespace Session

variable {β : Type} [LineBuffer β] {s : Session β}

/-- How often an identifier is in use: on anchors and on entries that wait. -/
def carriers (s : Session β) (identifier : Text) : Nat := s.anchorsOf identifier + s.waitingFor identifier

theorem carriers_tidy_le (s : Session β) (identifier : Text) : s.tidy.carriers identifier ≤ s.carriers identifier :=
  Nat.add_le_add_right (s.anchorsOf_tidy_le identifier) _

omit [LineBuffer β] in
theorem anchorsOf_le_of_document? {file : Text} {t : Tracker β} (hdoc : s.document? file = some t) (identifier : Text) :
    t.anchorsOf identifier ≤ s.anchorsOf identifier :=
  List.single_le_sum (fun _ _ => Nat.zero_le _) _
    (List.mem_map_of_mem (f := fun d => d.2.anchorsOf identifier) (Keyed.mem_of_lookup hdoc))

/-- What shows on a line is in use. -/
theorem carriers_ne_zero_of_mem {file : Text} {t : Tracker β} (hdoc : s.document? file = some t) {a : LineId}
    (ha : a ∈ t.associations) : s.carriers a.identifier ≠ 0 := by
  have hshown : 0 < t.associations.countP fun b => b.identifier = a.identifier :=
    List.countP_pos_iff.2 ⟨a, ha, decide_eq_true rfl⟩
  have hcount := t.countP_associations_le a.identifier
  have hsum := anchorsOf_le_of_document? hdoc a.identifier
  rw [carriers]
  omega

omit [LineBuffer β] in
/-- Typing moves anchors and adds none. -/
theorem carriers_putDocument_of_bound_eq {file : Text} {t t' : Tracker β} (hdoc : s.document? file = some t)
    (hbound : t'.bound = t.bound) (identifier : Text) :
    (s.putDocument file t').carriers identifier = s.carriers identifier := by
  have hsum := anchorsOf_putDocument hdoc t' identifier
  have hsame : t'.anchorsOf identifier = t.anchorsOf identifier := by rw [Tracker.anchorsOf, hbound, Tracker.anchorsOf]
  have hwaiting : (s.putDocument file t').waitingFor identifier = s.waitingFor identifier := rfl
  rw [carriers, carriers, hwaiting]
  omega

variable [LawfulBuffer β]

/-- An identifier that is not among those in use is nowhere once the session is tidied. -/
theorem carriers_tidy_eq_zero (hs : s.Sound) {identifier : Text} (hnew : identifier ∉ s.existingIds) :
    s.tidy.carriers identifier = 0 := by
  rw [existingIds, List.mem_append, List.mem_append, not_or, not_or] at hnew
  obtain ⟨⟨-, hdocuments⟩, hstaged⟩ := hnew
  have hanchors : s.tidy.anchorsOf identifier = 0 := by
    rw [anchorsOf, tidy, List.map_map, List.sum_eq_zero_iff]
    intro n hn
    obtain ⟨d, hd, rfl⟩ := List.mem_map.1 hn
    refine List.countP_eq_zero.2 fun b hb heq => hdocuments ?_
    rw [← of_decide_eq_true heq]
    exact List.mem_flatMap_of_mem hd (Tracker.mem_identifiers_of_mem_bound_tidy (hs d hd) hb)
  have hwaiting : s.tidy.waitingFor identifier = 0 := by
    rw [waitingFor, List.sum_eq_zero_iff]
    intro n hn
    obtain ⟨w, hw, rfl⟩ := List.mem_map.1 hn
    refine List.countP_eq_zero.2 fun e he heq => hstaged ?_
    rw [← of_decide_eq_true heq]
    exact List.mem_flatMap_of_mem hw (List.mem_map_of_mem (f := fun e : StagedEdit => e.edit.identifier) he)
  rw [carriers, hanchors, hwaiting]

omit [LawfulBuffer β] in
theorem setActive_of_isOpen {file : Text} (hopen : s.isOpen file = true) :
    (s.setActive file).2 = ({ s with active := some file } : Session β).applyStaged file := by
  rw [setActive, if_pos hopen]

theorem active_setActive {file : Text} (hopen : s.isOpen file = true) : (s.setActive file).2.active = some file := by
  rw [setActive_of_isOpen hopen]
  exact applyStaged_induction (P := fun r => r.active = some file) file rfl fun r w _ hr =>
    (steady_applyEdit r file w.edit w.lineText).active.trans hr

end Session

namespace TagDriver

variable {β : Type} [LineBuffer β] [LawfulBuffer β] {d : TagDriver β}

/-- Among distinct identifiers each occurs once. -/
theorem countP_identifier_le_one {edits : List IdEdit} (hnodup : (edits.map IdEdit.identifier).Nodup)
    (identifier : Text) : (edits.countP fun e => e.identifier = identifier) ≤ 1 := by
  have hcount : (edits.map IdEdit.identifier).count identifier = edits.countP fun e => e.identifier = identifier := by
    rw [List.count, List.countP_map]
    refine List.countP_congr fun e _ => ?_
    rw [Function.comp_apply, beq_iff_eq, decide_eq_true_iff]
  rw [← hcount]
  exact List.nodup_iff_count_le_one.1 hnodup identifier

/-- A run that delivers does not put an identifier to a second use. -/
theorem carriers_delivered_le (hs : d.session.Sound) (run : Run) (story : Story) (identifier : Text) :
    (d.delivered run story).session.carriers identifier ≤ max 1 (d.session.carriers identifier) := by
  have hminted := Generator.minted_run d.generator d.session.existingIds story.root
  have hdelivered := carriers_deliverAll_le run (d.generator.run d.session.existingIds story.root).1.edits
    d.session.tidy identifier
  have hcarriers : (d.delivered run story).session.carriers identifier ≤ d.session.tidy.carriers identifier +
      (d.generator.run d.session.existingIds story.root).1.edits.countP fun e => e.identifier = identifier := hdelivered
  by_cases hnew : ∃ e ∈ (d.generator.run d.session.existingIds story.root).1.edits, e.identifier = identifier
  · obtain ⟨e, he, rfl⟩ := hnew
    have hzero := Session.carriers_tidy_eq_zero hs (hminted.fresh e he)
    have hone := countP_identifier_le_one hminted.nodup e.identifier
    omega
  · have hnone : ((d.generator.run d.session.existingIds story.root).1.edits.countP
        fun e => e.identifier = identifier) = 0 :=
      List.countP_eq_zero.2 fun e he heq => hnew ⟨e, he, of_decide_eq_true heq⟩
    have htidy := d.session.carriers_tidy_le identifier
    omega

end TagDriver

namespace Interleaving

variable {β : Type} [LineBuffer β] [LawfulBuffer β] {c c' c₀ : Interleaving β} {e : Event} {es : List Event}

theorem Effect.carriers_le {d : TagDriver β} {s : Session β} {g : Generator} (h : Effect d e s g) (hs : d.session.Sound)
    (he : ¬ e.ChangesDocuments) (identifier : Text) :
    s.carriers identifier ≤ max 1 (d.session.carriers identifier) := by
  have hsame : d.session.carriers identifier ≤ max 1 (d.session.carriers identifier) := Nat.le_max_right _ _
  cases h with
  | nothing => exact hsame
  | tidied => exact Nat.le_trans (d.session.carriers_tidy_le identifier) hsame
  | delivered => exact TagDriver.carriers_delivered_le hs _ _ identifier
  | edited hdoc hedited =>
    exact Nat.le_trans (Nat.le_of_eq (Session.carriers_putDocument_of_bound_eq hdoc hedited.bound_eq identifier)) hsame
  | activated hopen =>
    refine Nat.le_trans ?_ hsame
    rw [Session.setActive_of_isOpen hopen]
    exact Session.carriers_applyStaged_le _ _ identifier
  | activatedUnopened => exact absurd trivial he
  | opened hbuffer => exact absurd trivial he
  | closed => exact absurd trivial he

theorem Step.carriers_le (h : Step c e c') (hs : c.driver.session.Sound) (he : ¬ e.ChangesDocuments)
    (identifier : Text) :
    c'.driver.session.carriers identifier ≤ max 1 (c.driver.session.carriers identifier) :=
  h.effect.carriers_le hs he identifier

/-- As long as no document is opened or closed, no identifier is in use more than once, unless it was from the start, and then not more often than it was. -/
theorem Path.carriers_le (h : Path c₀ es c) (hs : c₀.driver.session.Sound) (hes : ∀ e ∈ es, ¬ e.ChangesDocuments)
    (identifier : Text) :
    c.driver.session.carriers identifier ≤ max 1 (c₀.driver.session.carriers identifier) := by
  induction h with
  | nil => exact Nat.le_max_right _ _
  | @snoc es e c' c'' hpath hstep ih =>
    have hbefore := ih fun e he => hes e (List.mem_append_left _ he)
    have hlast := hstep.carriers_le (hpath.sound hs) (hes e (List.mem_append_right _ List.mem_cons_self)) identifier
    omega

/-- Where nothing waits at first, an identifier is in use at most once, or at most as often as the anchors carry it at first: on all anchors and on all waiting entries together, after any sequence of steps that opens and closes no document. -/
theorem minted_unique (hinit : c₀.driver.session.Reachable) (hstaged : c₀.driver.session.staged = [])
    (hpath : Path c₀ es c) (hes : ∀ e ∈ es, ¬ e.ChangesDocuments) (identifier : Text) :
    c.driver.session.anchorsOf identifier + c.driver.session.waitingFor identifier ≤
      max 1 (c₀.driver.session.anchorsOf identifier) := by
  have hle := hpath.carriers_le hinit.sound hes identifier
  have hnone : c₀.driver.session.waitingFor identifier = 0 := by rw [Session.waitingFor, hstaged]; rfl
  rwa [Session.carriers, Session.carriers, hnone] at hle

/-- The identifier that a run binds to the only line is in use once. -/
theorem minted_unique_oneEdit : ∃ c es, oneLine.driver.session.Reachable ∧ oneLine.driver.session.staged = [] ∧
    Path oneLine es c ∧ (∀ e ∈ es, ¬ e.ChangesDocuments) ∧
    c.driver.session.anchorsOf oneEdit.identifier = 1 ∧
    c.driver.session.anchorsOf oneEdit.identifier + c.driver.session.waitingFor oneEdit.identifier ≤
      max 1 (oneLine.driver.session.anchorsOf oneEdit.identifier) := by
  have hpath := issued_oneRun.snoc completed_oneRun
  have hes : ∀ e ∈ [Event.issued oneRun] ++ [Event.completed oneRun oneText (.ok [oneEdit])], ¬ e.ChangesDocuments := by
    intro e he
    rcases List.mem_append.1 he with he | he
    · rw [List.mem_singleton.1 he]
      exact not_false
    · rw [List.mem_singleton.1 he]
      exact not_false
  have hstaged : oneLine.driver.session.staged = [] := by decide +kernel
  exact ⟨_, _, reachable_oneLine, hstaged, hpath, hes, by decide +kernel,
    minted_unique reachable_oneLine hstaged hpath hes oneEdit.identifier⟩

end Interleaving

end LineTags
