import LineTags.Sync.Basic
import LineTags.Proofs.Session.Delivery

/-!
# What one run does

A run does something twice. When it is issued, it takes a number no run had before and notes down how every line reads. When its compiling has ended, it either leaves the session as it is, or it still counts and delivers new identifiers one by one, each to a line that reads as was noted.
-/

namespace LineTags.TagDriver

open LineBuffer Session

variable {β : Type} [LineBuffer β] {d d' : TagDriver β} {run : Run} {s : Session β}

/-! ## Issuing -/

/-- The names of all project files are those of the stored ones and of the documents. -/
theorem mem_names_projectFiles (s : Session β) (file : Text) :
    file ∈ Keyed.names s.projectFiles ↔ file ∈ Keyed.names s.files ∨ file ∈ Keyed.names s.documents := by
  have hfold : ∀ (documents : List (Text × Tracker β)) (files : List (Text × Text)),
      file ∈ Keyed.names (documents.foldl (fun files d => Keyed.put d.1 d.2.fullContent files) files) ↔
        file ∈ Keyed.names files ∨ file ∈ Keyed.names documents := by
    intro documents
    induction documents with
    | nil =>
      intro files
      exact (or_iff_left List.not_mem_nil).symm
    | cons d r ih =>
      intro files
      rw [List.foldl_cons, ih, Keyed.mem_names_put, Keyed.names, Keyed.names, Keyed.names, List.map_cons, List.mem_cons]
      rw [or_comm (a := file = d.1), or_assoc]
  exact hfold s.documents s.files

/-- What is known of a run when it is issued: the session is asked about its identifiers, which tidies it, and the run notes how the lines of its file read. -/
structure Issued (d : TagDriver β) (run : Run) (d' : TagDriver β) : Prop where
  active : d.session.active = some run.file
  snapshot : ∃ t, d.session.document? run.file = some t ∧ run.snapshot.lookup run.file = some (Text.lines t.text)
  token : run.token = d.issued + 1
  after : d' = { d with session := d.session.tidy, issued := d.issued + 1, phase := .tagging, lastResult := none }

theorem startRun_issued (h : d.startRun = (some run, d')) : Issued d run d' := by
  unfold startRun at h
  cases hactive : d.session.activeDocument? with
  | none =>
    rw [hactive] at h
    cases h
  | some p =>
    obtain ⟨file, t⟩ := p
    rw [hactive] at h
    dsimp only at h
    obtain ⟨hrun, hd⟩ := Prod.mk.inj h
    obtain rfl := Option.some.inj hrun
    obtain ⟨file', hfile, hdoc⟩ := Option.bind_eq_some_iff.1 hactive
    obtain ⟨t', ht', heq⟩ := Option.map_eq_some_iff.1 hdoc
    obtain ⟨rfl, rfl⟩ := Prod.mk.inj heq
    refine ⟨hfile, ⟨t', ht', ?_⟩, rfl, hd.symm⟩
    have hname : file' ∈ Keyed.names d.session.projectFiles := by
      rw [mem_names_projectFiles]
      exact .inr (List.mem_map_of_mem (f := Prod.fst) (Keyed.mem_of_lookup ht'))
    refine (Keyed.lookup_ofList_map d.session.linesOf _ file').trans ?_
    rw [if_pos hname, linesOf, ht']

theorem exists_startRun (h : d.session.activeDocument?.isSome = true) : ∃ run d', d.startRun = (some run, d') := by
  obtain ⟨p, hactive⟩ := Option.isSome_iff_exists.1 h
  unfold startRun
  rw [hactive]
  exact ⟨_, _, rfl⟩

theorem startRun_none (h : d.startRun = (none, d')) : d' = d := by
  unfold startRun at h
  cases hactive : d.session.activeDocument? with
  | none =>
    rw [hactive] at h
    exact (Prod.mk.inj h).2.symm
  | some p =>
    rw [hactive] at h
    cases h

omit [LineBuffer β] in
theorem phase_supersede_ne_tagging (d : TagDriver β) : d.supersede.phase ≠ .tagging := by
  show (if d.phase = .tagging then Phase.stale else d.phase) ≠ .tagging
  split
  · exact nofun
  · assumption

/-! ## Delivering -/

theorem deliver_cases (run : Run) (e : IdEdit) (s : Session β) :
    deliver run e s = (false, s) ∨
    (∃ expected, expectedLine? run e = some expected ∧ e.file = some run.file ∧
      deliver run e s = s.applyEdit run.file e expected) ∨
    ∃ expected, expectedLine? run e = some expected ∧ deliver run e s = (false, (s.stage e expected).2) := by
  unfold deliver
  cases hexpected : expectedLine? run e with
  | none => exact .inl rfl
  | some expected =>
    dsimp only
    by_cases hfile : e.file = some run.file
    · rw [if_pos hfile]
      exact .inr (.inl ⟨expected, rfl, hfile, rfl⟩)
    · rw [if_neg hfile]
      exact .inr (.inr ⟨expected, rfl, rfl⟩)

theorem deliverAll_cons (run : Run) (e : IdEdit) (es : List IdEdit) (s : Session β) :
    deliverAll run (e :: es) s =
      ((if (deliver run e s).1 then e :: (deliverAll run es (deliver run e s).2).1
        else (deliverAll run es (deliver run e s).2).1), (deliverAll run es (deliver run e s).2).2) := rfl

/-- One new identifier is in use at most once more afterwards. -/
theorem carriers_deliver_le (run : Run) (e : IdEdit) (s : Session β) (identifier : Text) :
    (deliver run e s).2.anchorsOf identifier + (deliver run e s).2.waitingFor identifier ≤
      s.anchorsOf identifier + s.waitingFor identifier + if e.identifier = identifier then 1 else 0 := by
  obtain h | ⟨expected, -, -, h⟩ | ⟨expected, -, h⟩ := deliver_cases run e s
  · rw [h]
    exact Nat.le_add_right _ _
  · have hanchors := anchorsOf_applyEdit_le s run.file e expected identifier
    rw [h]
    simp only [waitingFor, staged_applyEdit]
    omega
  · have hwaiting := waitingFor_stage_le s e expected identifier
    rw [h]
    simp only [anchorsOf, documents_stage]
    omega

theorem carriers_deliverAll_le (run : Run) (es : List IdEdit) (s : Session β) (identifier : Text) :
    (deliverAll run es s).2.anchorsOf identifier + (deliverAll run es s).2.waitingFor identifier ≤
      s.anchorsOf identifier + s.waitingFor identifier + es.countP fun e => e.identifier = identifier := by
  induction es generalizing s with
  | nil => exact Nat.le_refl _
  | cons e es ih =>
    have hhead := carriers_deliver_le run e s identifier
    have htail := ih (deliver run e s).2
    rw [deliverAll_cons, List.countP_cons]
    simp only [decide_eq_true_eq]
    omega

variable [LawfulBuffer β]

theorem sound_deliver (hs : s.Sound) (run : Run) (e : IdEdit) : (deliver run e s).2.Sound := by
  obtain h | ⟨expected, -, -, h⟩ | ⟨expected, -, h⟩ := deliver_cases run e s
  · rwa [h]
  · rw [h]
    exact sound_applyEdit hs run.file e expected
  · rw [h]
    exact sound_stage hs e expected

theorem sound_deliverAll (hs : s.Sound) (run : Run) (es : List IdEdit) : (deliverAll run es s).2.Sound := by
  induction es generalizing s with
  | nil => exact hs
  | cons e es ih => exact ih (sound_deliver hs run e)

theorem steady_deliver (run : Run) (e : IdEdit) (s : Session β) : Steady s (deliver run e s).2 := by
  obtain h | ⟨expected, -, -, h⟩ | ⟨expected, -, h⟩ := deliver_cases run e s
  · rw [h]
    exact Steady.refl s
  · rw [h]
    exact steady_applyEdit s run.file e expected
  · rw [h]
    exact steady_stage s e expected

theorem steady_deliverAll (run : Run) (es : List IdEdit) (s : Session β) : Steady s (deliverAll run es s).2 := by
  induction es generalizing s with
  | nil => exact Steady.refl s
  | cons e es ih => exact (steady_deliver run e s).trans (ih _)

theorem mem_idsOf_deliver (hs : s.Sound) (run : Run) (e : IdEdit) (file : Text) (x : LineId) :
    x ∈ (deliver run e s).2.idsOf file ↔
      x ∈ s.idsOf file ∨ ((deliver run e s).1 = true ∧ file = run.file ∧ x = ⟨e.line, e.identifier⟩) := by
  obtain h | ⟨expected, -, -, h⟩ | ⟨expected, -, h⟩ := deliver_cases run e s
  · rw [h]
    simp only [Bool.false_eq_true, false_and, or_false]
  · rw [h]
    exact mem_idsOf_applyEdit hs run.file e expected file x
  · rw [h, idsOf_stage]
    simp only [Bool.false_eq_true, false_and, or_false]

/-- The session says of the lines what it said before, and what was bound. -/
theorem mem_idsOf_deliverAll (hs : s.Sound) (run : Run) (es : List IdEdit) (file : Text) (x : LineId) :
    x ∈ (deliverAll run es s).2.idsOf file ↔
      x ∈ s.idsOf file ∨ (file = run.file ∧ ∃ e ∈ (deliverAll run es s).1, x = ⟨e.line, e.identifier⟩) := by
  induction es generalizing s with
  | nil =>
    refine (or_iff_left ?_).symm
    rintro ⟨-, e, he, -⟩
    cases he
  | cons e es ih =>
    rw [deliverAll_cons, ih (sound_deliver hs run e), mem_idsOf_deliver hs, or_assoc]
    refine or_congr_right ?_
    dsimp only
    by_cases hbound : (deliver run e s).1 = true
    · rw [if_pos hbound]
      simp only [hbound, true_and, List.exists_mem_cons_iff, and_or_left]
    · rw [if_neg hbound]
      simp only [hbound, Bool.false_eq_true, false_and, false_or]

omit [LawfulBuffer β] in
/-- What was bound was applied when those before it had been delivered. -/
theorem exists_applyEdit_of_mem_deliverAll {es : List IdEdit} {e : IdEdit} (he : e ∈ (deliverAll run es s).1) :
    ∃ before after expected, es = before ++ e :: after ∧ e.file = some run.file ∧ expectedLine? run e = some expected ∧
      ((deliverAll run before s).2.applyEdit run.file e expected).1 = true := by
  induction es generalizing s with
  | nil => cases he
  | cons first es ih =>
    have htail : e ∈ (deliverAll run es (deliver run first s).2).1 →
        ∃ before after expected, first :: es = before ++ e :: after ∧ e.file = some run.file ∧
          expectedLine? run e = some expected ∧ ((deliverAll run before s).2.applyEdit run.file e expected).1 = true := by
      intro he
      obtain ⟨before, after, expected, rfl, hfile, hnoted, hbound⟩ := ih he
      exact ⟨first :: before, after, expected, rfl, hfile, hnoted, hbound⟩
    rw [deliverAll_cons] at he
    by_cases hbound : (deliver run first s).1 = true
    · rw [if_pos hbound] at he
      rcases List.mem_cons.1 he with rfl | he
      · obtain h | ⟨expected, hnoted, hfile, h⟩ | ⟨expected, -, h⟩ := deliver_cases run e s
        · rw [h] at hbound
          cases hbound
        · rw [h] at hbound
          exact ⟨[], es, expected, rfl, hfile, hnoted, hbound⟩
        · rw [h] at hbound
          cases hbound
      · exact htail he
    · rw [if_neg hbound] at he
      exact htail he

/-- What was bound is for the file of the run, and went to lines that read as was noted. -/
theorem reads_of_mem_deliverAll {es : List IdEdit} {e : IdEdit} (he : e ∈ (deliverAll run es s).1) :
    e.file = some run.file ∧ ∃ l, expectedLine? run e = some l ∧ s.Reads run.file e.line l := by
  obtain ⟨before, after, expected, -, hfile, hnoted, hbound⟩ := exists_applyEdit_of_mem_deliverAll he
  refine ⟨hfile, expected, hnoted, ?_⟩
  exact ((steady_deliverAll run before s).reads_iff run.file e.line expected).1 (line?_of_applyEdit hbound)

omit [LawfulBuffer β] in
/-- What was noted of a line of the run's file is how it read when the run was issued. -/
theorem Issued.reads (h : Issued d run d') {e : IdEdit} {l : Text} (hfile : e.file = some run.file)
    (hnoted : expectedLine? run e = some l) : d.session.Reads run.file e.line l := by
  obtain ⟨t, hdoc, hsnapshot⟩ := h.snapshot
  rw [expectedLine?, hfile, Option.bind_some, hsnapshot, Option.bind_some] at hnoted
  exact ⟨t, hdoc, (Text.line?_eq_getElem? _ _).trans hnoted⟩

omit [LawfulBuffer β] in
/-- When a run is issued the session is tidied, and says of the lines what it said. -/
theorem Issued.session_eq (h : Issued d run d') : d'.session = d.session.tidy := by rw [h.after]

theorem Issued.steady (h : Issued d run d') : Steady d.session d'.session := by
  rw [h.session_eq]
  exact steady_tidy d.session

theorem Issued.sound (h : Issued d run d') (hs : d.session.Sound) : d'.session.Sound := by
  rw [h.session_eq]
  exact sound_tidy hs

theorem Issued.mem_idsOf (h : Issued d run d') (hs : d.session.Sound) (file : Text) (x : LineId) :
    x ∈ d'.session.idsOf file ↔ x ∈ d.session.idsOf file := by
  rw [h.session_eq]
  exact mem_idsOf_tidy hs file x

/-! ## Completion -/

/-- What a run answers that delivers nothing. -/
def emptyAnswer : Compiled → Except CompileFailure (List IdEdit)
  | .failed e => .error e
  | _ => .ok []

/-- The driver after a run that has delivered the identifiers minted for a story. -/
def delivered (d : TagDriver β) (run : Run) (story : Story) : TagDriver β :=
  let minted := d.generator.run d.session.existingIds story.root
  { d with
    session := (deliverAll run minted.1.edits d.session.tidy).2
    generator := minted.2
    phase := .idle
    lastResult := some minted.1 }

theorem sound_delivered (hs : d.session.Sound) (run : Run) (story : Story) : (d.delivered run story).session.Sound :=
  sound_deliverAll (sound_tidy hs) run _

theorem steady_delivered (d : TagDriver β) (run : Run) (story : Story) : Steady d.session (d.delivered run story).session :=
  (steady_tidy d.session).trans (steady_deliverAll run _ d.session.tidy)

theorem mem_idsOf_delivered (hs : d.session.Sound) (run : Run) (story : Story) (file : Text) (x : LineId) :
    x ∈ (d.delivered run story).session.idsOf file ↔ x ∈ d.session.idsOf file ∨
      (file = run.file ∧ ∃ e ∈ (deliverAll run (d.generator.run d.session.existingIds story.root).1.edits d.session.tidy).1,
        x = ⟨e.line, e.identifier⟩) := by
  rw [← mem_idsOf_tidy hs]
  exact mem_idsOf_deliverAll (sound_tidy hs) run _ file x

omit [LawfulBuffer β] in
/-- A run whose compiling has ended either answers without effect, but for the phase, or counts and delivers. -/
theorem finishRun_cases (run : Run) (outcome : Compiled) (d : TagDriver β) :
    (∃ phase, (phase = d.phase ∨ phase = .idle) ∧
      d.finishRun run outcome = (emptyAnswer outcome, { d with phase })) ∨
    ∃ story, outcome = .story story ∧ d.isCurrent run = true ∧
      d.finishRun run outcome =
        (.ok (deliverAll run (d.generator.run d.session.existingIds story.root).1.edits d.session.tidy).1,
          d.delivered run story) := by
  have hidle : ∀ p : Prop, [Decidable p] → ∃ phase, (phase = d.phase ∨ phase = .idle) ∧
      (if p then { d with phase := .idle } else d) = { d with phase } := by
    intro p _
    by_cases h : p
    · exact ⟨.idle, .inr rfl, if_pos h⟩
    · exact ⟨d.phase, .inl rfl, if_neg h⟩
  unfold finishRun
  cases outcome with
  | failed e =>
    obtain ⟨phase, hphase, heq⟩ := hidle (run.token = d.issued)
    exact .inl ⟨phase, hphase, by dsimp only; rw [heq]; rfl⟩
  | nothing =>
    dsimp only
    by_cases hcurrent : d.isCurrent run = true
    · rw [if_pos hcurrent]
      exact .inl ⟨.idle, .inr rfl, rfl⟩
    · obtain ⟨phase, hphase, heq⟩ := hidle (run.token = d.issued ∧ d.phase = .tagging)
      rw [if_neg hcurrent, heq]
      exact .inl ⟨phase, hphase, rfl⟩
  | story story =>
    dsimp only
    by_cases hcurrent : d.isCurrent run = true
    · rw [if_pos hcurrent]
      exact .inr ⟨story, rfl, hcurrent, rfl⟩
    · obtain ⟨phase, hphase, heq⟩ := hidle (run.token = d.issued ∧ d.phase = .tagging)
      rw [if_neg hcurrent, heq]
      exact .inl ⟨phase, hphase, rfl⟩

omit [LineBuffer β] [LawfulBuffer β] in
theorem isCurrent_iff : d.isCurrent run = true ↔
    run.token = d.issued ∧ d.phase = .tagging ∧ d.session.active = some run.file := by
  rw [isCurrent, Bool.and_eq_true, Bool.and_eq_true, decide_eq_true_iff, decide_eq_true_iff, decide_eq_true_iff, and_assoc]

end LineTags.TagDriver
