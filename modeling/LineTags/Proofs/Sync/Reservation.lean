import LineTags.Proofs.Script.Modes
import LineTags.Proofs.Sync.Accumulation

/-!
# What is saved and what is reserved

A save writes the files that are not open as they are stored, and of an open one the text that is shown, with the tags of its tracker. The identifiers in use are those of the stored texts, of the trackers and of the entries that wait. So what is saved and not reserved can only stand in a text that is shown: a second tag of a line, which opening leaves there, or one that was typed. Such a tag is always saved, since a line that shows a tag is given no other.

This needs that nothing but words is put on lines, for a tag with other characters could be read as something else. Words are all that scripts have, runs mint and callers are asked to stage.
-/

namespace LineTags

open Text Keyed

/-! ## The identifiers of a script that is put together -/

theorem mem_idsIn {script identifier : Text} :
    identifier ∈ idsIn script ↔ ∃ line ∈ lines script, ∃ m, codeTag? line = some m ∧ m.identifier = identifier := by
  simp [idsIn, List.mem_filterMap, Option.map_eq_some_iff]

/-- A line that has a tag gets no other. -/
theorem tagged_of_codeTag? {line : Text} {m : TagMatch} (hm : codeTag? line = some m) (label? : Option LineId) :
    tagged line label? = line :=
  tagged_of_not_takesTag (fun htakes => by simp [(takesTag_iff.1 htakes).1] at hm) label?

/-- A tag of a line that was put together stood there before, or was put there for its entry. -/
theorem codeTag?_tagged {line : Text} {label? : Option LineId} (hwords : ∀ entry ∈ label?, IsWord entry.identifier)
    {m : TagMatch} (hm : codeTag? (tagged line label?) = some m) :
    codeTag? line = some m ∨ ∃ entry ∈ label?, entry.identifier = m.identifier := by
  cases label? with
  | none => exact .inl hm
  | some entry =>
    rw [tagged] at hm
    split at hm
    · next htakes =>
      obtain ⟨htag, hcode⟩ := takesTag_iff.1 htakes
      exact .inr ⟨entry, rfl, (identifier_of_codeTag?_insertTag hcode htag (hwords entry rfl) hm).symm⟩
    · exact .inl hm

section

variable {clean identifier : Text} {ids : List LineId} (hwords : ∀ entry ∈ ids, IsWord entry.identifier)

include hwords

theorem mem_idsIn_of_mem_reconstruct (h : identifier ∈ idsIn (reconstruct clean ids)) :
    identifier ∈ idsIn clean ∨ ∃ entry ∈ ids, entry.identifier = identifier := by
  obtain ⟨line, hline, m, hm, rfl⟩ := mem_idsIn.1 h
  rw [lines_reconstruct hwords] at hline
  obtain ⟨l, hl, rfl⟩ := List.mem_map.1 hline
  have hentry : ∀ entry ∈ entryFor? ids l.2, entry ∈ ids := fun entry hmem => List.mem_of_find?_eq_some hmem
  rcases codeTag?_tagged (fun entry hmem => hwords entry (hentry entry hmem)) hm with hold | ⟨entry, hmem, hsame⟩
  · exact .inl (mem_idsIn.2 ⟨l.1, List.fst_mem_of_mem_zipIdx hl, m, hold, rfl⟩)
  · exact .inr ⟨entry, hentry entry hmem, hsame⟩

theorem mem_idsIn_reconstruct (h : identifier ∈ idsIn clean) : identifier ∈ idsIn (reconstruct clean ids) := by
  obtain ⟨line, hline, m, hm, rfl⟩ := mem_idsIn.1 h
  obtain ⟨k, hk⟩ := List.mem_iff_getElem?.1 hline
  refine mem_idsIn.2 ⟨line, ?_, m, hm, rfl⟩
  rw [lines_reconstruct hwords]
  refine List.mem_map.2 ⟨(line, 1 + k), ?_, tagged_of_codeTag? hm _⟩
  refine List.mem_iff_getElem?.2 ⟨k, ?_⟩
  rw [List.getElem?_zipIdx, hk, Option.map_some]

end

/-! ## Nothing but words is put on lines -/

namespace Session

variable {β : Type} [LineBuffer β] {s : Session β}

/-- Only words are in use on anchors and wait. -/
def CarriesWords (s : Session β) : Prop := ∀ identifier, ¬IsWord identifier → s.carriers identifier = 0

theorem CarriesWords.isWord (hs : s.CarriesWords) {file : Text} {t : Tracker β} (hdoc : s.document? file = some t)
    {a : LineId} (ha : a ∈ t.associations) : IsWord a.identifier := by
  by_contra hword
  exact carriers_ne_zero_of_mem hdoc ha (hs a.identifier hword)

omit [LineBuffer β] in
/-- A document with no more anchors than the one in whose place it is put adds none. -/
theorem carriers_putDocument_le {file : Text} {t : Tracker β} {identifier : Text}
    (hle : t.anchorsOf identifier ≤ ((s.document? file).map fun t => t.anchorsOf identifier).getD 0) :
    (s.putDocument file t).carriers identifier ≤ s.carriers identifier := by
  have hsum : (s.putDocument file t).anchorsOf identifier + ((s.document? file).map fun t => t.anchorsOf identifier).getD 0 =
      s.anchorsOf identifier + t.anchorsOf identifier :=
    Keyed.sum_put (fun t : Tracker β => t.anchorsOf identifier) file t s.documents
  refine Nat.add_le_add_right ?_ (s.waitingFor identifier)
  omega

theorem anchorsOf_trackerFor_le (s : Session β) (file : Text) (buffer? : Option β) (identifier : Text) :
    (s.trackerFor file buffer?).anchorsOf identifier ≤
      ((s.document? file).map fun t => t.anchorsOf identifier).getD 0 := by
  unfold trackerFor
  split
  · next t hdoc =>
    rw [hdoc]
    exact Nat.le_refl _
  · exact Nat.zero_le _
  · exact Nat.zero_le _

theorem anchorsOf_load_le (t : Tracker β) (file : Option Text) (e : Extraction) (identifier : Text) :
    (t.load file e).anchorsOf identifier ≤ e.ids.countP fun a => a.identifier = identifier := by
  have hle := Tracker.anchorsOf_bindAll_le
    { Tracker.clear { t with buffer := LineBuffer.setText e.clean t.buffer } with file } e.ids identifier
  exact Nat.le_trans hle (Nat.le_of_eq (Nat.zero_add _))

/-- Opening a file brings identifiers into use, and nothing else. -/
theorem carriers_openDocument_le (s : Session β) (file : Text) (content? : Option Text) (buffer? : Option β)
    {identifier : Text} (hid : ¬isIdentifier identifier) :
    (s.openDocument file content? buffer?).2.carriers identifier ≤ s.carriers identifier := by
  have hput : (s.putDocument file (s.trackerFor file buffer?)).carriers identifier ≤ s.carriers identifier :=
    carriers_putDocument_le (s.anchorsOf_trackerFor_le file buffer? identifier)
  unfold openDocument
  dsimp only
  split
  · exact hput
  · next extraction hextraction =>
    have hnone : ((s.trackerFor file buffer?).load file extraction).anchorsOf identifier = 0 := by
      have hle := anchorsOf_load_le (s.trackerFor file buffer?) file extraction identifier
      have hids : (extraction.ids.countP fun a => a.identifier = identifier) = 0 := by
        refine List.countP_eq_zero.2 fun a ha heq => hid ?_
        rw [← of_decide_eq_true heq]
        exact isIdentifier_of_mem_ids_ofScript hextraction ha
      omega
    refine Nat.le_trans (carriers_applyStaged_le _ file identifier) ?_
    refine Nat.le_trans (carriers_putDocument_le ?_) hput
    rw [hnone]
    exact Nat.zero_le _

theorem carriers_closeDocument_le (s : Session β) (file identifier : Text) :
    (s.closeDocument file).carriers identifier ≤ s.carriers identifier := by
  unfold closeDocument
  split
  · exact Nat.le_refl _
  · have hsum := Keyed.sum_remove_le (fun t : Tracker β => t.anchorsOf identifier) file s.documents
    refine Nat.add_le_add_right ?_ (s.waitingFor identifier)
    rw [anchorsOf, anchorsOf]
    dsimp only
    omega

theorem carriers_setActive_le (s : Session β) (file : Text) {identifier : Text} (hid : ¬isIdentifier identifier) :
    (s.setActive file).2.carriers identifier ≤ s.carriers identifier := by
  have hopened := s.carriers_openDocument_le file none none hid
  unfold setActive
  by_cases h : s.isOpen file = true
  · rw [if_pos h]
    exact carriers_applyStaged_le _ file identifier
  · rw [if_neg h]
    split
    · next e r heq =>
      rw [heq] at hopened
      exact hopened
    · next r heq =>
      rw [heq] at hopened
      exact Nat.le_trans (carriers_applyStaged_le _ file identifier) hopened

theorem files_applyStaged (s : Session β) (file : Text) : (s.applyStaged file).files = s.files :=
  applyStaged_induction (P := fun r => r.files = s.files) file rfl fun r w _ hr =>
    (files_applyEdit r file w.edit w.lineText).trans hr

theorem distinct_openDocument (hs : (names s.files).Nodup) (file : Text) (content? : Option Text) (buffer? : Option β) :
    (names (s.openDocument file content? buffer?).2.files).Nodup := by
  unfold openDocument
  dsimp only
  split
  · exact nodup_names_put hs
  · rw [files_applyStaged]
    exact nodup_names_put hs

theorem distinct_closeDocument (hs : (names s.files).Nodup) (file : Text) : (names (s.closeDocument file).files).Nodup := by
  unfold closeDocument
  split
  · exact hs
  · exact nodup_names_put hs

theorem distinct_setActive (hs : (names s.files).Nodup) (file : Text) : (names (s.setActive file).2.files).Nodup := by
  have hopened := distinct_openDocument hs file none none
  unfold setActive
  by_cases h : s.isOpen file = true
  · rw [if_pos h, files_applyStaged]
    exact hs
  · rw [if_neg h]
    split
    · next e r heq =>
      rw [heq] at hopened
      exact hopened
    · next r heq =>
      rw [heq] at hopened
      rw [files_applyStaged]
      exact hopened

variable [LawfulBuffer β] {s' : Session β}

/-- What holds of every session that can be attained. -/
structure Orderly (s : Session β) : Prop where
  sound : s.Sound
  named : s.WellNamed
  distinct : (names s.files).Nodup
  words : s.CarriesWords

theorem Orderly.of_extends (hs : s.Orderly) (h : Extends s s') (hsound : s'.Sound)
    (hcarriers : ∀ identifier, ¬IsWord identifier → s'.carriers identifier ≤ s.carriers identifier) : s'.Orderly where
  sound := hsound
  named := hs.named.of_names_eq h.names fun _ hfile => h.files ▸ hfile
  distinct := h.files ▸ hs.distinct
  words := fun identifier hword => Nat.le_zero.1 (hs.words identifier hword ▸ hcarriers identifier hword)

theorem orderly_ofFiles (files : List (Text × Text)) (mode : ExtractionMode) : (ofFiles files mode : Session β).Orderly where
  sound := (Reachable.ofFiles files mode).sound
  named := (Reachable.ofFiles files mode).wellNamed
  distinct := nodup_names_ofList files
  words := fun _ _ => rfl

theorem Orderly.stage (hs : s.Orderly) {e : IdEdit} (he : IsWord e.identifier) (lineText : Text) :
    (s.stage e lineText).2.Orderly := by
  refine hs.of_extends (extends_stage s e lineText) (sound_stage hs.sound e lineText) fun identifier hword => ?_
  have hle := waitingFor_stage_le s e lineText identifier
  have hother : e.identifier ≠ identifier := fun heq => hword (heq ▸ he)
  rw [if_neg hother] at hle
  have hanchors : (s.stage e lineText).2.anchorsOf identifier = s.anchorsOf identifier := by
    rw [anchorsOf, documents_stage, anchorsOf]
  rw [carriers, carriers]
  omega

theorem Orderly.tidy (hs : s.Orderly) : s.tidy.Orderly :=
  hs.of_extends (extends_tidy hs.sound) (sound_tidy hs.sound) fun identifier _ => s.carriers_tidy_le identifier

theorem Orderly.edited (hs : s.Orderly) {file : Text} {t t' : Tracker β} (hdoc : s.document? file = some t)
    (h : t.Edited t') : (s.putDocument file t').Orderly where
  sound := sound_putDocument hs.sound file (h.sound (hs.sound.of_document? hdoc))
  named := hs.named.putDocument hdoc t'
  distinct := hs.distinct
  words := fun identifier hword => (carriers_putDocument_of_bound_eq hdoc h.bound_eq identifier).trans (hs.words identifier hword)

theorem Orderly.openDocument (hs : s.Orderly) (file : Text) (content? : Option Text) {buffer? : Option β}
    (hbuffer : ∀ b ∈ buffer?, LawfulBuffer.Sound b) : (s.openDocument file content? buffer?).2.Orderly where
  sound := sound_openDocument hs.sound file content? buffer? hbuffer
  named := hs.named.openDocument file content? buffer?
  distinct := distinct_openDocument hs.distinct file content? buffer?
  words := fun identifier hword => by
    have hle := s.carriers_openDocument_le file content? buffer? (mt isWord_of_isIdentifier hword)
    rwa [hs.words identifier hword, Nat.le_zero] at hle

theorem Orderly.closeDocument (hs : s.Orderly) (file : Text) : (s.closeDocument file).Orderly where
  sound := sound_closeDocument hs.sound file
  named := hs.named.closeDocument file
  distinct := distinct_closeDocument hs.distinct file
  words := fun identifier hword => by
    have hle := s.carriers_closeDocument_le file identifier
    rwa [hs.words identifier hword, Nat.le_zero] at hle

theorem Orderly.setActive (hs : s.Orderly) (file : Text) : (s.setActive file).2.Orderly where
  sound := sound_setActive hs.sound file
  named := hs.named.setActive file
  distinct := distinct_setActive hs.distinct file
  words := fun identifier hword => by
    have hle := s.carriers_setActive_le file (mt isWord_of_isIdentifier hword)
    rwa [hs.words identifier hword, Nat.le_zero] at hle

/-! ## What is saved and not reserved -/

/-- All tags in the text that is shown of a file are reserved. A file that is not open shows none. -/
def ShowsReserved (s : Session β) (file : Text) : Prop :=
  ∀ t, s.document? file = some t → ∀ identifier ∈ idsIn t.text, identifier ∈ s.existingIds

/-- What a save writes and nothing reserves are the tags of the text that is shown. -/
theorem Orderly.mem_idsIn_saved_iff (hs : s.Orderly) {f : Text × Text} (hf : f ∈ s.projectFiles) {identifier : Text}
    (hfree : identifier ∉ s.existingIds) :
    identifier ∈ idsIn f.2 ↔ ∃ t, s.document? f.1 = some t ∧ identifier ∈ idsIn t.text := by
  have hnodup : (names s.projectFiles).Nodup := by
    rw [names_projectFiles hs.named]
    exact hs.distinct
  have hsaved : s.projectFiles.lookup f.1 = some f.2 := lookup_of_mem hnodup hf
  rw [lookup_projectFiles hs.named] at hsaved
  rw [mem_existingIds, not_or, not_or] at hfree
  obtain ⟨hstored, hshown, -⟩ := hfree
  cases hdoc : s.document? f.1 with
  | none =>
    rw [hdoc, Option.map_none, Option.none_or] at hsaved
    have hclosed : s.isOpen f.1 = false := by rw [isOpen, hdoc, Option.isSome_none]
    have hnot : identifier ∉ idsIn f.2 := fun hid => hstored ⟨f, mem_of_lookup hsaved, hclosed, hid⟩
    simp [hnot]
  | some t =>
    rw [hdoc, Option.map_some, Option.some_or, Option.some.injEq, Tracker.fullContent] at hsaved
    have hwords : ∀ a ∈ t.associations, IsWord a.identifier := fun a ha => hs.words.isWord hdoc ha
    rw [← hsaved]
    constructor
    · intro hid
      rcases mem_idsIn_of_mem_reconstruct hwords hid with hid | ⟨a, ha, rfl⟩
      · exact ⟨t, rfl, hid⟩
      · exact absurd ⟨_, mem_of_lookup hdoc, List.mem_map_of_mem ha⟩ hshown
    · rintro ⟨t', hsame, hid⟩
      rw [← Option.some.inj hsame] at hid
      exact mem_idsIn_reconstruct hwords hid

end Session

/-! ## All that can be attained -/

namespace Interleaving

variable {β : Type} [LineBuffer β] [LawfulBuffer β] {c c' : Interleaving β} {e : Event} {d : TagDriver β} {s : Session β}
  {g : Generator}

/-- What a driver and its session can become: from files in any mode and a generator of any kind, by all steps of an interleaving, by questions about identifiers, and by words that a caller stages. What is compiled has names that a script can have. -/
inductive Attained : Interleaving β → Prop
  | start (files : List (Text × Text)) (mode : ExtractionMode) (generator : Generator) (debounce : Int) :
    Attained { driver := { session := .ofFiles files mode, generator, debounce } }
  | step {c c' : Interleaving β} {e : Event} : Attained c → Step c e c' → e.ValidNames → Attained c'
  | asked {c : Interleaving β} : Attained c → Attained (c.withSession c.driver.session.tidy)
  | staged {c : Interleaving β} {e : IdEdit} (lineText : Text) : Attained c → IsWord e.identifier →
    Attained (c.withSession (c.driver.session.stage e lineText).2)

omit [LawfulBuffer β] in
/-- A run puts nothing to use that is not a word. -/
theorem carriers_delivered_le_of_not_isWord {run : Run} {story : Story} (hstory : (Compiled.story story).ValidNames)
    {identifier : Text} (hword : ¬IsWord identifier) :
    (d.delivered run story).session.carriers identifier ≤ d.session.carriers identifier := by
  have hdelivered : (d.delivered run story).session.carriers identifier ≤ d.session.tidy.carriers identifier +
      (d.generator.run d.session.existingIds story.root).1.edits.countP fun e => e.identifier = identifier :=
    TagDriver.carriers_deliverAll_le run (d.generator.run d.session.existingIds story.root).1.edits d.session.tidy identifier
  have hnone : ((d.generator.run d.session.existingIds story.root).1.edits.countP
      fun e => e.identifier = identifier) = 0 := by
    refine List.countP_eq_zero.2 fun e he heq => hword ?_
    rw [← of_decide_eq_true heq]
    exact Generator.isWord_of_mem_run hstory he
  have htidy := d.session.carriers_tidy_le identifier
  omega

theorem Effect.orderly (h : Effect d e s g) (hd : d.session.Orderly) (he : e.ValidNames) : s.Orderly := by
  cases h with
  | nothing => exact hd
  | tidied => exact hd.tidy
  | @delivered run story answer =>
    exact hd.of_extends (TagDriver.extends_delivered hd.sound run story) (TagDriver.sound_delivered hd.sound run story)
      fun identifier hword => carriers_delivered_le_of_not_isWord he hword
  | edited hdoc hedited => exact hd.edited hdoc hedited
  | activated hopen => exact hd.setActive _
  | activatedUnopened => exact hd.setActive _
  | opened hbuffer => exact hd.openDocument _ _ hbuffer
  | closed => exact hd.closeDocument _

theorem Attained.orderly (h : Attained c) : c.driver.session.Orderly := by
  induction h with
  | start files mode generator debounce => exact Session.orderly_ofFiles files mode
  | step _ hstep hnames ih => exact hstep.effect.orderly ih hnames
  | asked _ ih => exact ih.tidy
  | staged lineText _ hword ih => exact ih.stage hword lineText

/-- A save writes only reserved identifiers for a file exactly if all tags in the text that is shown of it are reserved. No run can then mint an identifier that is saved. -/
theorem Attained.reserved_iff (h : Attained c) {f : Text × Text} (hf : f ∈ c.driver.session.projectFiles) :
    ((∀ identifier ∈ idsIn f.2, identifier ∈ c.driver.session.existingIds) ↔ c.driver.session.ShowsReserved f.1) ∧
      (c.driver.session.ShowsReserved f.1 → ∀ root,
        ∀ edit ∈ (c.driver.generator.run c.driver.session.existingIds root).1.edits, edit.identifier ∉ idsIn f.2) := by
  have hiff : (∀ identifier ∈ idsIn f.2, identifier ∈ c.driver.session.existingIds) ↔
      c.driver.session.ShowsReserved f.1 := by
    constructor
    · intro hall t hdoc identifier hid
      by_contra hfree
      exact hfree (hall identifier ((h.orderly.mem_idsIn_saved_iff hf hfree).2 ⟨t, hdoc, hid⟩))
    · intro hshown identifier hid
      by_contra hfree
      obtain ⟨t, hdoc, hvisible⟩ := (h.orderly.mem_idsIn_saved_iff hf hfree).1 hid
      exact hfree (hshown t hdoc identifier hvisible)
  refine ⟨hiff, fun hshown root edit hedit hid => ?_⟩
  exact (Generator.minted_run c.driver.generator c.driver.session.existingIds root).fresh edit hedit
    (hiff.2 hshown edit.identifier hid)

/-! ## A line with two tags -/

/-- A driver for some scripts, the first of which is open. -/
def opening (files : List (Text × Text)) (draws : List Int) : Interleaving MemoryBuffer where
  driver :=
    { session := (Session.openDocument (.ofFiles files {}) "a.ink".toList none none).2
      generator := { source := ⟨.cycle draws, 0⟩ }
      debounce := 1 }

theorem attained_opening (files : List (Text × Text)) (draws : List Int) : Attained (opening files draws) :=
  .step (.start files {} { source := ⟨.cycle draws, 0⟩ } 1)
    (.openDocument "a.ink".toList none none fun _ h => absurd h (Option.not_mem_none _)) trivial

/-- The second tag of the line is shown, and reserved because another script has it too. -/
theorem reserved_iff_sameTagTwice :
    let c := opening [("a.ink".toList, "x #id:AAAA #id:BBBB".toList), ("b.ink".toList, "y #id:BBBB".toList)] [0]
    let f := ("a.ink".toList, "x #id:BBBB".toList)
    Attained c ∧ f ∈ c.driver.session.projectFiles ∧ c.driver.session.ShowsReserved f.1 ∧
      (∀ identifier ∈ idsIn f.2, identifier ∈ c.driver.session.existingIds) ∧
      ∀ root, ∀ edit ∈ (c.driver.generator.run c.driver.session.existingIds root).1.edits, edit.identifier ∉ idsIn f.2 := by
  intro c f
  have hattained : Attained c := attained_opening _ _
  have hsaved : f ∈ c.driver.session.projectFiles := by decide +kernel
  obtain ⟨hiff, hminted⟩ := hattained.reserved_iff hsaved
  have hreserved : ∀ identifier ∈ idsIn f.2, identifier ∈ c.driver.session.existingIds := by decide +kernel
  exact ⟨hattained, hsaved, hiff.1 hreserved, hreserved, hminted (hiff.1 hreserved)⟩

/-- The second tag of a line is shown and saved, but it is not reserved, and a run mints it for another line. -/
theorem not_reserved_twoTags :
    ∃ c : Interleaving MemoryBuffer, Attained c ∧ c.driver.session.mode = {} ∧
      ("a.ink".toList, "x #id:BBBB".toList) ∈ c.driver.session.projectFiles ∧
      "BBBB".toList ∈ idsIn "x #id:BBBB".toList ∧ "BBBB".toList ∉ c.driver.session.existingIds ∧
      (c.driver.generator.run c.driver.session.existingIds (.text ['y'] (some ⟨some "b.ink".toList, 1⟩))).1.edits =
        [⟨some "b.ink".toList, 1, ['y'], "BBBB".toList⟩] :=
  ⟨opening [("a.ink".toList, "x #id:AAAA #id:BBBB".toList)] [1], attained_opening _ _, by decide +kernel, by decide +kernel,
    by decide, by decide +kernel, by decide +kernel⟩

end Interleaving

end LineTags
