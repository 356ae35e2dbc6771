import LineTags.Proofs.Session.Tracking
import LineTags.Proofs.Session.Typing
import LineTags.Proofs.Text.Order

/-!
# Questions about identifiers

A session is asked three things about identifiers: which are in use, which stand on several lines, and where one stands first. Each question has a way of its own through the files that are open and those that are not, and on its way tidies some of the trackers. All answers can nonetheless be read off one list, that of the tagged lines, with the files by code points and the lines of a file in order; only what waits for a file is in use without standing on a line. And since tidying moves no identifier, no question changes the answer to another, or to itself.
-/

namespace LineTags

open Keyed

namespace Session

variable {β : Type} [LineBuffer β] {s s' s'' : Session β}

/-! ## The list of tagged lines -/

omit [LineBuffer β] in
theorem mem_fileNames {file : Text} : file ∈ s.fileNames ↔ file ∈ names s.files ∨ file ∈ names s.documents := by
  rw [fileNames, (Text.sortedSet_spec _).2, List.mem_append]

theorem mem_taggedLines {file : Text} {a : LineId} :
    (file, a) ∈ s.taggedLines ↔ (file ∈ names s.files ∨ file ∈ names s.documents) ∧ a ∈ s.idsOf file := by
  rw [taggedLines, List.mem_flatMap]
  constructor
  · rintro ⟨other, hother, hmem⟩
    obtain ⟨a', ha', heq⟩ := List.mem_map.1 hmem
    obtain ⟨rfl, rfl⟩ := Prod.mk.inj heq
    exact ⟨mem_fileNames.1 hother, ha'⟩
  · rintro ⟨hfile, ha⟩
    exact ⟨file, mem_fileNames.2 hfile, List.mem_map_of_mem ha⟩

theorem pairwise_idsOf (s : Session β) (file : Text) : (s.idsOf file).Pairwise fun a a' => a.line < a'.line := by
  unfold idsOf
  split
  · exact Tracker.pairwise_associations _
  · exact pairwise_ids_extract _

theorem pairwise_taggedLines (s : Session β) :
    s.taggedLines.Pairwise fun p q => p.1 < q.1 ∨ p.1 = q.1 ∧ p.2.line < q.2.line := by
  refine List.pairwise_flatMap.2 ⟨fun file _ => ?_, ?_⟩
  · exact List.pairwise_map.2 ((pairwise_idsOf s file).imp fun h => .inr ⟨rfl, h⟩)
  · refine (Text.sortedSet_spec _).1.imp fun {file other} hlt p hp q hq => .inl ?_
    obtain ⟨_, -, rfl⟩ := List.mem_map.1 hp
    obtain ⟨_, -, rfl⟩ := List.mem_map.1 hq
    exact hlt

/-- The places of one identifier among tagged lines. -/
def placesIn (identifier : Text) (tagged : List (Text × LineId)) : List (Text × Int) :=
  (tagged.filter fun p => p.2.identifier == identifier).map fun p => (p.1, p.2.line)

/-- All lines that carry an identifier, in the order of the list. -/
def placesOf (s : Session β) (identifier : Text) : List (Text × Int) := placesIn identifier s.taggedLines

omit [LineBuffer β] in
theorem placesIn_cons (identifier : Text) (file : Text) (a : LineId) (tagged : List (Text × LineId)) :
    placesIn identifier ((file, a) :: tagged) =
      (if a.identifier = identifier then [(file, a.line)] else []) ++ placesIn identifier tagged := by
  rw [placesIn, List.filter_cons]
  by_cases h : a.identifier = identifier
  · rw [if_pos h, if_pos (beq_iff_eq.2 h)]
    rfl
  · rw [if_neg h, if_neg fun heq => h (beq_iff_eq.1 heq)]
    rfl

theorem placesOf_ne_nil_iff {identifier : Text} :
    s.placesOf identifier ≠ [] ↔ ∃ file a, (file, a) ∈ s.taggedLines ∧ a.identifier = identifier := by
  rw [placesOf, placesIn, ne_eq, List.map_eq_nil_iff, List.filter_eq_nil_iff]
  simp

/-! ## Identifiers on several lines -/

/-- Notes one more tagged line in a table of the places of each identifier. -/
def note (places : List (Text × List (Text × Int))) (p : Text × LineId) : List (Text × List (Text × Int)) :=
  put p.2.identifier ((places.lookup p.2.identifier).getD [] ++ [(p.1, p.2.line)]) places

theorem placesById_eq (s : Session β) : s.placesById = s.taggedLines.foldl note [] := rfl

omit [LineBuffer β] in
theorem lookup_foldl_note (identifier : Text) (tagged : List (Text × LineId)) (places : List (Text × List (Text × Int))) :
    ((tagged.foldl note places).lookup identifier).getD [] = (places.lookup identifier).getD [] ++ placesIn identifier tagged := by
  induction tagged generalizing places with
  | nil => exact (List.append_nil _).symm
  | cons p tagged ih =>
    rw [List.foldl_cons, ih, note, lookup_put, placesIn_cons, ← List.append_assoc]
    by_cases h : p.2.identifier = identifier
    · rw [if_pos h.symm, if_pos h, Option.getD_some, h]
    · rw [if_neg (Ne.symm h), if_neg h, List.append_nil]

omit [LineBuffer β] in
theorem nodup_names_foldl_note (tagged : List (Text × LineId)) {places : List (Text × List (Text × Int))}
    (h : (names places).Nodup) : (names (tagged.foldl note places)).Nodup := by
  induction tagged generalizing places with
  | nil => exact h
  | cons p tagged ih => exact ih (nodup_names_put h)

theorem nodup_names_placesById (s : Session β) : (names s.placesById).Nodup :=
  nodup_names_foldl_note s.taggedLines List.nodup_nil

theorem nodup_names_duplicates (s : Session β) : (names s.duplicates).Nodup :=
  (nodup_names_placesById s).sublist (List.filter_sublist.map Prod.fst)

theorem getD_lookup_placesById (s : Session β) (identifier : Text) :
    (s.placesById.lookup identifier).getD [] = s.placesOf identifier :=
  (lookup_foldl_note identifier s.taggedLines []).trans (List.nil_append _)

theorem mem_duplicates {identifier : Text} {places : List (Text × Int)} :
    (identifier, places) ∈ s.duplicates ↔ places = s.placesOf identifier ∧ 2 ≤ places.length := by
  rw [duplicates, List.mem_filter, decide_eq_true_iff, ← getD_lookup_placesById]
  refine and_congr_left fun hlength => ⟨fun hmem => ?_, fun heq => ?_⟩
  · rw [lookup_of_mem (nodup_names_placesById s) hmem]
    rfl
  · cases hlookup : s.placesById.lookup identifier with
    | none =>
      rw [hlookup] at heq
      subst heq
      cases hlength
    | some noted =>
      rw [hlookup] at heq
      subst heq
      exact mem_of_lookup hlookup

/-! ## Identifiers in use -/

omit [LineBuffer β] in
theorem isOpen_iff {file : Text} : s.isOpen file = true ↔ file ∈ names s.documents := lookup_isSome_iff

theorem idsOf_of_closed (hnodup : (names s.files).Nodup) {f : Text × Text} (hf : f ∈ s.files) (hclosed : s.isOpen f.1 = false) :
    s.idsOf f.1 = (extract f.2).ids := by
  have hdoc : s.document? f.1 = none := Option.isNone_iff_eq_none.1 (Option.isSome_eq_false_iff.1 hclosed)
  rw [idsOf, hdoc, stored, lookup_of_mem hnodup hf]
  rfl

theorem idsOf_of_mem (hnodup : (names s.documents).Nodup) {d : Text × Tracker β} (hd : d ∈ s.documents) :
    s.idsOf d.1 = d.2.associations :=
  idsOf_of_document? (lookup_of_mem hnodup hd)

/-- The identifiers in use are those on lines and those that wait. -/
theorem mem_existingIds_iff_placesOf (hfiles : (names s.files).Nodup) (hdocuments : (names s.documents).Nodup) {identifier : Text} :
    identifier ∈ s.existingIds ↔
      s.placesOf identifier ≠ [] ∨ ∃ w ∈ s.staged, ∃ e ∈ w.2, e.edit.identifier = identifier := by
  rw [mem_existingIds, ← or_assoc, placesOf_ne_nil_iff]
  refine or_congr_left ?_
  constructor
  · rintro (⟨f, hf, hclosed, hid⟩ | ⟨d, hd, hid⟩)
    · rw [idsIn_eq_map_ids, ← idsOf_of_closed hfiles hf hclosed] at hid
      obtain ⟨a, ha, rfl⟩ := List.mem_map.1 hid
      exact ⟨f.1, a, mem_taggedLines.2 ⟨.inl (List.mem_map_of_mem hf), ha⟩, rfl⟩
    · rw [Tracker.identifiers, ← idsOf_of_mem hdocuments hd] at hid
      obtain ⟨a, ha, rfl⟩ := List.mem_map.1 hid
      exact ⟨d.1, a, mem_taggedLines.2 ⟨.inr (List.mem_map_of_mem hd), ha⟩, rfl⟩
  · rintro ⟨file, a, hmem, rfl⟩
    obtain ⟨hfile, ha⟩ := mem_taggedLines.1 hmem
    by_cases hopen : file ∈ names s.documents
    · obtain ⟨d, hd, rfl⟩ := List.mem_map.1 hopen
      rw [idsOf_of_mem hdocuments hd] at ha
      exact .inr ⟨d, hd, List.mem_map_of_mem ha⟩
    · obtain ⟨f, hf, rfl⟩ := List.mem_map.1 (hfile.resolve_right hopen)
      have hclosed : s.isOpen f.1 = false := Bool.eq_false_iff.2 fun h => hopen (isOpen_iff.1 h)
      rw [idsOf_of_closed hfiles hf hclosed] at ha
      refine .inl ⟨f, hf, hclosed, ?_⟩
      rw [idsIn_eq_map_ids]
      exact List.mem_map_of_mem ha

/-! ## What tidying leaves alone -/

/-- The second session is the first with some of its trackers tidied: it has the same files, open and not, and the same identifiers on their lines. -/
structure Tidied (s s' : Session β) : Prop where
  files : s'.files = s.files
  opened : names s'.documents = names s.documents
  staged : s'.staged = s.staged
  ids : ∀ file, s'.idsOf file = s.idsOf file

theorem Tidied.refl (s : Session β) : Tidied s s := ⟨rfl, rfl, rfl, fun _ => rfl⟩

theorem Tidied.trans (h : Tidied s s') (h' : Tidied s' s'') : Tidied s s'' where
  files := h'.files.trans h.files
  opened := h'.opened.trans h.opened
  staged := h'.staged.trans h.staged
  ids := fun file => (h'.ids file).trans (h.ids file)

theorem Tidied.fileNames (h : Tidied s s') : s'.fileNames = s.fileNames := by
  rw [Session.fileNames, h.files, h.opened]
  rfl

theorem Tidied.taggedLines (h : Tidied s s') : s'.taggedLines = s.taggedLines := by
  rw [Session.taggedLines, h.fileNames, funext h.ids]
  rfl

theorem Tidied.placesOf (h : Tidied s s') (identifier : Text) : s'.placesOf identifier = s.placesOf identifier := by
  rw [Session.placesOf, h.taggedLines]
  rfl

theorem Tidied.duplicates (h : Tidied s s') : s'.duplicates = s.duplicates := by
  rw [Session.duplicates, placesById_eq, h.taggedLines]
  rfl

theorem Tidied.isOpen (h : Tidied s s') (file : Text) : s'.isOpen file = s.isOpen file := by
  rw [Bool.eq_iff_iff, isOpen_iff, isOpen_iff, h.opened]

/-- The identifiers of open files, read off their names. -/
theorem flatMap_identifiers (hnodup : (names s.documents).Nodup) :
    s.documents.flatMap (fun d => d.2.identifiers) =
      (names s.documents).flatMap fun file => (s.idsOf file).map LineId.identifier := by
  rw [names, List.flatMap_map]
  refine List.flatMap_congr fun d hd => ?_
  rw [idsOf_of_mem hnodup hd, Tracker.identifiers]

theorem Tidied.existingIds (h : Tidied s s') (hnodup : (names s.documents).Nodup) : s'.existingIds = s.existingIds := by
  have hnodup' : (names s'.documents).Nodup := h.opened ▸ hnodup
  rw [Session.existingIds, Session.existingIds, flatMap_identifiers hnodup, flatMap_identifiers hnodup', h.files, h.opened,
    h.staged, funext h.ids, funext h.isOpen]

variable [LawfulBuffer β]

theorem associations_tidy {t : Tracker β} (ht : t.Sound) : t.tidy.associations = t.associations :=
  Tracker.associations_eq_of_mem_iff fun _ => Tracker.mem_associations_tidy ht

theorem tidied_tidy (hs : s.Sound) : Tidied s s.tidy where
  files := rfl
  opened := names_tidy s
  staged := rfl
  ids := fun file => by
    rw [idsOf, document?_tidy, idsOf]
    cases hdoc : s.document? file with
    | none => rfl
    | some t => exact associations_tidy (hs.of_document? hdoc)

theorem tidied_tidyFile (hs : s.Sound) (file : Text) : Tidied s (s.tidyFile file) where
  files := rfl
  opened := names_tidyFile s file
  staged := rfl
  ids := fun other => by
    rw [idsOf, document?_tidyFile, idsOf]
    cases hdoc : s.document? other with
    | none =>
      rw [Option.map_none, ite_self]
      rfl
    | some t =>
      split_ifs
      · exact associations_tidy (hs.of_document? hdoc)
      · rfl

/-! ## Looking for an identifier -/

omit [LineBuffer β] [LawfulBuffer β] in
theorem head?_placesIn_map (identifier file : Text) (ids : List LineId) :
    (placesIn identifier (ids.map (file, ·))).head? =
      (ids.find? (·.identifier == identifier)).map fun a => (file, a.line) := by
  rw [placesIn, List.filter_map, List.map_map, List.head?_map, List.head?_filter]
  rfl

/-- The search goes through the files until one has the identifier, and tidies those it has gone through. -/
theorem locateIn_spec (hs : s.Sound) (identifier : Text) (files : List Text) :
    (locateIn identifier files s).1 = (placesIn identifier (files.flatMap fun file => (s.idsOf file).map (file, ·))).head? ∧
      (locateIn identifier files s).2.Sound ∧ Tidied s (locateIn identifier files s).2 := by
  induction files generalizing s with
  | nil => exact ⟨rfl, hs, .refl s⟩
  | cons file files ih =>
    have htidied := tidied_tidyFile hs file
    have hsound := sound_tidyFile hs file
    have hhead := head?_placesIn_map identifier file (s.idsOf file)
    have happend : placesIn identifier ((file :: files).flatMap fun file => (s.idsOf file).map (file, ·)) =
        placesIn identifier ((s.idsOf file).map (file, ·)) ++
          placesIn identifier (files.flatMap fun file => (s.idsOf file).map (file, ·)) := by
      rw [List.flatMap_cons, placesIn, List.filter_append, List.map_append]
      rfl
    rw [locateIn, happend, List.head?_append, hhead]
    split
    · next a hfind =>
      rw [hfind]
      exact ⟨rfl, hsound, htidied⟩
    · next hfind =>
      obtain ⟨hanswer, hsound', htidied'⟩ := ih hsound
      rw [hfind]
      refine ⟨?_, hsound', htidied.trans htidied'⟩
      rw [hanswer, funext htidied.ids]
      rfl

/-! ## All questions together -/

inductive Question
  | existingIds
  | duplicates
  | locate (identifier : Text)

inductive Answer
  | identifiers (ids : List Text)
  | places (places : List (Text × List (Text × Int)))
  | place (place? : Option (Text × Int))

/-- The answer to a question, and the session after it. -/
def ask (s : Session β) : Question → Answer × Session β
  | .existingIds => (.identifiers s.existingIds, s.tidy)
  | .duplicates => (.places s.duplicates, s.tidy)
  | .locate identifier => ((s.locate identifier).map .place id)

/-- The session after a row of questions. -/
def askAll (s : Session β) (questions : List Question) : Session β := questions.foldl (fun s question => (s.ask question).2) s

/-- What every session is like: each name has one entry, and the trackers are sound. -/
structure Coherent (s : Session β) : Prop where
  files : (names s.files).Nodup
  documents : (names s.documents).Nodup
  sound : s.Sound

theorem Reachable.nodup_names_files (h : Reachable s) : (names s.files).Nodup := by
  induction h with
  | ofFiles files mode => exact nodup_names_ofList files
  | openDocument file content? buffer? _ _ ih => exact distinct_openDocument ih file content? buffer?
  | closeDocument file _ ih => exact distinct_closeDocument ih file
  | setActive file _ ih => exact distinct_setActive ih file
  | clear _ _ => exact List.nodup_nil
  | tidy _ ih => exact ih
  | tidyFile file _ ih => exact ih
  | edited _ _ _ ih => exact ih
  | bind line identifier _ _ ih => exact ih
  | unbind identifier _ _ ih => exact ih
  | applyEdit file e expected _ ih => rwa [files_applyEdit]
  | stage e lineText _ ih => rwa [(steady_stage _ e lineText).files]

theorem Reachable.coherent (h : Reachable s) : s.Coherent := ⟨h.nodup_names_files, h.wellNamed.nodup, h.sound⟩

theorem Coherent.of_tidied (hs : s.Coherent) (h : Tidied s s') (hsound : s'.Sound) : s'.Coherent where
  files := h.files ▸ hs.files
  documents := h.opened ▸ hs.documents
  sound := hsound

theorem sound_ask (hs : s.Sound) (question : Question) : (s.ask question).2.Sound :=
  match question with
  | .existingIds => sound_tidy hs
  | .duplicates => sound_tidy hs
  | .locate identifier => (locateIn_spec hs identifier s.fileNames).2.1

theorem tidied_ask (hs : s.Sound) (question : Question) : Tidied s (s.ask question).2 :=
  match question with
  | .existingIds => tidied_tidy hs
  | .duplicates => tidied_tidy hs
  | .locate identifier => (locateIn_spec hs identifier s.fileNames).2.2

theorem Coherent.askAll (hs : s.Coherent) (questions : List Question) : (s.askAll questions).Coherent ∧ Tidied s (s.askAll questions) := by
  induction questions generalizing s with
  | nil => exact ⟨hs, .refl s⟩
  | cons question questions ih =>
    have htidied := tidied_ask hs.sound question
    obtain ⟨hcoherent, htidied'⟩ := ih (hs.of_tidied htidied (sound_ask hs.sound question))
    exact ⟨hcoherent, htidied.trans htidied'⟩

theorem locate_eq_head? (hs : s.Sound) (identifier : Text) : (s.locate identifier).1 = (s.placesOf identifier).head? :=
  (locateIn_spec hs identifier s.fileNames).1

/-- Sessions with the same tagged lines and the same waiting identifiers give the same answers. -/
theorem Tidied.answer_eq (h : Tidied s s') (hs : s.Coherent) (hs' : s'.Coherent) (question : Question) :
    (s'.ask question).1 = (s.ask question).1 := by
  cases question with
  | existingIds => exact congrArg Answer.identifiers (h.existingIds hs.documents)
  | duplicates => exact congrArg Answer.places h.duplicates
  | locate identifier =>
    have hanswer := locate_eq_head? hs'.sound identifier
    rw [h.placesOf, ← locate_eq_head? hs.sound] at hanswer
    exact congrArg Answer.place hanswer

/-- The three questions agree with one list, in which the tagged lines stand by file and line: an identifier is located at its first place, it is a duplicate with all of its places if it has more than one, and it is in use if it has a place or waits. Whatever was asked before, the answer is the same. -/
theorem questions_agree (hs : s.Coherent) :
    (s.taggedLines.Pairwise fun p q => p.1 < q.1 ∨ p.1 = q.1 ∧ p.2.line < q.2.line) ∧
    (∀ file a, (file, a) ∈ s.taggedLines ↔ (file ∈ names s.files ∨ file ∈ names s.documents) ∧ a ∈ s.idsOf file) ∧
    (∀ identifier, (s.locate identifier).1 = (s.placesOf identifier).head?) ∧
    (names s.duplicates).Nodup ∧
    (∀ identifier places, (identifier, places) ∈ s.duplicates ↔ places = s.placesOf identifier ∧ 2 ≤ places.length) ∧
    (∀ identifier, identifier ∈ s.existingIds ↔
      s.placesOf identifier ≠ [] ∨ ∃ w ∈ s.staged, ∃ e ∈ w.2, e.edit.identifier = identifier) ∧
    ∀ asked question, ((s.askAll asked).ask question).1 = (s.ask question).1 := by
  refine ⟨pairwise_taggedLines s, fun _ _ => mem_taggedLines, locate_eq_head? hs.sound, nodup_names_duplicates s,
    fun _ _ => mem_duplicates, fun _ => mem_existingIds_iff_placesOf hs.files hs.documents, fun asked question => ?_⟩
  obtain ⟨hcoherent, htidied⟩ := hs.askAll asked
  exact htidied.answer_eq hs hcoherent question

/-- Two files share an identifier. The one that comes later by code points was given first and is open, and an identifier waits for a third file. -/
theorem questions_agree_sharedIdentifier :
    let a := "a.ink".toList
    let b := "b.ink".toList
    let s₀ : Session MemoryBuffer := ofFiles [(b, "One #id:AAAA".toList), (a, "Two #id:BBBB\n\nThree #id:AAAA".toList)] {}
    let s := ((s₀.openDocument b none none).2.stage ⟨some "c.ink".toList, 1, "Four".toList, "CCCC".toList⟩ "Four".toList).2
    s.Coherent ∧
    (s.locate "AAAA".toList).1 = some (a, 3) ∧ (s.locate "CCCC".toList).1 = none ∧
    ("AAAA".toList, [(a, 3), (b, 1)]) ∈ s.duplicates ∧ (∀ places, ("BBBB".toList, places) ∉ s.duplicates) ∧
    "BBBB".toList ∈ s.existingIds ∧ "CCCC".toList ∈ s.existingIds ∧ "DDDD".toList ∉ s.existingIds ∧
    ((s.askAll [.locate "BBBB".toList, .duplicates, .existingIds]).ask (.locate "AAAA".toList)).1 =
      (s.ask (.locate "AAAA".toList)).1 := by
  intro a b s₀ s
  have hs : s.Coherent := Reachable.coherent
    (.stage _ _ (.openDocument b none none (.ofFiles _ _) fun b hb => absurd hb (Option.not_mem_none b)))
  obtain ⟨-, -, hlocate, -, hduplicates, hexisting, hask⟩ := questions_agree hs
  have hnames : s.fileNames = [a, b] := by
    refine (Text.sortedSet_spec _).1.eq_of_mem_iff (by decide) fun file => ?_
    rw [(Text.sortedSet_spec _).2, show names s.files ++ names s.documents = [b, a, b] by decide +kernel]
    simp only [List.mem_cons, List.not_mem_nil, or_false]
    tauto
  have htagged : s.taggedLines = [(a, ⟨1, "BBBB".toList⟩), (a, ⟨3, "AAAA".toList⟩), (b, ⟨1, "AAAA".toList⟩)] := by
    rw [taggedLines, hnames]
    decide +kernel
  simp only [placesOf, htagged] at hlocate hduplicates hexisting
  refine ⟨hs, (hlocate _).trans (by decide), (hlocate _).trans (by decide), (hduplicates _ _).2 (by decide), ?_,
    (hexisting _).2 (.inl (by decide)), (hexisting _).2 (.inr (by decide +kernel)), ?_, hask _ _⟩
  · intro places hmem
    obtain ⟨rfl, hlength⟩ := (hduplicates _ _).1 hmem
    exact absurd hlength (by decide)
  · intro hmem
    exact absurd ((hexisting _).1 hmem) (by decide +kernel)

end Session

end LineTags
