import LineTags.Proofs.CommandLine.Course
import LineTags.Proofs.Disk.Loading

/-!
# The command line only adds tags

Tagging a project is a path of the driver on which nobody types, opens or closes anything. So what holds along all such paths holds here. Every document has its clean text and its tags at the end, each line carries one identifier at most, and no identifier came in use more often than once unless it was before. What is written is put together of just this, so what is read of it again is the old script with more tags, each of them new to the project and on a line that had none.
-/

namespace LineTags.Tagging

open Keyed Interleaving

variable {d d' : TagDriver MemoryBuffer} {w : Workplace} {p : Project} {options : TaggingOptions} {source : CodeSource}
  {s : Session MemoryBuffer} {mode : ExtractionMode} {scripts : List (Text × Text)}

/-! ## The session at the end -/

/-- Each file has its clean text, its tags and maybe more, and no identifier is on more than one anchor unless it was on as many lines. -/
structure Tagged (scripts : List (Text × Text)) (s : Session MemoryBuffer) : Prop where
  files : s.files = scripts
  names : names s.documents = names scripts
  document : ∀ f ∈ scripts, ∃ t, s.document? f.1 = some t ∧ t.text = (extract f.2).clean ∧
    (∀ a ∈ (extract f.2).ids, a ∈ t.associations) ∧ ∀ a ∈ t.associations, isIdentifier a.identifier
  anchors : ∀ identifier, s.anchorsOf identifier ≤ max 1 (linesWith scripts identifier)

theorem tagged_of_path {es : List Event} (hnodup : (names scripts).Nodup) (hsheds : ∀ f ∈ scripts, ShedsTags f.2)
    (hrepair : mode.repair = false) (hopened : Opened mode scripts d.session) (hlength : d.generator.length = codeLength)
    (hpath : Path (atRest d) es (atRest d')) (hes : Quiet es) : Tagged scripts d'.session := by
  have hextends : d.session.Extends d'.session := hpath.extends hopened.sound fun e he => (hes e he).1
  have hspelled : d'.session.WellSpelled := (hpath.wellSpelled hopened.wellSpelled hlength
    (fun e he => (hes e he).1.not_changesDocuments) fun e he => (hes e he).2).1
  refine ⟨hextends.files.trans hopened.files, hextends.names.trans hopened.names_documents, fun f hf => ?_, fun i => ?_⟩
  · have hdoc := hopened.document? hnodup hf
    have htext := hextends.text f.1
    rw [prepareScript_eq hrepair] at hdoc
    rw [hdoc, Option.map_some, Tracker.text_opened] at htext
    obtain ⟨t, ht, htext⟩ := Option.map_eq_some_iff.1 htext
    refine ⟨t, ht, htext, fun a ha => ?_, fun a ha => ?_⟩
    · rw [← Session.idsOf_of_document? ht]
      refine hextends.ids f.1 a ?_
      rw [Session.idsOf_of_document? hdoc]
      exact ((hsheds f hf).mem_associations_opened f.1).2 ha
    · exact hspelled a.identifier (Session.carriers_ne_zero_of_mem ht ha)
  · have hpathLe := hpath.carriers_le hopened.sound (fun e he => (hes e he).1.not_changesDocuments) i
    have hopenedLe := hopened.carriers_le i
    rw [prepared_eq hrepair] at hopenedLe
    have hanchors : d'.session.anchorsOf i ≤ d'.session.carriers i := Nat.le_add_right _ _
    dsimp only [atRest] at hpathLe
    omega

/-! ## The scripts at the end -/

theorem Tagged.wellNamed (h : Tagged scripts s) (hnodup : (Keyed.names scripts).Nodup) : s.WellNamed where
  nodup := h.names ▸ hnodup
  known := fun file hfile => by
    rw [h.files, ← h.names]
    exact hfile

theorem Tagged.lookup_projectFiles (h : Tagged scripts s) (hnodup : (Keyed.names scripts).Nodup) {f : Text × Text}
    (hf : f ∈ scripts) : s.projectFiles.lookup f.1 = some (s.fullContent f.1) := by
  obtain ⟨t, hdoc, -⟩ := h.document f hf
  exact Session.lookup_projectFiles_of_isOpen (h.wellNamed hnodup) (Option.isSome_iff_exists.2 ⟨t, hdoc⟩)

theorem Tagged.fullContent_eq (h : Tagged scripts s) {f : Text × Text} (hf : f ∈ scripts) :
    ∃ t, s.document? f.1 = some t ∧ s.fullContent f.1 = reconstruct (extract f.2).clean t.associations ∧
      (∀ a ∈ (extract f.2).ids, a ∈ t.associations) ∧ ∀ a ∈ t.associations, isIdentifier a.identifier := by
  obtain ⟨t, hdoc, htext, hold, hids⟩ := h.document f hf
  refine ⟨t, hdoc, ?_, hold, hids⟩
  rw [Session.fullContent, hdoc]
  dsimp only
  rw [Tracker.fullContent, htext]

variable (h : Tagged scripts s) (hsheds : ∀ f ∈ scripts, ShedsTags f.2)

include h hsheds

theorem Tagged.onlyAddsTags {f : Text × Text} (hf : f ∈ scripts) : OnlyAddsTags f.2 (s.fullContent f.1) := by
  obtain ⟨t, -, hfull, hold, hids⟩ := h.fullContent_eq hf
  rw [hfull]
  exact (hsheds f hf).onlyAddsTags hids t.nodup_line_associations hold

/-- All uses of an identifier, old and new, are on different anchors. -/
theorem Tagged.count_added_add_le (hnodup : (Keyed.names scripts).Nodup) (identifier : Text) :
    (scripts.flatMap fun f => addedIds f.2 (s.fullContent f.1)).count identifier + linesWith scripts identifier ≤
      max 1 (linesWith scripts identifier) := by
  have hscript : ∀ f ∈ scripts, (addedIds f.2 (s.fullContent f.1)).count identifier +
      (extract f.2).ids.countP (fun a => a.identifier = identifier) ≤
        ((s.document? f.1).map fun t => t.anchorsOf identifier).getD 0 := by
    intro f hf
    obtain ⟨t, hdoc, hfull, hold, hids⟩ := h.fullContent_eq hf
    rw [hfull, hdoc]
    exact Nat.le_trans ((hsheds f hf).count_addedIds_add_le hids t.nodup_line_associations hold identifier)
      (t.countP_associations_le identifier)
  have hanchors : s.anchorsOf identifier =
      (scripts.map fun f => ((s.document? f.1).map fun t => t.anchorsOf identifier).getD 0).sum := by
    rw [Session.anchorsOf_eq (h.names ▸ hnodup), h.names, Keyed.names, List.map_map]
    rfl
  have hall := hanchors ▸ h.anchors identifier
  refine Nat.le_trans ?_ hall
  rw [List.count_flatMap, linesWith, ← List.sum_map_add]
  exact List.sum_le_sum hscript

theorem Tagged.nodup_added (hnodup : (Keyed.names scripts).Nodup) :
    (scripts.flatMap fun f => addedIds f.2 (s.fullContent f.1)).Nodup := by
  rw [List.nodup_iff_count_le_one]
  intro identifier
  have := h.count_added_add_le hsheds hnodup identifier
  omega

theorem Tagged.added_ne (hnodup : (Keyed.names scripts).Nodup) {f g : Text × Text} (hf : f ∈ scripts) {identifier : Text}
    (hadded : identifier ∈ addedIds f.2 (s.fullContent f.1)) (hg : g ∈ scripts) {b : LineId} (hb : b ∈ (extract g.2).ids) :
    b.identifier ≠ identifier := by
  rintro rfl
  have hcount := h.count_added_add_le hsheds hnodup b.identifier
  have hnew : 0 < (scripts.flatMap fun f => addedIds f.2 (s.fullContent f.1)).count b.identifier :=
    List.count_pos_iff.2 (List.mem_flatMap_of_mem hf hadded)
  have hline : 0 < (extract g.2).ids.countP fun a => a.identifier = b.identifier :=
    List.countP_pos_iff.2 ⟨b, hb, decide_eq_true rfl⟩
  have hold : (extract g.2).ids.countP (fun a => a.identifier = b.identifier) ≤ linesWith scripts b.identifier :=
    List.single_le_sum (fun _ _ => Nat.zero_le _) _
      (List.mem_map_of_mem (f := fun f => (extract f.2).ids.countP fun a => a.identifier = b.identifier) hg)
  omega

omit h hsheds

/-- A script that came out as it was is left alone, and any other reads afterwards as it came out. -/
theorem Tagged.readText_save {rootPath : Text} {w' : Workplace} (h : Tagged p.files s) (hp : p.Loaded w rootPath)
    (hw : w.Sound) (hapart : p.ScriptsApart w) (hsave : p.save w (changedFiles p s) = (w', none)) {f : Text × Text}
    (hf : f ∈ p.files) :
    w'.readText (p.scriptPath w f.1) =
      if s.fullContent f.1 = f.2 then w.readText (p.scriptPath w f.1) else .ok (s.fullContent f.1) := by
  have hnames : Keyed.names s.projectFiles = Keyed.names p.files :=
    (Session.names_projectFiles (h.wellNamed hp.nodup)).trans (congrArg Keyed.names h.files)
  have hsub : (Keyed.names (changedFiles p s)).Sublist (Keyed.names p.files) := by
    rw [← hnames]
    exact List.filter_sublist.map Prod.fst
  have hchanged := lookup_filter (hnames ▸ hp.nodup) (fun f => decide (p.files.lookup f.1 ≠ some f.2))
    (h.lookup_projectFiles hp.nodup hf)
  rw [hp.readText_save hw hapart hsub hsave hf, changedFiles, hchanged, lookup_of_mem hp.nodup hf]
  by_cases hsame : s.fullContent f.1 = f.2
  · simp [hsame]
  · simp [hsame, Ne.symm hsame]

/-! ## The command line only adds tags -/

/-- What the scripts of a project are in a second workplace. For each there is a text, which the file holds now, or which is the one that was loaded and the file was left alone; it has the clean text and the tags of the one that was loaded, and more tags only on lines that had none. All identifiers that were added, in whichever script, differ from each other and from those that any script had. -/
structure TagsAdded (w : Workplace) (p : Project) (w' : Workplace) (after : Text → Text) : Prop where
  read : ∀ f ∈ p.files, w'.readText (p.scriptPath w f.1) =
    if after f.1 = f.2 then w.readText (p.scriptPath w f.1) else .ok (after f.1)
  script : ∀ f ∈ p.files, OnlyAddsTags f.2 (after f.1)
  nodup : (p.files.flatMap fun f => addedIds f.2 (after f.1)).Nodup
  fresh : ∀ f ∈ p.files, ∀ i ∈ addedIds f.2 (after f.1), ∀ g ∈ p.files, ∀ b ∈ (extract g.2).ids, b.identifier ≠ i

/-- A run without repair that writes, and ends with status zero, only adds tags, if all scripts of the project are different files and shed their tags. -/
theorem exists_tagsAdded_run {rootPath : Text} (hw : w.Sound) (hload : Project.load w rootPath = .ok p)
    (hapart : p.ScriptsApart w) (hsheds : ∀ f ∈ p.files, ShedsTags f.2) (hrepair : options.mode.repair = false)
    (hdry : options.dryRun = false) (hstatus : (run w p options source).status = .ok 0) :
    ∃ after, TagsAdded w p (run w p options source).workplace after := by
  have hp : p.Loaded w rootPath := Project.loaded_of_load hload
  obtain ⟨s, failures, d, hopenAll, htagFiles, hsave, -⟩ := exists_of_status_eq_zero hdry hstatus
  have hopened : Opened options.mode p.files s := opened_of_openAll hp.nodup hopenAll
  obtain ⟨es, hpath, hes⟩ := exists_path_of_tagFiles (fun run => Compiled.validNames_ofParse _ run.file run.content)
    hopened.sound (fun file hfile => hopened.isOpen hfile) htagFiles
  have htagged : Tagged p.files d.session := tagged_of_path hp.nodup hsheds hrepair hopened rfl hpath hes
  exact ⟨d.session.fullContent, fun f hf => htagged.readText_save hp hw hapart hsave hf,
    fun f hf => htagged.onlyAddsTags hsheds hf, htagged.nodup_added hsheds hp.nodup,
    fun f hf i hi g hg b hb => htagged.added_ne hsheds hp.nodup hf hi hg hb⟩

/-- A script with a tagged line, and an included one with a line to tag. -/
def twoScripts : Project where
  rootPath := "main.ink".toList
  files := [("main.ink".toList, "INCLUDE b.ink\nB #id:AAAA".toList), ("b.ink".toList, "C".toList)]

def twoScriptsPlace : Workplace where
  disk := ⟨[(["p".toList], .folder), (["p".toList, "main.ink".toList], .file (Text.toUtf8 "INCLUDE b.ink\nB #id:AAAA".toList)),
    (["p".toList, "b.ink".toList], .file (Text.toUtf8 "C".toList))]⟩
  folder := ["p".toList]

theorem sound_twoScriptsPlace : twoScriptsPlace.Sound :=
  Workplace.sound_of_singleton rfl ⟨by decide, by decide, by decide, by decide, by decide, by decide⟩ rfl

theorem shedsTags_twoScripts : ∀ f ∈ twoScripts.files, ShedsTags f.2 := by
  have hmain : ShedsTags "INCLUDE b.ink\nB #id:AAAA".toList := by
    refine ⟨by decide, fun a ha => ?_⟩
    have hids : (extract "INCLUDE b.ink\nB #id:AAAA".toList).ids = [⟨2, "AAAA".toList⟩] := by decide
    rw [hids] at ha
    rw [List.mem_singleton.1 ha]
    exact ⟨"B".toList, by decide, by decide⟩
  have hincluded : ShedsTags "C".toList := by
    have hids : (extract "C".toList).ids = [] := by decide
    exact ⟨by decide, fun a ha => absurd (hids ▸ ha) List.not_mem_nil⟩
  intro f hf
  rcases List.mem_cons.1 hf with rfl | hf
  · exact hmain
  · rw [List.mem_singleton.1 hf]
    exact hincluded

/-- The included script gets a tag, and the other one is left alone. -/
theorem exists_tagsAdded_run_twoScripts :
    let options : TaggingOptions := {}
    let source : CodeSource := ⟨.cycle [0, 1, 2, 3], 0⟩
    let w := twoScriptsPlace
    let w' := (run w twoScripts options source).workplace
    w.Sound ∧ Project.load w "main.ink".toList = .ok twoScripts ∧ twoScripts.ScriptsApart w ∧
      (∀ f ∈ twoScripts.files, ShedsTags f.2) ∧ options.mode.repair = false ∧ options.dryRun = false ∧
      (run w twoScripts options source).status = .ok 0 ∧ w'.readText "b.ink".toList = .ok "C #id:ABCD".toList ∧
      ∃ after, TagsAdded w twoScripts w' after := by
  intro options source w w'
  have hload : Project.load w "main.ink".toList = .ok twoScripts := by decide +kernel
  have hapart : twoScripts.ScriptsApart w := by
    unfold Project.ScriptsApart
    decide +kernel
  have hstatus : (run w twoScripts options source).status = .ok 0 := by decide +kernel
  exact ⟨sound_twoScriptsPlace, hload, hapart, shedsTags_twoScripts, rfl, rfl, hstatus, by decide +kernel,
    exists_tagsAdded_run sound_twoScriptsPlace hload hapart shedsTags_twoScripts rfl rfl hstatus⟩

end LineTags.Tagging
