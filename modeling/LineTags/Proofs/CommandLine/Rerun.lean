import LineTags.Proofs.CommandLine.Completeness
import LineTags.Proofs.Disk.Loading
import Mathlib.Data.List.DropRight

/-!
# A second run changes nothing

The second run opens what the first one wrote. If every line of it comes out as it went in, then the free lines of the new session are lines that take a tag; and since the first run left no such line that wants one, all identifiers that are drawn now come for lines that are not free. They are dropped when they are delivered or wait for nothing, so the session stays as it was opened, and there is no change to save.
-/

namespace LineTags.Tagging

open Text Keyed

variable {w : Workplace} {p : Project} {options : TaggingOptions} {source : CodeSource} {mode : ExtractionMode}
  {scripts : List (Text × Text)} {s s₀ : Session MemoryBuffer} {d d' : TagDriver MemoryBuffer} {file : Text}
  {order : List Text}

/-! ## A session opened from settled scripts -/

theorem dropMarks_dropMarks (t : Text) : dropMarks (dropMarks t) = dropMarks t := List.dropWhile_idempotent _ _

/-- Nothing is left to do for these scripts: their lines are settled, and no line that takes a tag wants one. -/
structure Finished (mode : ExtractionMode) (scripts : List (Text × Text)) : Prop where
  nodup : (names scripts).Nodup
  settled : ∀ f ∈ scripts, ∀ l ∈ lines f.2, Settled mode l
  unmarked : ∀ f ∈ scripts, dropMarks f.2 = f.2
  full : ∀ f ∈ scripts, FullyTagged f.2

theorem Finished.exists_openAll (h : Finished mode scripts) :
    ∃ s, openAll (names scripts) (Session.ofFiles scripts mode) = .ok s := by
  have hcontent : ∀ file ∈ names scripts, (Session.ofFiles scripts mode : Session MemoryBuffer).files.lookup file =
      some ((scripts.lookup file).getD []) := by
    intro file hfile
    rw [Session.ofFiles, ofList_of_nodup h.nodup]
    exact lookup_eq_some_getD hfile []
  refine Session.exists_openAll rfl hcontent h.nodup fun file hfile => ?_
  exact exists_ofScript_of_settled (h.settled (file, _) (mem_of_lookup (lookup_eq_some_getD hfile [])))

variable (h : Finished mode scripts) (hopened : Opened mode scripts s₀)

include h hopened

theorem Finished.projectFiles (hidle : Session.Idle s₀ s) : s.projectFiles = scripts := by
  have hnamed := hopened.wellNamed h.nodup
  have hfiles : (names s₀.files).Nodup := hopened.files ▸ h.nodup
  rw [hidle.projectFiles hnamed hfiles]
  refine eq_of_lookup_eq ?_ ?_ fun file hfile => ?_
  · rw [Session.names_projectFiles hnamed, hopened.files]
  · rw [Session.names_projectFiles hnamed]
    exact hfiles
  · rw [Session.names_projectFiles hnamed, hopened.files] at hfile
    obtain ⟨content, hmem⟩ := mem_names.1 hfile
    have hfull := Tracker.fullContent_opened_of_settled (h.settled _ hmem) file
    rw [Session.lookup_projectFiles hnamed, hopened.document? h.nodup hmem, Option.map_some, Option.some_or, hfull,
      lookup_of_mem h.nodup hmem]

/-- No line of the scripts that wants a tag is free. -/
theorem Finished.not_free {content l : Text} {i : Nat} (hcontent : scripts.lookup file = some content)
    (hl : (lines (dropMarks content))[i]? = some l) (hwants : WantsTag l) : ¬s₀.Free file ((1 + i : Nat) : Int) := by
  have hmem := mem_of_lookup hcontent
  rw [h.unmarked _ hmem] at hl
  have hline : l ∈ lines content := List.mem_of_getElem? hl
  rintro ⟨t, hdoc, hcarry, hnone⟩
  obtain rfl := Option.some.inj ((hopened.document? h.nodup hmem).symm.trans hdoc)
  exact h.full _ hmem l hline (Tracker.takesTag_of_free hl (h.settled _ hmem l hline) hcarry hnone) hwants

/-- All identifiers that are drawn for the story of a script are for lines that are not free. -/
theorem Finished.not_free_of_mem_run {content : Text} {story : Story} (hcontent : scripts.lookup file = some content)
    {folder : Text} (hparse : Story.parse (Project.libraryIn w folder scripts) file content = .ok story) {g : Generator}
    {existing : List Text} {e : IdEdit} (he : e ∈ (g.run existing story.root).1.edits) {other : Text}
    (hother : e.file = some other) : ¬s₀.Free other e.line := by
  intro hfree
  have hfind : (Project.libraryIn w folder scripts).find? file = some (.ok content) := Library.find?_of_lookup hcontent
  obtain ⟨file', content', i, l, hfind', hl, hplace, hwants⟩ := exists_wanting_of_mem_run hfind hparse he
  obtain rfl : other = file' := Option.some.inj (hother.symm.trans (congrArg Place.file hplace))
  obtain ⟨t, hdoc, -⟩ := id hfree
  -- a script that is open is loaded, so the line was read from its text and not from the disk
  have hname : other ∈ names scripts := hopened.names_documents ▸ Session.mem_names_of_document? hdoc
  have hknown := lookup_eq_some_getD hname []
  have hfound : (Project.libraryIn w folder scripts).find? other = some (.ok _) := Library.find?_of_lookup hknown
  obtain rfl := Except.ok.inj (Option.some.inj (hfound.symm.trans hfind'))
  rw [show e.line = ((1 + i : Nat) : Int) from congrArg Place.line hplace] at hfree
  exact h.not_free hopened hknown hl hwants hfree

/-! ## Tagging it again -/

variable (hreadable : ∀ f ∈ scripts, ∀ e,
  Story.parse (Project.libraryIn w (p.rootFolder w) scripts) f.1 f.2 ≠ .error (.unreadable e))

include hreadable

/-- The turn of a script of an idle session leaves it idle. -/
theorem Finished.exists_turn (hidle : Session.Idle s₀ d.session) (hfile : file ∈ names scripts) :
    ∃ failures d', tagFile (compileIn w p) file d = .ok (failures, d') ∧ Session.Idle s₀ d'.session := by
  have hopen : d.session.isOpen file = true := (hidle.grown.isOpen file).trans (hopened.isOpen hfile)
  have hactive : Session.Idle s₀ (d.session.setActive file).2 := hidle.setActive hopen
  obtain ⟨content, hmem⟩ := mem_names.1 hfile
  have hcontent := lookup_of_mem h.nodup hmem
  rw [tagFile_eq hopen hidle.sound, compileIn_runFor, h.projectFiles hopened hactive, hcontent, Option.getD_some]
  cases hparse : Story.parse (Project.libraryIn w (p.rootFolder w) scripts) file content with
  | error e =>
    cases e with
    | rejected e => exact ⟨[], _, rfl, hactive.tidy⟩
    | unreadable e => exact absurd hparse (hreadable _ hmem e)
  | ok story =>
    refine ⟨_, _, rfl, hactive.tidy.tidy.deliverAll _ fun e he other hother => ?_⟩
    exact h.not_free_of_mem_run hopened hcontent hparse he hother

theorem Finished.exists_turns (hidle : Session.Idle s₀ d.session) (horder : ∀ file ∈ order, file ∈ names scripts) :
    ∃ failures d', tagFiles (compileIn w p) order d = .ok (failures, d') ∧ Session.Idle s₀ d'.session := by
  induction order generalizing d with
  | nil => exact ⟨[], d, rfl, hidle⟩
  | cons file order ih =>
    obtain ⟨first, d₁, hfirst, hidle₁⟩ := h.exists_turn hopened hreadable hidle (horder file List.mem_cons_self)
    obtain ⟨rest, d₂, hrest, hidle₂⟩ := ih hidle₁ fun other hother => horder other (List.mem_cons_of_mem _ hother)
    refine ⟨first ++ rest, d₂, ?_, hidle₂⟩
    rw [tagFiles, hfirst]
    show (tagFiles (compileIn w p) order d₁ >>= _) = _
    rw [hrest]
    rfl

omit h hopened hreadable

/-- A run over scripts for which nothing is left to do ends well and writes nothing. -/
theorem Finished.run_eq (h : Finished options.mode p.files) (hroot : p.rootName ∈ names p.files)
    (hparse : ∃ story, p.parse w = .ok story)
    (hreadable : ∀ f ∈ p.files, ∀ e,
      Story.parse (Project.libraryIn w (p.rootFolder w) p.files) f.1 f.2 ≠ .error (.unreadable e)) (source : CodeSource) :
    (run w p options source).status = .ok 0 ∧ (run w p options source).workplace = w := by
  obtain ⟨story, hparse⟩ := hparse
  obtain ⟨s₀, hopenAll⟩ := h.exists_openAll
  have hopened := opened_of_openAll h.nodup hopenAll
  have hidle := Session.idle_refl hopened.sound hopened.staged
  obtain ⟨failures, d, htagged, hidle'⟩ := h.exists_turns (d := driverFor s₀ options source) hopened hreadable hidle
    fun file (hfile : file ∈ names p.files) => hfile
  have hunchanged : changedFiles p d.session = [] := by
    rw [changedFiles, h.projectFiles hopened hidle', List.filter_eq_nil_iff]
    intro f hf
    rw [lookup_of_mem h.nodup hf]
    simp
  have hsome : ¬(p.files.lookup p.rootName).isNone = true := by
    rw [Option.isNone_iff_eq_none, ← Option.not_isSome_iff_eq_none, not_not]
    exact lookup_isSome_iff.2 hroot
  unfold run
  dsimp only
  rw [if_neg hsome, hparse]
  dsimp only
  rw [hopenAll]
  unfold compileIn driverFor at htagged
  unfold changedFiles at hunchanged
  dsimp only
  rw [htagged]
  dsimp only
  split
  · exact ⟨rfl, rfl⟩
  · rw [hunchanged]
    exact ⟨rfl, rfl⟩

/-! ## What the first run leaves -/

/-- Each of the second scripts is what a session saves of one of the first, and was the same as that one before. -/
def LeftBy (s : Session MemoryBuffer) (scripts scripts' : List (Text × Text)) : Prop :=
  ∀ f ∈ scripts', ∃ g ∈ scripts, scripts.lookup f.1 = some g.2 ∧ f.2 = dropMarks (s.fullContent g.1)

/-- The session saves all scripts. -/
def SavesAll (s : Session MemoryBuffer) (scripts : List (Text × Text)) : Prop :=
  ∀ f ∈ scripts, s.projectFiles.lookup f.1 = some (s.fullContent f.1)

/-- Scripts that are loaded again are as the session left them, those that did not change too. -/
theorem leftBy_of_save {rootPath : Text} {w' : Workplace} {p' : Project} (hw : w.Sound) (hloaded : p.Loaded w rootPath)
    (hsaves : SavesAll s p.files) (hknown : names s.projectFiles = names p.files)
    (hsave : p.save w (changedFiles p s) = (w', none)) (hloaded' : p'.Loaded w' rootPath)
    (hnames : names p'.files = names p.files) : LeftBy s p.files p'.files := by
  have hsub : names (changedFiles p s) ⊆ names p.files := by
    rw [← hknown]
    exact (List.filter_sublist.map Prod.fst).subset
  intro f hf
  have hname : f.1 ∈ names p.files := hnames ▸ mem_names.2 ⟨f.2, hf⟩
  obtain ⟨g, hg, hcontent, hsame⟩ | ⟨hnot, hmem⟩ := hloaded.reload hw hsub hsave hloaded' hf hname
  · obtain ⟨old, hold⟩ := mem_names.1 (hsub (List.mem_map_of_mem hg))
    have hlookup := lookup_of_mem (hknown ▸ hloaded.nodup) (List.mem_of_mem_filter hg)
    rw [hsaves _ hold, Option.some_inj] at hlookup
    refine ⟨_, hold, ?_, hcontent.trans (congrArg dropMarks hlookup.symm)⟩
    rw [← hsame, lookup_of_mem hloaded.nodup hold]
  · obtain ⟨place, hstands⟩ := hloaded.exists_place hw hmem
    obtain ⟨-, t, -, -, hcontent⟩ := hstands.isFile
    have hunchanged : s.fullContent f.1 = f.2 := by
      by_contra hchanged
      have hmemSaved : (f.1, s.fullContent f.1) ∈ changedFiles p s := by
        refine List.mem_filter.2 ⟨mem_of_lookup (hsaves f hmem), decide_eq_true ?_⟩
        rw [lookup_of_mem hloaded.nodup hmem, Ne, Option.some_inj]
        exact fun heq => hchanged heq.symm
      exact hnot (mem_names.2 ⟨_, hmemSaved⟩)
    refine ⟨f, hmem, lookup_of_mem hloaded.nodup hmem, ?_⟩
    rw [hunchanged, hcontent, dropMarks_dropMarks]

section

variable {scripts' : List (Text × Text)} (hrereads : Rereads mode scripts s.projectFiles) (hsaves : SavesAll s scripts)
  (hleft : LeftBy s scripts scripts')

include hrereads hsaves hleft

theorem Rereads.finished (hnodup : (names scripts').Nodup)
    (hfull : ∀ file ∈ names scripts, FullyTagged (dropMarks (s.fullContent file))) : Finished mode scripts' := by
  refine ⟨hnodup, fun f hf => ?_, fun f hf => ?_, fun f hf => ?_⟩
  · obtain ⟨g, hg, -, hcontent⟩ := hleft f hf
    rw [hcontent]
    exact hrereads.settled (g.1, _) (mem_of_lookup (hsaves g hg))
  · obtain ⟨g, -, -, hcontent⟩ := hleft f hf
    rw [hcontent, dropMarks_dropMarks]
  · obtain ⟨g, hg, -, hcontent⟩ := hleft f hf
    rw [hcontent]
    exact hfull g.1 (mem_names.2 ⟨g.2, hg⟩)

/-- All scripts have stories again. -/
theorem Rereads.exists_parse_left (hnodup : (names scripts).Nodup) (hnodup' : (names scripts').Nodup)
    (hnames : names scripts' = names scripts) (w : Workplace) (folder : Text) {f : Text × Text} (hf : f ∈ scripts') :
    ∃ story, Story.parse (Project.libraryIn w folder scripts') f.1 f.2 = .ok story := by
  have hkinds : ∀ f ∈ scripts, ∃ content, scripts'.lookup f.1 = some content ∧ SameKinds f.2 content := by
    intro f hf
    obtain ⟨content, hmem⟩ := mem_names.1 (hnames ▸ mem_names.2 ⟨f.2, hf⟩ : f.1 ∈ names scripts')
    obtain ⟨g, hg, hsame, hcontent⟩ := hleft _ hmem
    have htagged := hrereads.tagged g hg
    refine ⟨content, lookup_of_mem hnodup' hmem, ?_⟩
    rw [lookup_of_mem hnodup hf, Option.some_inj] at hsame
    rw [hsaves g hg, Option.getD_some] at htagged
    rw [hsame, show content = _ from hcontent, SameKinds, dropMarks_dropMarks]
    exact htagged
  obtain ⟨old, hold⟩ := mem_names.1 (hnames ▸ mem_names.2 ⟨f.2, hf⟩ : f.1 ∈ names scripts)
  obtain ⟨content, story, hlookup, hparse⟩ := hrereads.exists_parse hnames hkinds hold w folder
  rw [lookup_of_mem hnodup' hf, Option.some_inj] at hlookup
  exact ⟨story, hlookup ▸ hparse⟩

end

/-! ## The second run -/

/-- A run that wrote what it tagged, and left no line without an identifier, has done all there is to do. Another run over the same scripts, with any source of codes, ends well and writes nothing. -/
theorem run_again {rootPath : Text} {p' : Project} (hw : w.Sound) (hload : Project.load w rootPath = .ok p)
    (hdry : options.dryRun = false) (hstatus : (run w p options source).status = .ok 0)
    (huntagged : untaggedLines w p options source = [])
    (hrereads : Rereads options.mode p.files (taggedScripts w p options source))
    (hreload : Project.load (run w p options source).workplace rootPath = .ok p') (hnames : names p'.files = names p.files)
    (source' : CodeSource) :
    (run (run w p options source).workplace p' options source').status = .ok 0 ∧
      (run (run w p options source).workplace p' options source').workplace = (run w p options source).workplace := by
  have hloaded : p.Loaded w rootPath := Project.loaded_of_load hload
  have hloaded' := Project.loaded_of_load hreload
  obtain ⟨s, failures, d, hopenAll, htagFiles, hsave, -⟩ := exists_of_status_eq_zero hdry hstatus
  have houtcome : outcome w p options source = (failures, d.session.projectFiles) := by
    rw [outcome, hopenAll]
    dsimp only
    rw [htagFiles]
  rw [untaggedLines, houtcome] at huntagged
  obtain rfl : failures = [] := huntagged
  rw [taggedScripts, houtcome] at hrereads
  have hopened : Opened options.mode p.files s := opened_of_openAll hloaded.nodup hopenAll
  obtain ⟨es, hpath, hes⟩ := exists_path_of_tagFiles (fun run => Compiled.validNames_ofParse _ run.file run.content)
    hopened.sound (fun _ => hopened.isOpen) htagFiles
  have hextends : s.Extends d.session := hpath.extends hopened.sound fun e he => (hes e he).1
  have hspelled : d.session.WellSpelled := (hpath.wellSpelled hopened.wellSpelled rfl
    (fun e he => (hes e he).1.not_changesDocuments) fun e he => (hes e he).2).1
  have hnamed : d.session.WellNamed := (hopened.wellNamed hloaded.nodup).of_names_eq hextends.names fun _ hname =>
    hextends.files ▸ hname
  have hknown : names d.session.projectFiles = names p.files :=
    (Session.names_projectFiles hnamed).trans (congrArg names (hextends.files.trans hopened.files))
  have hsaves : SavesAll d.session p.files := fun f hf => Session.lookup_projectFiles_of_isOpen hnamed
    ((hextends.isOpen f.1).trans (hopened.isOpen (mem_names.2 ⟨f.2, hf⟩)))
  -- what the second run loads wants no tags, and is read as what the first run loaded
  have hleft := leftBy_of_save hw hloaded hsaves hknown hsave hloaded' hnames
  have hfinished : Finished options.mode p'.files := hrereads.finished hsaves hleft hloaded'.nodup fun file hfile =>
    hrereads.fullyTagged hopened hloaded.nodup htagFiles hspelled hfile
  have hparses := fun {f} => hrereads.exists_parse_left hsaves hleft hloaded.nodup hloaded'.nodup hnames
    (run w p options source).workplace (p'.rootFolder (run w p options source).workplace) (f := f)
  refine hfinished.run_eq hloaded'.root ?_ (fun f hf e he => ?_) source'
  · obtain ⟨content, hmem⟩ := mem_names.1 hloaded'.root
    rw [Project.parse, lookup_of_mem hloaded'.nodup hmem]
    exact hparses hmem
  · obtain ⟨story, hparse⟩ := hparses hf
    rw [hparse] at he
    cases he

/-- A script with a line to tag, and an included one with a tagged line. -/
def forest : Project where
  rootPath := "main.ink".toList
  files := [("main.ink".toList, "INCLUDE cave.ink\n=== Forest ===\nHi".toList),
    ("cave.ink".toList, "=== Cave ===\nDark. #id:Cave_ZZ11".toList)]

/-- The scripts of a project in a folder of their own. -/
def placeOfScripts (p : Project) : Workplace where
  disk := ⟨(["p".toList], .folder) :: p.files.map fun f => (["p".toList, f.1], .file f.2.toUtf8)⟩
  folder := ["p".toList]

theorem sound_placeOfScripts (p : Project) : (placeOfScripts p).Sound :=
  Workplace.sound_of_singleton rfl ⟨by decide, by decide, by decide, by decide, by decide, by decide⟩ rfl

/-- The first run tags the root script, and the second leaves both as they are then. -/
theorem run_again_forest :
    let options : TaggingOptions := {}
    let source : CodeSource := ⟨.cycle [0, 1, 2, 3], 0⟩
    let w := placeOfScripts forest
    let w' := (run w forest options source).workplace
    let forest' : Project := { forest with files := taggedScripts w forest options source }
    w.Sound ∧ Project.load w "main.ink".toList = .ok forest ∧ options.dryRun = false ∧
      (run w forest options source).status = .ok 0 ∧ untaggedLines w forest options source = [] ∧
      Rereads options.mode forest.files (taggedScripts w forest options source) ∧
      Project.load w' "main.ink".toList = .ok forest' ∧ names forest'.files = names forest.files ∧
      w'.readText "main.ink".toList = .ok "INCLUDE cave.ink\n=== Forest ===\nHi #id:Forest_ABCD".toList ∧
      ∀ source', (run w' forest' options source').status = .ok 0 ∧ (run w' forest' options source').workplace = w' := by
  intro options source w w' forest'
  have hload : Project.load w "main.ink".toList = .ok forest := by decide +kernel
  have hstatus : (run w forest options source).status = .ok 0 := by decide +kernel
  have huntagged : untaggedLines w forest options source = [] := by decide +kernel
  have hrereads : Rereads options.mode forest.files (taggedScripts w forest options source) :=
    ⟨by decide +kernel, by decide +kernel, by decide +kernel, by decide +kernel⟩
  have hreload : Project.load w' "main.ink".toList = .ok forest' := by decide +kernel
  have hnames : names forest'.files = names forest.files := by decide +kernel
  exact ⟨sound_placeOfScripts forest, hload, rfl, hstatus, huntagged, hrereads, hreload, hnames, by decide +kernel,
    run_again (sound_placeOfScripts forest) hload rfl hstatus huntagged hrereads hreload hnames⟩

/-- A line that says `INCLUDE` and no more is narrative. -/
def loneInclude : Project where
  rootPath := "main.ink".toList
  files := [("main.ink".toList, "INCLUDE".toList)]

/-- With the tag that the first run puts behind it, the line names a file that is not there, and the second run fails. -/
theorem not_run_again_loneInclude :
    let options : TaggingOptions := {}
    let source : CodeSource := ⟨.congruential 1, 0⟩
    let w := placeOfScripts loneInclude
    let w' := (run w loneInclude options source).workplace
    let tagged : Project := { loneInclude with files := taggedScripts w loneInclude options source }
    w.Sound ∧ Project.load w "main.ink".toList = .ok loneInclude ∧ options.dryRun = false ∧
      (run w loneInclude options source).status = .ok 0 ∧ untaggedLines w loneInclude options source = [] ∧
      tagged.files = [("main.ink".toList, "INCLUDE #id:087T".toList)] ∧
      Project.load w' "main.ink".toList = .ok tagged ∧ (run w' tagged options source).status = .ok 1 := by
  refine ⟨sound_placeOfScripts loneInclude, ?_, rfl, ?_, ?_, ?_, ?_, ?_⟩ <;> decide +kernel

end LineTags.Tagging
