import LineTags.Proofs.Session.Opening
import LineTags.Proofs.Sync.Accumulation

/-!
# The course of tagging a project

Tagging a project is one path of the driver: for each file an activation, an issue and a completion, and nobody types, opens or closes anything in between. Before the first file all files are opened; after the last those that changed are saved. What one file comes to is known exactly from what its run is compiled to.
-/

namespace LineTags.Tagging

open Keyed Interleaving

variable {compile : Run → Compiled} {d d' : TagDriver MemoryBuffer} {failures : List Exhaustion} {file : Text}
  {order : List Text}

/-! ## What the turn of a file comes to -/

/-- The run that is issued for a file that is open and active. -/
def runFor (s : Session MemoryBuffer) (token : Nat) (file : Text) : Run :=
  { token, file, content := (s.projectFiles.lookup file).getD [], files := s.projectFiles,
    snapshot := s.snapshot (names s.projectFiles) }

/-- The driver that has made a file active and issued a run for it. -/
def issuedFor (d : TagDriver MemoryBuffer) (file : Text) : TagDriver MemoryBuffer :=
  { d with
    session := (d.session.setActive file).2.tidy
    issued := d.issued + 1
    phase := .tagging
    lastResult := none
    timer := none }

theorem startRun_setActive (hopen : d.session.isOpen file = true) (hs : d.session.Sound) :
    ({ d with session := (d.session.setActive file).2 } : TagDriver MemoryBuffer).stopTimer.startRun =
      (some (runFor (d.session.setActive file).2 (d.issued + 1) file), issuedFor d file) := by
  have hextends := Session.extends_setActive hs hopen
  have hactive : (d.session.setActive file).2.active = some file := Session.active_setActive hopen
  obtain ⟨t, hdoc⟩ := Option.isSome_iff_exists.1 ((hextends.isOpen file).trans hopen)
  unfold TagDriver.startRun TagDriver.stopTimer
  dsimp only
  rw [Session.activeDocument?, hactive, Option.bind_some, hdoc]
  rfl

/-- A turn fails, comes to nothing, or delivers, as its run is compiled to a failure, to nothing, or to a story. -/
theorem tagFile_eq (hopen : d.session.isOpen file = true) (hs : d.session.Sound) :
    tagFile compile file d =
      match compile (runFor (d.session.setActive file).2 (d.issued + 1) file) with
      | .failed e => .error e
      | .nothing => .ok ([], { issuedFor d file with phase := .idle })
      | .story story =>
        let d' := (issuedFor d file).delivered (runFor (d.session.setActive file).2 (d.issued + 1) file) story
        .ok (((d'.lastResult.map Generation.failures).getD []).filter (·.file = some file), d') := by
  have hcurrent : (issuedFor d file).isCurrent (runFor (d.session.setActive file).2 (d.issued + 1) file) = true :=
    TagDriver.isCurrent_iff.2 ⟨rfl, rfl, Session.active_setActive hopen⟩
  unfold tagFile
  dsimp only
  rw [startRun_setActive hopen hs]
  dsimp only
  unfold TagDriver.finishRun
  cases compile (runFor (d.session.setActive file).2 (d.issued + 1) file) with
  | failed e => rfl
  | nothing =>
    dsimp only
    rw [if_pos hcurrent]
    rfl
  | story story =>
    dsimp only
    rw [if_pos hcurrent]
    rfl

/-- What the session says with the file active is said after the turn. -/
theorem extends_turn (hs : d.session.Sound) (hopen : d.session.isOpen file = true)
    (h : tagFile compile file d = .ok (failures, d')) : (d.session.setActive file).2.Extends d'.session := by
  have hsound : (d.session.setActive file).2.Sound := Session.sound_setActive hs file
  have htidy : (d.session.setActive file).2.Extends (issuedFor d file).session := Session.extends_tidy hsound
  have htidySound : (issuedFor d file).session.Sound := Session.sound_tidy hsound
  rw [tagFile_eq hopen hs] at h
  split at h
  · cases h
  · obtain ⟨-, rfl⟩ := Prod.mk.inj (Except.ok.inj h)
    exact htidy
  · obtain ⟨-, rfl⟩ := Prod.mk.inj (Except.ok.inj h)
    exact htidy.trans (TagDriver.extends_delivered htidySound _ _)

theorem tagFiles_cons_ok (h : tagFiles compile (file :: order) d = .ok (failures, d')) :
    ∃ first d₁ rest, tagFile compile file d = .ok (first, d₁) ∧ tagFiles compile order d₁ = .ok (rest, d') ∧
      failures = first ++ rest := by
  rw [tagFiles] at h
  cases hfirst : tagFile compile file d with
  | error e => rw [hfirst] at h; cases h
  | ok r =>
    rw [hfirst] at h
    cases hrest : tagFiles compile order r.2 with
    | error e => simp only [hrest, bind, Except.bind] at h; cases h
    | ok r' =>
      simp only [hrest, bind, Except.bind] at h
      obtain ⟨rfl, rfl⟩ := Prod.mk.inj (Except.ok.inj h)
      exact ⟨r.1, r.2, r'.1, rfl, hrest, rfl⟩

/-! ## Tagging is a path of the driver -/

/-- Nobody types, opens or closes, and no story has names that a script cannot have. -/
def Quiet (es : List Event) : Prop := ∀ e ∈ es, e.KeepsTexts ∧ e.ValidNames

theorem Quiet.append {es es' : List Event} (h : Quiet es) (h' : Quiet es') : Quiet (es ++ es') := fun e he =>
  (List.mem_append.1 he).elim (h e) (h' e)

theorem Quiet.snoc {es : List Event} {e : Event} (h : Quiet es) (hkeeps : e.KeepsTexts) (hnames : e.ValidNames) :
    Quiet (es ++ [e]) :=
  h.append fun _ he => List.mem_singleton.1 he ▸ ⟨hkeeps, hnames⟩

/-- A driver with nothing scheduled and no run in flight. -/
def atRest (d : TagDriver MemoryBuffer) : Interleaving MemoryBuffer := { driver := d }

/-- To tag a file is to make it active, to issue a run, and to complete it. -/
theorem exists_path_of_tagFile (hcompile : ∀ run, (compile run).ValidNames) (hs : d.session.Sound)
    (hopen : d.session.isOpen file = true) (h : tagFile compile file d = .ok (failures, d')) :
    ∃ es, Path (atRest d) es (atRest d') ∧ Quiet es := by
  have hstart := startRun_setActive hopen hs
  have hactivate : Path (atRest d) [.activated file] (atRest { d with session := (d.session.setActive file).2 }) :=
    Path.nil.snoc (Step.activate file hopen)
  unfold tagFile at h
  dsimp only at h
  rw [hstart] at h
  generalize runFor (d.session.setActive file).2 (d.issued + 1) file = run at h hstart
  have hcomplete := (hactivate.snoc (Step.runNow run _ hstart)).snoc (Step.complete run (compile run) List.mem_cons_self)
  rw [List.erase_cons_head] at hcomplete
  have hactivated : Quiet [.activated file] := fun e he => List.mem_singleton.1 he ▸ ⟨trivial, trivial⟩
  have hissued : Quiet ([.activated file] ++ [.issued run]) := hactivated.snoc trivial trivial
  dsimp only at h
  split at h
  · cases h
  · obtain ⟨-, rfl⟩ := Prod.mk.inj (Except.ok.inj h)
    exact ⟨_, hcomplete, hissued.snoc trivial (hcompile run)⟩

theorem exists_path_of_tagFiles (hcompile : ∀ run, (compile run).ValidNames) (hs : d.session.Sound)
    (hopen : ∀ file ∈ order, d.session.isOpen file = true) (h : tagFiles compile order d = .ok (failures, d')) :
    ∃ es, Path (atRest d) es (atRest d') ∧ Quiet es := by
  induction order generalizing d failures with
  | nil =>
    obtain ⟨-, rfl⟩ := Prod.mk.inj (Except.ok.inj h)
    exact ⟨[], .nil, fun e he => absurd he List.not_mem_nil⟩
  | cons file order ih =>
    obtain ⟨first, d₁, rest, hfirst, hrest, -⟩ := tagFiles_cons_ok h
    obtain ⟨es, hpath, hes⟩ := exists_path_of_tagFile hcompile hs (hopen file List.mem_cons_self) hfirst
    have hextends := hpath.extends hs fun e he => (hes e he).1
    obtain ⟨es', hpath', hes'⟩ := ih (hpath.sound hs)
      (fun other hother => (hextends.isOpen other).trans (hopen other (List.mem_cons_of_mem _ hother))) hrest
    exact ⟨es ++ es', hpath.append hpath', hes.append hes'⟩

/-- Each file has its turn, and what was said of the lines before the turn and after it is still said at the end. -/
theorem exists_turn (hcompile : ∀ run, (compile run).ValidNames) (hs : d.session.Sound)
    (hopen : ∀ file ∈ order, d.session.isOpen file = true) (h : tagFiles compile order d = .ok (failures, d'))
    (hfile : file ∈ order) :
    ∃ d₁ d₂ own, d₁.session.Sound ∧ d₁.session.isOpen file = true ∧ tagFile compile file d₁ = .ok (own, d₂) ∧
      d.session.Extends d₁.session ∧ d₂.session.Extends d'.session ∧ own ⊆ failures := by
  induction order generalizing d failures with
  | nil => cases hfile
  | cons first order ih =>
    obtain ⟨own, d₁, rest, hturn, hrest, rfl⟩ := tagFiles_cons_ok h
    have hfirst := hopen first List.mem_cons_self
    obtain ⟨es, hpath, hes⟩ := exists_path_of_tagFile hcompile hs hfirst hturn
    have hextends : d.session.Extends d₁.session := hpath.extends hs fun e he => (hes e he).1
    have hsound : d₁.session.Sound := hpath.sound hs
    have hopen₁ : ∀ other ∈ order, d₁.session.isOpen other = true := fun other hother =>
      (hextends.isOpen other).trans (hopen other (List.mem_cons_of_mem _ hother))
    rcases List.mem_cons.1 hfile with rfl | hfile
    · obtain ⟨es', hpath', hes'⟩ := exists_path_of_tagFiles hcompile hsound hopen₁ hrest
      exact ⟨d, d₁, own, hs, hfirst, hturn, .refl _, hpath'.extends hsound fun e he => (hes' e he).1,
        List.subset_append_left _ _⟩
    · obtain ⟨d₂, d₃, own', hs₂, hopen₂, hturn', hbefore, hafter, hsub⟩ := ih hsound hopen₁ hrest hfile
      exact ⟨d₂, d₃, own', hs₂, hopen₂, hturn', hextends.trans hbefore, hafter,
        List.Subset.trans hsub (List.subset_append_right _ _)⟩

/-! ## What a run of the program goes through -/

variable {w : Workplace} {p : Project} {options : TaggingOptions} {source : CodeSource} {s s' : Session MemoryBuffer}

/-- How a run is compiled: by parsing, with the folder of the project for what is not loaded. -/
def compileIn (w : Workplace) (p : Project) (run : Run) : Compiled :=
  .ofParse (Story.parse (Project.libraryIn w (p.rootFolder w) run.files) run.file run.content)

theorem compileIn_runFor (w : Workplace) (p : Project) (s : Session MemoryBuffer) (token : Nat) (file : Text) :
    compileIn w p (runFor s token file) =
      .ofParse (Story.parse (Project.libraryIn w (p.rootFolder w) s.projectFiles) file ((s.projectFiles.lookup file).getD [])) :=
  rfl

/-- The driver that tags an opened project. -/
def driverFor (s : Session MemoryBuffer) (options : TaggingOptions) (source : CodeSource) : TagDriver MemoryBuffer :=
  { session := s, generator := { maxAttempts := options.maxAttempts, source }, debounce := 0 }

/-- The files of a tagged project that are not as they were loaded. -/
def changedFiles (p : Project) (s : Session MemoryBuffer) : List (Text × Text) :=
  s.projectFiles.filter fun f => p.files.lookup f.1 ≠ some f.2

/-- The lines that got no identifier, and the scripts, when all files have had their turns. There are none if it does not come to this. -/
def outcome (w : Workplace) (p : Project) (options : TaggingOptions) (source : CodeSource) :
    List Exhaustion × List (Text × Text) :=
  match openAll (names p.files) (Session.ofFiles p.files options.mode) with
  | .error _ => ([], [])
  | .ok s =>
    match tagFiles (compileIn w p) (names p.files) (driverFor s options source) with
    | .error _ => ([], [])
    | .ok (failures, d) => (failures, d.session.projectFiles)

def untaggedLines (w : Workplace) (p : Project) (options : TaggingOptions) (source : CodeSource) : List Exhaustion :=
  (outcome w p options source).1

def taggedScripts (w : Workplace) (p : Project) (options : TaggingOptions) (source : CodeSource) : List (Text × Text) :=
  (outcome w p options source).2

/-- A run that ends with status zero, and is to write, has opened all files, tagged them, saved those that changed, and told of every line that got no identifier. -/
theorem exists_of_status_eq_zero (hdry : options.dryRun = false) (h : (run w p options source).status = .ok 0) :
    ∃ s failures d, openAll (names p.files) (Session.ofFiles p.files options.mode) = .ok s ∧
      tagFiles (compileIn w p) (names p.files) (driverFor s options source) = .ok (failures, d) ∧
      p.save w (changedFiles p d.session) = ((run w p options source).workplace, none) ∧
      ∃ counts, (run w p options source).output = summary options.language counts failures d.session.duplicates := by
  generalize hend : run w p options source = e at h ⊢
  unfold run at hend
  dsimp only at hend
  split at hend
  · subst hend
    cases h
  split at hend
  · subst hend
    cases h
  · subst hend
    cases h
  split at hend
  · subst hend
    cases h
  next s hopened =>
  split at hend
  · subst hend
    cases h
  next failures d htagged =>
  rw [if_neg (by rw [hdry]; exact Bool.false_ne_true)] at hend
  refine ⟨s, failures, d, hopened, htagged, ?_⟩
  split at hend
  · next w' hsaved =>
    subst hend
    exact ⟨hsaved, _, rfl⟩
  · subst hend
    cases h
  · subst hend
    cases h

/-- Of the lines that got no identifier the program tells, each in its turn, and of no others. -/
theorem output_run (hdry : options.dryRun = false) (h : (run w p options source).status = .ok 0) :
    ∃ counts duplicates, (run w p options source).output =
      summary options.language counts (untaggedLines w p options source) duplicates := by
  obtain ⟨s, failures, d, hopened, htagged, -, counts, houtput⟩ := exists_of_status_eq_zero hdry h
  refine ⟨counts, d.session.duplicates, ?_⟩
  rw [houtput, untaggedLines, outcome, hopened]
  dsimp only
  rw [htagged]

/-! ## The session before the first file -/

variable {mode : ExtractionMode} {scripts : List (Text × Text)}

/-- How many lines of some scripts have an identifier. -/
def linesWith (scripts : List (Text × Text)) (identifier : Text) : Nat :=
  (scripts.map fun f => (extract f.2).ids.countP fun a => a.identifier = identifier).sum

/-- The scripts as they are taken apart in a mode. -/
def prepared (mode : ExtractionMode) (scripts : List (Text × Text)) : List (Text × Text) :=
  scripts.map fun f => (f.1, mode.prepareScript f.2)

theorem prepared_eq (h : mode.repair = false) (scripts : List (Text × Text)) : prepared mode scripts = scripts := by
  have hsame : ∀ f ∈ scripts, (f.1, mode.prepareScript f.2) = f := fun f _ => by rw [prepareScript_eq h]
  rw [prepared, List.map_congr_left hsame, List.map_id']

/-- Each file is open as it was loaded, and nothing waits. -/
structure Opened (mode : ExtractionMode) (scripts : List (Text × Text)) (s : Session MemoryBuffer) : Prop where
  sound : s.Sound
  files : s.files = scripts
  staged : s.staged = []
  documents : s.documents = (prepared mode scripts).map fun f => (f.1, Tracker.opened f.1 f.2)

theorem opened_of_openAll (hnodup : (names scripts).Nodup)
    (h : openAll (names scripts) (Session.ofFiles scripts mode) = .ok s) : Opened mode scripts s := by
  have hfiles : (Session.ofFiles scripts mode : Session MemoryBuffer).files = scripts := ofList_of_nodup hnodup
  have hcontent : ∀ file ∈ names scripts, (Session.ofFiles scripts mode : Session MemoryBuffer).files.lookup file =
      some ((scripts.lookup file).getD []) := by
    intro file hfile
    rw [hfiles]
    exact lookup_eq_some_getD hfile []
  obtain ⟨hsame, hstaged, hdocuments⟩ := Session.openAll_eq_ok rfl hcontent hnodup h
  refine ⟨(Session.reachable_openAll (.ofFiles scripts mode) h).sound, hsame.trans hfiles, hstaged, hdocuments.trans ?_⟩
  show [] ++ (names scripts).map _ = _
  rw [List.nil_append, names, prepared, List.map_map, List.map_map]
  refine List.map_congr_left fun f hf => ?_
  rw [Function.comp_apply, lookup_of_mem hnodup hf, Option.getD_some]
  rfl

theorem Opened.names_documents (h : Opened mode scripts s) : names s.documents = names scripts := by
  rw [h.documents, names, prepared, List.map_map, List.map_map]
  rfl

theorem Opened.wellNamed (h : Opened mode scripts s) (hnodup : (names scripts).Nodup) : s.WellNamed where
  nodup := h.names_documents ▸ hnodup
  known := fun file hfile => by
    rw [h.files, ← h.names_documents]
    exact hfile

theorem Opened.document? (h : Opened mode scripts s) (hnodup : (names scripts).Nodup) {f : Text × Text} (hf : f ∈ scripts) :
    s.document? f.1 = some (Tracker.opened f.1 (mode.prepareScript f.2)) := by
  refine lookup_of_mem (h.names_documents ▸ hnodup) ?_
  rw [h.documents, prepared, List.map_map]
  exact List.mem_map_of_mem (f := fun f => (f.1, Tracker.opened f.1 (mode.prepareScript f.2))) hf

theorem Opened.carriers_le (h : Opened mode scripts s) (identifier : Text) :
    s.carriers identifier ≤ linesWith (prepared mode scripts) identifier := by
  have hwaiting : s.waitingFor identifier = 0 := by rw [Session.waitingFor, h.staged]; rfl
  rw [Session.carriers, hwaiting, Session.anchorsOf, h.documents, List.map_map]
  exact List.sum_le_sum fun f _ => Tracker.anchorsOf_opened_le f.1 f.2 identifier

theorem Opened.wellSpelled (h : Opened mode scripts s) : s.WellSpelled := by
  intro identifier hused
  have hle := h.carriers_le identifier
  have hlines : linesWith (prepared mode scripts) identifier ≠ 0 := by omega
  rw [linesWith, Ne, List.sum_eq_zero_iff, not_forall] at hlines
  obtain ⟨n, hn⟩ := hlines
  obtain ⟨hn, hpos⟩ := Classical.not_imp.1 hn
  obtain ⟨f, -, rfl⟩ := List.mem_map.1 hn
  obtain ⟨a, ha, heq⟩ := List.countP_pos_iff.1 (Nat.pos_of_ne_zero hpos)
  rw [← of_decide_eq_true heq]
  exact isIdentifier_of_mem_ids_extract ha

theorem Opened.isOpen (h : Opened mode scripts s) {file : Text} (hfile : file ∈ names scripts) : s.isOpen file = true :=
  lookup_isSome_iff.2 (h.names_documents ▸ hfile)

end LineTags.Tagging
