import LineTags.Proofs.Editor.DirtyFlag

/-!
# Openings that fail

A project whose scripts cannot be read or parsed is not opened, and the editor stays as it was. Strict checking comes later: the project that was open has been given up when it refuses a file. Then the new project is there with its files up to the refused one, none of them shown. The refused file is open and empty, and would be saved empty; and the dirty flag still tells of the project that is gone.
-/

namespace LineTags

open Keyed Session

namespace Editor

variable {e e' : Editor} {p : Project} {path : Text}

/-! ## What is kept -/

/-- An editor shows and holds what another one does. The texts and identifiers of open files are in the session, with their widgets. -/
structure Kept (e e' : Editor) : Prop where
  project : e'.project = e.project
  session : e'.session = e.session
  listed : e'.listed = e.listed
  selected : e'.selected = e.selected
  shown : e'.shown = e.shown
  dirty : e'.dirty = e.dirty

theorem Kept.tellUser (e : Editor) (d : Dialog) : Kept e (e.tellUser d) := ⟨rfl, rfl, rfl, rfl, rfl, rfl⟩

/-- What saving writes is what the session holds of the project that is open. -/
theorem workplace_save (e : Editor) :
    e.save.workplace = e.project.elim e.workplace fun p => (p.save e.workplace e.session.projectFiles).1 := by
  unfold save
  cases e.project with
  | none => rfl
  | some p =>
    have hworkplace : (e.setSession e.session.tidy).workplace = e.workplace := rfl
    dsimp only [Option.elim_some]
    rw [hworkplace]
    cases p.save e.workplace e.session.projectFiles with
    | mk workplace fault? => cases fault? <;> rfl

/-- Where nothing changed but the screen, saving writes what it would have written. -/
theorem Kept.workplace_save (h : Kept e e') (hworkplace : e'.workplace = e.workplace) :
    e'.save.workplace = e.save.workplace := by
  rw [Editor.workplace_save, Editor.workplace_save, h.project, h.session, hworkplace]

/-! ## Opening the files in turn -/

/-- A project was put in the place of the one that was open, and some of its files were opened. Nothing is shown yet. -/
structure Partway (p : Project) (opened : List (Text × Text)) (dirty : Bool) (e : Editor) : Prop where
  project : e.project = some p
  listed : e.listed = names opened
  selected : e.selected = none
  shown : e.shown = none
  dirty : e.dirty = dirty
  files : e.session.files = p.files
  documents : names e.session.documents = names opened
  active : e.session.active = (names opened).head?
  staged : e.session.staged = []

variable {opened rest : List (Text × Text)} {file content : Text} {dirty : Bool}

theorem Partway.wellNamed (h : Partway p opened dirty e) (hfiles : p.files = opened ++ rest) (hnodup : (names p.files).Nodup) :
    e.session.WellNamed := by
  have hsublist : List.Sublist (names opened) (names p.files) := by
    rw [hfiles, names, names, List.map_append]
    exact List.sublist_append_left _ _
  refine ⟨?_, fun other hother => ?_⟩
  · rw [h.documents]
    exact hnodup.sublist hsublist
  · rw [h.documents] at hother
    rw [h.files]
    exact hsublist.subset hother

/-- The session after a file was opened in a widget of its own, where nothing waits. -/
theorem openDocument_widget {s s' : Session Widget} {w : Widget} (hstaged : s.staged = [])
    (h : s.openDocument file (some content) (some w) = (.ok (), s')) :
    s'.files = put file content s.files ∧ s'.active = s.active.or (some file) ∧ s'.staged = [] ∧
      ∃ t, s'.documents = put file t s.documents := by
  unfold openDocument at h
  dsimp only at h
  split at h
  · cases h
  · obtain ⟨-, rfl⟩ := Prod.mk.inj h
    have happlied : ∀ s₁ : Session Widget, s₁.staged = s.staged → s₁.applyStaged file = s₁ := fun s₁ hsame =>
      applyStaged_of_nil (hsame.trans hstaged) file
    rw [happlied]
    · exact ⟨rfl, rfl, hstaged, _, put_put file _ _ s.documents⟩
    · rfl

theorem ofScript_of_refused {s : Session Widget} {w : Widget} {refusal : MultipleTags}
    (h : (s.openDocument file (some content) (some w)).1 = .error refusal) :
    Extraction.ofScript s.mode content = .error refusal := by
  unfold openDocument at h
  dsimp only at h
  split at h
  · next refusal' hrefused =>
    obtain rfl := Except.error.inj h
    exact hrefused
  · cases h

/-- Opening one file more. -/
theorem Partway.openFile (h : Partway p opened dirty e) (hfiles : p.files = opened ++ (file, content) :: rest)
    (hnodup : (names p.files).Nodup) {s : Session Widget} (f : Widget → Widget)
    (hopen : e.session.openDocument file (some content) (some {}) = (.ok (), s)) :
    Partway p (opened ++ [(file, content)]) dirty
      { (e.setSession s).updateWidget file f with listed := ((e.setSession s).updateWidget file f).listed ++ [file] } := by
  have hcontent : p.files.lookup file = some content :=
    lookup_of_mem hnodup (hfiles ▸ List.mem_append_right _ List.mem_cons_self)
  have hnew : file ∉ names opened := by
    rw [hfiles, names, List.map_append] at hnodup
    exact fun hmem => List.disjoint_of_nodup_append hnodup hmem List.mem_cons_self
  have hnames : names (opened ++ [(file, content)]) = names opened ++ [file] := List.map_append
  obtain ⟨hfiles', hactive, hstaged, t, hdocuments⟩ := openDocument_widget h.staged hopen
  have hdoc : s.document? file = some t := by rw [document?, hdocuments, lookup_put, if_pos rfl]
  rw [updateWidget_of_document? (e := e.setSession s) hdoc]
  exact
    { project := h.project
      listed := by rw [hnames, ← h.listed]; rfl
      selected := h.selected
      shown := h.shown
      dirty := h.dirty
      files := by
        show s.files = p.files
        rw [hfiles', h.files, put_of_lookup hcontent]
      documents := by
        show names (s.putDocument file _).documents = _
        rw [names_putDocument hdoc, hdocuments, names_put, h.documents, if_neg hnew, hnames]
      active := by
        show s.active = _
        rw [hactive, h.active, hnames, List.head?_append]
        rfl
      staged := hstaged }

/-- Opening stops at the first file that is refused. -/
theorem Partway.exists_of_openFiles (h : Partway p opened dirty e) (hfiles : p.files = opened ++ rest)
    (hnodup : (names p.files).Nodup) {refusal : MultipleTags} (hopen : openFiles rest e = (.error refusal, e')) :
    ∃ (before after : List (Text × Text)) (file content : Text) (e₀ : Editor),
      p.files = before ++ (file, content) :: after ∧ Partway p before dirty e₀ ∧
      (e₀.session.openDocument file (some content) (some {})).1 = .error refusal ∧
      e' = e₀.setSession (e₀.session.entered file (some content) (some {})) := by
  induction rest generalizing opened e with
  | nil => cases hopen
  | cons f rest ih =>
    obtain ⟨file, content⟩ := f
    unfold openFiles at hopen
    cases hfirst : e.session.openDocument file (some content) (some {}) with
    | mk result s =>
      rw [hfirst] at hopen
      cases result with
      | error refusal' =>
        obtain ⟨hrefusal, rfl⟩ := Prod.mk.inj hopen
        have hrefused : (e.session.openDocument file (some content) (some {})).1 = .error refusal := by
          rw [hfirst]
          exact hrefusal
        have hentered := openDocument_of_refused hrefused
        rw [hfirst] at hentered
        exact ⟨opened, rest, file, content, e, hfiles, h, hrefused, congrArg e.setSession hentered⟩
      | ok u =>
        cases u
        have hagain : p.files = (opened ++ [(file, content)]) ++ rest := by rw [hfiles, List.append_assoc]; rfl
        exact ih (h.openFile hfiles hnodup (Widget.setModified false) hfirst) hagain hopen

/-! ## What is left behind -/

/-- What an editor is after strict checking refused a file of the project that it was opening. -/
structure Stranded (p : Project) (e e' : Editor) : Prop where
  project : e'.project = some p
  shown : e'.shown = none
  selected : e'.selected = none
  dirty : e'.dirty = e.dirty
  staged : e'.session.staged = []
  saved : names e'.session.projectFiles = names p.files
  written : e'.save.workplace = (p.save e'.workplace e'.session.projectFiles).1
  refused : ∃ (before after : List (Text × Text)) (file content : Text) (refusal : MultipleTags),
    p.files = before ++ (file, content) :: after ∧
    Extraction.ofScript e'.session.mode content = .error refusal ∧
    e'.listed = names before ∧ names e'.session.documents = names before ++ [file] ∧
    e'.session.active = (names before).head? ∧
    e'.session.projectFiles.lookup file = some [] ∧
    ∀ f ∈ after, e'.session.projectFiles.lookup f.1 = some f.2

/-- The refused file has a document, whose widget is empty. -/
theorem Partway.stranded {e₀ : Editor} {before after : List (Text × Text)} (h : Partway p before e.dirty e₀)
    (hfiles : p.files = before ++ (file, content) :: after) (hnodup : (names p.files).Nodup) {refusal : MultipleTags}
    (hrefused : (e₀.session.openDocument file (some content) (some {})).1 = .error refusal) (d : Dialog) :
    Stranded p e ((e₀.setSession (e₀.session.entered file (some content) (some {}))).tellUser d) := by
  have hwell : e₀.session.WellNamed := h.wellNamed hfiles hnodup
  have hmode : Extraction.ofScript e₀.session.mode content = .error refusal := ofScript_of_refused hrefused
  have hcontent : ∀ f ∈ (file, content) :: after, p.files.lookup f.1 = some f.2 := fun f hf =>
    lookup_of_mem hnodup (hfiles ▸ List.mem_append_right _ hf)
  rw [hfiles, names, List.map_append] at hnodup
  have hclosed : ∀ f ∈ (file, content) :: after, f.1 ∉ names before := fun f hf hmem =>
    List.disjoint_of_nodup_append hnodup hmem (List.mem_map_of_mem hf)
  have hentered : (e₀.session.entered file (some content) (some {})).files = p.files := by
    show put file content e₀.session.files = p.files
    rw [h.files, put_of_lookup (hcontent _ List.mem_cons_self)]
  have hsaved : ∀ other, (e₀.session.entered file (some content) (some {})).projectFiles.lookup other =
      if other = file then some [] else e₀.session.projectFiles.lookup other := fun other =>
    lookup_projectFiles_entered hwell file other (some content) (some {})
  refine ⟨h.project, h.shown, h.selected, h.dirty, h.staged, ?_, ?_, before, after, file, content, refusal, hfiles,
    hmode, h.listed, ?_, h.active, (hsaved file).trans (if_pos rfl), fun f hf => ?_⟩
  · rw [← hentered]
    exact names_projectFiles (hwell.entered file (some content) (some {}))
  · have hproject : ((e₀.setSession (e₀.session.entered file (some content) (some {}))).tellUser d).project = some p := h.project
    rw [workplace_save, hproject]
    rfl
  · show names (put file _ e₀.session.documents) = _
    rw [names_put, h.documents, if_neg (hclosed _ List.mem_cons_self)]
  · have hother : f.1 ≠ file := by
      rintro rfl
      have hname : f.1 ∈ List.map Prod.fst after := List.mem_map_of_mem hf
      exact (List.nodup_cons.1 hnodup.of_append_right).1 hname
    have hdoc : e₀.session.document? f.1 = none := by
      rw [document?, ← Option.not_isSome_iff_eq_none, lookup_isSome_iff, h.documents]
      exact hclosed f (List.mem_cons_of_mem _ hf)
    refine (hsaved f.1).trans ?_
    rw [if_neg hother, lookup_projectFiles hwell, hdoc, h.files, hcontent f (List.mem_cons_of_mem _ hf)]
    rfl

/-- If the change to another project fails, strict checking refused one of its files. -/
theorem stranded_of_switchTo (hnodup : (names p.files).Nodup) (h : e.switchTo p path = (.ok false, e')) : Stranded p e e' := by
  obtain ⟨settings, effective, disk, ⟨-, refusal, stopped, d, hfiles, rfl⟩ | ⟨hresult, -⟩⟩ := switchTo_cases h
  · have hstart : Partway p [] e.dirty (e.cleared p settings effective disk) :=
      ⟨rfl, rfl, rfl, rfl, rfl, ofList_of_nodup hnodup, rfl, rfl, rfl⟩
    obtain ⟨before, after, file, content, e₀, happend, hpartway, hrefused, rfl⟩ := hstart.exists_of_openFiles rfl hnodup hfiles
    exact hpartway.stranded happend hnodup hrefused d
  · cases hresult

/-- An opening that fails because the project cannot be read or parsed keeps the editor and what it would save. One that fails later leaves the new project behind, and keeps nothing unless that project was there already and nothing was shown. -/
theorem openProject_failed (h : e.openProject path = (.ok false, e')) :
    (e.loads path = none → Kept e e' ∧ e'.save.workplace = e.save.workplace) ∧
    ∀ p, e.loads path = some p → Stranded p e e' ∧ (Kept e e' → e.project = some p ∧ e.shown = none) := by
  obtain ⟨hloads, hopen⟩ | ⟨p, hloads, hloaded, hopen⟩ := openProject_cases path e
  · refine ⟨fun _ => ?_, fun p hp => ?_⟩
    · obtain ⟨d, hopen⟩ | ⟨fault, hopen⟩ := hopen
      · obtain rfl : e.tellUser d = e' := congrArg Prod.snd (hopen.symm.trans h)
        exact ⟨.tellUser e d, (Kept.tellUser e d).workplace_save rfl⟩
      · cases hopen.symm.trans h
    · cases hloads.symm.trans hp
  · refine ⟨fun hnone => ?_, fun p' hp' => ?_⟩
    · cases hloads.symm.trans hnone
    · obtain rfl : p = p' := Option.some.inj (hloads.symm.trans hp')
      have hstranded := stranded_of_switchTo hloaded.nodup (hopen.symm.trans h)
      refine ⟨hstranded, fun hkept => ⟨?_, ?_⟩⟩
      · rw [← hkept.project, hstranded.project]
      · rw [← hkept.shown, hstranded.shown]

/-- A script with two tags on a line. -/
def doubled : Project where
  rootPath := "doubled.ink".toList
  files := [("doubled.ink".toList, "x #id:BBBB #id:CCCC".toList)]

/-- The editor with an open project, after the script was put beside it and the settings were changed to ask for strict checking. -/
def strictDesk : Editor :=
  let place := Tagging.placeOfScripts doubled
  let own := ["home", ".local", "share", "BranchingLineIds"].map String.toList
  let settings := Text.toUtf8 "\x7b\"strict_tags\": true\x7d".toList
  { openedDesk with
    workplace := { place with
      disk := ⟨own.inits.map (·, .folder) ++ (own ++ ["settings.json".toList], .file settings) :: place.disk.entries⟩ } }

/-- A script that is not there cannot be read; one with two tags on a line is refused. -/
theorem openProject_failed_strictDesk :
    let missing := "missing.ink".toList
    let e₁ := (strictDesk.openProject missing).2
    let e₂ := (strictDesk.openProject doubled.rootPath).2
    strictDesk.openProject missing = (.ok false, e₁) ∧ strictDesk.loads missing = none ∧
      Kept strictDesk e₁ ∧ e₁.save.workplace = strictDesk.save.workplace ∧
      strictDesk.openProject doubled.rootPath = (.ok false, e₂) ∧ strictDesk.loads doubled.rootPath = some doubled ∧
      Stranded doubled strictDesk e₂ ∧ ¬Kept strictDesk e₂ := by
  intro missing e₁ e₂
  have hmissing : strictDesk.openProject missing = (.ok false, e₁) := Prod.ext (by decide +kernel) rfl
  have hunread : strictDesk.loads missing = none := by decide +kernel
  have hrefused : strictDesk.openProject doubled.rootPath = (.ok false, e₂) := Prod.ext (by decide +kernel) rfl
  have hread : strictDesk.loads doubled.rootPath = some doubled := by decide +kernel
  obtain ⟨hkept, hsave⟩ := (openProject_failed hmissing).1 hunread
  obtain ⟨hstranded, hsame⟩ := (openProject_failed hrefused).2 doubled hread
  refine ⟨hmissing, hunread, hkept, hsave, hrefused, hread, hstranded, fun h => ?_⟩
  exact absurd (hsame h).1 (by decide +kernel)

/-- The editor is left with the refused script, which it would save empty. -/
theorem not_kept_openProject_doubled :
    let e' := (strictDesk.openProject "doubled.ink".toList).2
    (strictDesk.openProject "doubled.ink".toList).1 = .ok false ∧
      strictDesk.project.map Project.rootName = some "main.ink".toList ∧ e'.project = some doubled ∧
      e'.session.projectFiles = [("doubled.ink".toList, [])] ∧ e'.dirty = false ∧ ¬Kept strictDesk e' := by
  intro e'
  have hproject : e'.project = some doubled := by decide +kernel
  have hbefore : strictDesk.project.map Project.rootName = some "main.ink".toList := by decide +kernel
  refine ⟨by decide +kernel, hbefore, hproject, by decide +kernel, by decide +kernel, fun h => ?_⟩
  rw [← h.project, hproject] at hbefore
  exact absurd hbefore (by decide +kernel)

end Editor

end LineTags
