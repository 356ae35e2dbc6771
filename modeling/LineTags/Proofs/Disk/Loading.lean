import LineTags.Proofs.Disk.Saving

/-!
# What a loaded project is

Loading adds scripts and never takes one away. Each was read from its path, the root from the path the user gave and an included script from below the folder of the root, and each name was added once. On a sound workplace every script is found again where saving writes it.
-/

namespace LineTags.Project

open Text Keyed

variable {w : Workplace} {p p' : Project} {rootPath : Text}

/-- The path that a loaded script was read from. -/
def scriptPath (w : Workplace) (p : Project) (name : Text) : Text :=
  if name = p.rootName then p.rootPath else p.pathOf w name

/-- Each script is loaded once, the root is, and each holds what was read from its path. -/
structure Loaded (w : Workplace) (rootPath : Text) (p : Project) : Prop where
  rootPath : p.rootPath = rootPath
  root : p.rootName ∈ names p.files
  nodup : (names p.files).Nodup
  read : ∀ f ∈ p.files, loadScript w (p.scriptPath w f.1) = .ok f.2

theorem Loaded.add (h : Loaded w rootPath p) {name content : Text} (hname : name ∉ names p.files)
    (hread : loadScript w (p.pathOf w name) = .ok content) :
    Loaded w rootPath { p with files := p.files ++ [(name, content)] } where
  rootPath := h.rootPath
  root := by
    show p.rootName ∈ names (p.files ++ [(name, content)])
    rw [names, List.map_append]
    exact List.mem_append_left _ h.root
  nodup := by
    rw [names, List.map_append, List.nodup_append]
    refine ⟨h.nodup, List.nodup_singleton _, fun a ha b hb heq => hname ?_⟩
    obtain rfl : b = name := List.mem_singleton.1 hb
    exact heq ▸ ha
  read := by
    have hother : name ≠ p.rootName := fun heq => hname (heq ▸ h.root)
    intro f hf
    rcases List.mem_append.1 hf with hf | hf
    · exact h.read f hf
    · rw [List.mem_singleton.1 hf]
      show loadScript w (if name = p.rootName then p.rootPath else p.pathOf w name) = _
      rw [if_neg hother]
      exact hread

theorem loadIncludes_cons (w : Workplace) (name : Text) (included : List Text) (p : Project) (queue : List Text) :
    loadIncludes w (name :: included) (p, queue) =
      if name ∈ names p.files then loadIncludes w included (p, queue)
      else
        match loadScript w (p.pathOf w name) with
        | .ok content => loadIncludes w included ({ p with files := p.files ++ [(name, content)] }, queue ++ [name])
        | .error (.refused _ _) => loadIncludes w included (p, queue)
        | .error e => .error e := rfl

theorem Loaded.loadIncludes {included queue queue' : List Text} (h : Loaded w rootPath p)
    (hload : Project.loadIncludes w included (p, queue) = .ok (p', queue')) : Loaded w rootPath p' := by
  induction included generalizing p queue with
  | nil =>
    obtain ⟨rfl, -⟩ := Prod.mk.inj (Except.ok.inj hload)
    exact h
  | cons name included ih =>
    rw [loadIncludes_cons] at hload
    split at hload
    · exact ih h hload
    · next hname =>
      split at hload
      · next content hread => exact ih (h.add hname hread) hload
      · exact ih h hload
      · cases hload

theorem Loaded.loadQueue {reach : Nat} {queue : List Text} (h : Loaded w rootPath p)
    (hload : Project.loadQueue w reach p queue = .ok p') : Loaded w rootPath p' := by
  induction reach generalizing p queue with
  | zero =>
    rw [← Except.ok.inj hload]
    exact h
  | succ reach ih =>
    cases queue with
    | nil =>
      rw [← Except.ok.inj hload]
      exact h
    | cons name queue =>
      rw [Project.loadQueue] at hload
      cases hincludes : Project.loadIncludes w (includesOf name ((p.files.lookup name).getD [])) (p, queue) with
      | error e => rw [hincludes] at hload; cases hload
      | ok r =>
        rw [hincludes] at hload
        exact ih (h.loadIncludes hincludes) hload

/-- The root alone is loaded first. -/
theorem loaded_root {content : Text} (hread : loadScript w rootPath = .ok content) :
    Loaded w rootPath ⟨rootPath, [(Path.fileName rootPath, content)]⟩ := by
  have hnodup : (names [(Path.fileName rootPath, content)]).Nodup := List.nodup_singleton _
  refine ⟨rfl, List.mem_singleton_self _, hnodup, fun f hf => ?_⟩
  rw [List.mem_singleton.1 hf]
  exact (congrArg (loadScript w) (if_pos rfl)).trans hread

/-- Loading reads the root, and goes on from there. -/
theorem exists_of_load (h : load w rootPath = .ok p) :
    ∃ content, loadScript w rootPath = .ok content ∧
      loadQueue w w.reach ⟨rootPath, [(Path.fileName rootPath, content)]⟩ [Path.fileName rootPath] = .ok p := by
  unfold load at h
  cases hread : loadScript w rootPath with
  | error e => rw [hread] at h; cases h
  | ok content =>
    rw [hread] at h
    exact ⟨content, rfl, h⟩

theorem loaded_of_load (h : load w rootPath = .ok p) : Loaded w rootPath p := by
  obtain ⟨content, hread, hqueue⟩ := exists_of_load h
  exact (loaded_root hread).loadQueue hqueue

/-! ### Where the scripts are -/

/-- A script stands at a place that the path it was read from and the path it is saved to both lead to, and without the marks in front its text is the one loaded. -/
structure StandsAt (w : Workplace) (p : Project) (f : Text × Text) (place : List Text) : Prop where
  found : w.disk.locate w.folder (p.scriptPath w f.1) = .ok (place, false)
  saved : w.disk.locate w.folder (p.pathOf w f.1) = .ok (place, false)
  isFile : ∃ bytes t, w.disk.entry? place = some (.file bytes) ∧ ofUtf8 bytes = .ok t ∧ f.2 = dropMarks t

theorem Loaded.exists_place (h : Loaded w rootPath p) (hw : w.Sound) {f : Text × Text} (hf : f ∈ p.files) :
    ∃ place, StandsAt w p f place := by
  have hread := h.read f hf
  unfold loadScript Workplace.readText at hread
  cases htext : w.disk.readText w.folder (p.scriptPath w f.1) with
  | error e => rw [htext] at hread; cases hread
  | ok t =>
    rw [htext] at hread
    obtain ⟨place, bytes, hfound, hfile, hbytes⟩ := Disk.exists_place_of_readText htext
    refine ⟨place, hfound, ?_, bytes, t, hfile, hbytes, (Except.ok.inj hread).symm⟩
    by_cases hroot : f.1 = p.rootName
    · rw [scriptPath, if_pos hroot] at hfound
      rw [hroot]
      exact locate_pathOf_rootName hw hfound
    · rwa [scriptPath, if_neg hroot] at hfound

/-- No two scripts of the project are the same file. -/
def ScriptsApart (w : Workplace) (p : Project) : Prop :=
  (p.files.map fun f => w.disk.locate w.folder (p.scriptPath w f.1)).Nodup

/-! ### What is read after saving -/

/-- The place that a script is saved to. -/
def placeOf (w : Workplace) (p : Project) (name : Text) : List Text :=
  match w.disk.locate w.folder (p.pathOf w name) with
  | .ok (place, _) => place
  | .error _ => []

theorem Loaded.standsAt (h : Loaded w rootPath p) (hw : w.Sound) {f : Text × Text} (hf : f ∈ p.files) :
    StandsAt w p f (p.placeOf w f.1) := by
  obtain ⟨place, hstands⟩ := h.exists_place hw hf
  rwa [placeOf, hstands.saved]

theorem Loaded.placeOf_injOn (h : Loaded w rootPath p) (hw : w.Sound) (hapart : p.ScriptsApart w) {f g : Text × Text}
    (hf : f ∈ p.files) (hg : g ∈ p.files) (hplace : p.placeOf w f.1 = p.placeOf w g.1) : f = g := by
  refine List.inj_on_of_nodup_map hapart hf hg ?_
  rw [(h.standsAt hw hf).found, (h.standsAt hw hg).found, hplace]

/-- Saving scripts of the project puts each where it stands; a place that was not written to holds what it held. -/
theorem Loaded.save_eq (h : Loaded w rootPath p) (hw : w.Sound) {pairs : List (Text × Text)} {w' : Workplace}
    (hpairs : names pairs ⊆ names p.files) (hsave : p.save w pairs = (w', none)) :
    w'.folder = w.folder ∧ Disk.Keeps (pairs.map fun g => p.placeOf w g.1) w.disk w'.disk ∧
      ∀ place ∈ pairs.map (fun g => p.placeOf w g.1), ∃ g ∈ pairs, p.placeOf w g.1 = place ∧
        w'.disk.entry? place = some (.file g.2.toUtf8) := by
  refine saveFiles_eq (p.placeOf w) hsave fun g hg => ?_
  obtain ⟨g', hg', hname⟩ := List.mem_map.1 (hpairs (List.mem_map_of_mem hg))
  exact hname ▸ (h.standsAt hw hg').saved

/-- What stands at the place of a script when others were saved can be read under its path. -/
theorem StandsAt.readText_of_keeps {f : Text × Text} {place : List Text} (h : StandsAt w p f place) {w' : Workplace}
    {written : List (List Text)} (hfolder : w'.folder = w.folder) (hkeeps : Disk.Keeps written w.disk w'.disk)
    {bytes : List UInt8} (hentry : w'.disk.entry? place = some (.file bytes)) :
    w'.readText (p.scriptPath w f.1) = (ofUtf8 bytes).mapError .undecodable := by
  refine Disk.readText_of_place ?_ hentry
  rw [hfolder]
  exact hkeeps.locate h.found

/-- A script that was saved reads as it was written, and any other as it did. -/
theorem Loaded.readText_save (h : Loaded w rootPath p) (hw : w.Sound) (hapart : p.ScriptsApart w)
    {pairs : List (Text × Text)} {w' : Workplace} (hpairs : (names pairs).Sublist (names p.files))
    (hsave : p.save w pairs = (w', none)) {f : Text × Text} (hf : f ∈ p.files) :
    w'.readText (p.scriptPath w f.1) = ((pairs.lookup f.1).map .ok).getD (w.readText (p.scriptPath w f.1)) := by
  obtain ⟨hfolder, hkeeps, hwritten⟩ := h.save_eq hw hpairs.subset hsave
  have hstands := h.standsAt hw hf
  have hsame : ∀ g ∈ pairs, p.placeOf w g.1 = p.placeOf w f.1 → g.1 = f.1 := by
    intro g hg hplace
    obtain ⟨g', hg', hname⟩ := List.mem_map.1 (hpairs.subset (List.mem_map_of_mem hg))
    rw [← hname, h.placeOf_injOn hw hapart hg' hf (hname ▸ hplace)]
  cases hcontent : pairs.lookup f.1 with
  | some content =>
    obtain ⟨g, hg, hplace, hentry⟩ := hwritten _ (List.mem_map_of_mem (f := fun g => p.placeOf w g.1) (mem_of_lookup hcontent))
    have hlookup := lookup_of_mem (h.nodup.sublist hpairs) hg
    rw [hsame g hg hplace, hcontent] at hlookup
    rw [hstands.readText_of_keeps hfolder hkeeps hentry, ← Option.some.inj hlookup, ofUtf8_toUtf8]
    rfl
  | none =>
    have hplace : p.placeOf w f.1 ∉ pairs.map fun g => p.placeOf w g.1 := by
      intro hmem
      obtain ⟨g, hg, hplace⟩ := List.mem_map.1 hmem
      have hsome := lookup_isSome_iff.2 (List.mem_map_of_mem (f := Prod.fst) hg)
      rw [hsame g hg hplace, hcontent] at hsome
      cases hsome
    obtain ⟨bytes, t, hfile, -, -⟩ := hstands.isFile
    rw [hstands.readText_of_keeps hfolder hkeeps ((hkeeps.entry?_eq hfile hplace).trans hfile)]
    exact (Disk.readText_of_place hstands.found hfile).symm

/-- A script that is loaded after others were saved is one of those that were saved, under its name or another one for the same file, or it was not saved and is as it was. -/
theorem Loaded.reload (h : Loaded w rootPath p) (hw : w.Sound) {pairs : List (Text × Text)} {w' : Workplace}
    (hpairs : names pairs ⊆ names p.files) (hsave : p.save w pairs = (w', none)) (h' : Loaded w' rootPath p')
    {f : Text × Text} (hf : f ∈ p'.files) (hname : f.1 ∈ names p.files) :
    (∃ g ∈ pairs, f.2 = dropMarks g.2 ∧ p.files.lookup g.1 = p.files.lookup f.1) ∨ (f.1 ∉ names pairs ∧ f ∈ p.files) := by
  obtain ⟨hfolder, hkeeps, hwritten⟩ := h.save_eq hw hpairs hsave
  obtain ⟨content, hmem⟩ := mem_names.1 hname
  have hstands := h.standsAt hw hmem
  have hpath : p'.scriptPath w' f.1 = p.scriptPath w f.1 := by
    have habsolute : w'.absolute rootPath = w.absolute rootPath := by
      rw [Workplace.absolute, Workplace.absolute, Workplace.folderPath, Workplace.folderPath, hfolder]
    rw [scriptPath, scriptPath, pathOf, pathOf, rootName, rootName, rootFolder, rootFolder, h.rootPath, h'.rootPath, habsolute]
  have hread := h'.read f hf
  rw [hpath, loadScript] at hread
  obtain ⟨bytes, t, hfile, htext, hcontent⟩ := hstands.isFile
  by_cases hplace : p.placeOf w f.1 ∈ pairs.map fun g => p.placeOf w g.1
  · obtain ⟨g, hg, hsame, hentry⟩ := hwritten _ hplace
    rw [hstands.readText_of_keeps hfolder hkeeps hentry, ofUtf8_toUtf8] at hread
    obtain ⟨old, hold⟩ := mem_names.1 (hpairs (List.mem_map_of_mem hg))
    obtain ⟨bytes', t', hfile', htext', hcontent'⟩ := (h.standsAt hw hold).isFile
    rw [hsame, hfile, Option.some_inj, DiskEntry.file.injEq] at hfile'
    rw [← hfile', htext, Except.ok.injEq] at htext'
    refine .inl ⟨g, hg, (Except.ok.inj hread).symm, ?_⟩
    rw [lookup_of_mem h.nodup hold, lookup_of_mem h.nodup hmem]
    exact congrArg some (hcontent'.trans ((congrArg dropMarks htext'.symm).trans hcontent.symm))
  · rw [hstands.readText_of_keeps hfolder hkeeps ((hkeeps.entry?_eq hfile hplace).trans hfile), htext] at hread
    refine .inr ⟨fun hsaved => ?_, ?_⟩
    · obtain ⟨g, hg, heq⟩ := List.mem_map.1 hsaved
      exact hplace (heq ▸ List.mem_map_of_mem (f := fun g => p.placeOf w g.1) hg)
    · have hsame : content = f.2 := hcontent.trans (Except.ok.inj hread)
      rwa [hsame] at hmem

end LineTags.Project
