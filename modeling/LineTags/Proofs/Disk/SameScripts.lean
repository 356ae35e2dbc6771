import LineTags.Proofs.CommandLine.Rerun
import LineTags.Proofs.Disk.IncludeLines
import LineTags.Proofs.Story.Tagging

/-!
# Loading and reading the same scripts

The loader goes through the scripts breadth first and passes over what it cannot read; the reader of stories goes depth first and asks the disk for what was not loaded. Where both end well, they have seen the same scripts unless some loaded script has an include that only one of them finds: `sameScripts_iff` says which of these includes matter. So there is no difference as long as all line breaks are plain.

The loader is cut off after `Workplace.reach` scripts; up to there it leaves out only what the disk refuses, by the invariant `LookedThrough` of its queue.
-/

namespace LineTags.Project

open Text Keyed StoryReader

variable {w : Workplace} {p p' : Project} {rootPath : Text} {queue queue' : List Text}

/-! ### What the loader leaves out -/

/-- The disk refuses the path of a script. -/
def IsRefused (w : Workplace) (p : Project) (name : Text) : Prop :=
  ∃ refusal path, loadScript w (p.pathOf w name) = .error (.refused refusal path)

/-- Every script that is not in the queue has been looked through: what it includes was loaded, unless the disk refused it. -/
def LookedThrough (w : Workplace) (p : Project) (queue : List Text) : Prop :=
  ∀ f ∈ p.files, f.1 ∉ queue → ∀ name ∈ includesOf f.1 f.2, name ∈ names p.files ∨ p.IsRefused w name

theorem LookedThrough.mem_names (h : LookedThrough w p queue) {f : Text × Text} (hf : f ∈ p.files) (hqueue : f.1 ∉ queue)
    {name : Text} (hname : name ∈ includesOf f.1 f.2) (hread : ∃ content, loadScript w (p.pathOf w name) = .ok content) :
    name ∈ names p.files := by
  rcases h f hf hqueue name hname with hmem | ⟨refusal, path, hrefused⟩
  · exact hmem
  · obtain ⟨content, hcontent⟩ := hread
    rw [hrefused] at hcontent
    cases hcontent

/-- Loading includes adds the same scripts to the project and to the queue, those among them that the disk does not refuse. -/
structure AddsIncludes (w : Workplace) (included : List Text) (p : Project) (queue : List Text) (p' : Project)
    (queue' : List Text) : Prop where
  added : ∃ new, p' = { p with files := p.files ++ new } ∧ queue' = queue ++ names new ∧ names new ⊆ included
  read : ∀ name ∈ included, name ∈ names p'.files ∨ p.IsRefused w name

theorem addsIncludes_loadIncludes {included : List Text} (h : loadIncludes w included (p, queue) = .ok (p', queue')) :
    AddsIncludes w included p queue p' queue' := by
  induction included generalizing p queue with
  | nil =>
    obtain ⟨rfl, rfl⟩ := Prod.mk.inj (Except.ok.inj h)
    refine ⟨⟨[], ?_, (List.append_nil _).symm, List.nil_subset _⟩, nofun⟩
    rw [List.append_nil]
  | cons name included ih =>
    rw [loadIncludes_cons] at h
    split at h
    · next hname =>
      obtain ⟨⟨new, rfl, rfl, hnew⟩, hread⟩ := ih h
      refine ⟨⟨new, rfl, rfl, List.subset_cons_of_subset _ hnew⟩, List.forall_mem_cons.2 ⟨.inl ?_, hread⟩⟩
      show _ ∈ names (p.files ++ new)
      rw [names, List.map_append]
      exact List.mem_append_left _ hname
    · next hname =>
      split at h
      · next content hcontent =>
        obtain ⟨⟨new, rfl, rfl, hnew⟩, hread⟩ := ih h
        refine ⟨⟨(name, content) :: new, ?_, ?_, ?_⟩, List.forall_mem_cons.2 ⟨.inl ?_, hread⟩⟩
        · exact congrArg (Project.mk p.rootPath) (List.append_assoc p.files [(name, content)] new)
        · exact List.append_assoc queue [name] (names new)
        · exact List.cons_subset_cons name hnew
        · exact Keyed.mem_names.2 ⟨content, List.mem_append_left _ (List.mem_append_right _ List.mem_cons_self)⟩
      · next refusal path hcontent =>
        obtain ⟨⟨new, rfl, rfl, hnew⟩, hread⟩ := ih h
        refine ⟨⟨new, rfl, rfl, List.subset_cons_of_subset _ hnew⟩, List.forall_mem_cons.2 ⟨.inr ?_, hread⟩⟩
        exact ⟨refusal, path, hcontent⟩
      · cases h

/-- One turn of the loader: the first script of the queue is looked through. -/
theorem loadQueue_succ_cons {reach : Nat} {name : Text} (h : loadQueue w (reach + 1) p (name :: queue) = .ok p') :
    ∃ p₁ queue₁, loadIncludes w (includesOf name ((p.files.lookup name).getD [])) (p, queue) = .ok (p₁, queue₁) ∧
      loadQueue w reach p₁ queue₁ = .ok p' := by
  rw [loadQueue] at h
  cases hincludes : loadIncludes w (includesOf name ((p.files.lookup name).getD [])) (p, queue) with
  | error e => rw [hincludes] at h; cases h
  | ok r =>
    rw [hincludes] at h
    exact ⟨r.1, r.2, rfl, h⟩

theorem lookup_getD_of_mem {entries : List (Text × Text)} (hnodup : (names entries).Nodup) {f : Text × Text}
    (hf : f ∈ entries) : (entries.lookup f.1).getD [] = f.2 := by
  rw [lookup_of_mem hnodup hf, Option.getD_some]

theorem LookedThrough.loadIncludes {name : Text} (h : LookedThrough w p (name :: queue)) (hnodup : (names p.files).Nodup)
    (hadds : AddsIncludes w (includesOf name ((p.files.lookup name).getD [])) p queue p' queue') :
    LookedThrough w p' queue' := by
  obtain ⟨⟨new, rfl, rfl, -⟩, hread⟩ := hadds
  intro f hf hqueue
  rw [List.mem_append, not_or] at hqueue
  have hmem : f ∈ p.files := (List.mem_append.1 hf).resolve_right fun hnew => hqueue.2 (List.mem_map_of_mem hnew)
  by_cases hname : f.1 = name
  · rw [← hname, lookup_getD_of_mem hnodup hmem] at hread
    exact hread
  · intro other hother
    have hnot : f.1 ∉ name :: queue := List.not_mem_cons_of_ne_of_not_mem hname hqueue.1
    refine (h f hmem hnot other hother).imp_left fun hloaded => ?_
    show other ∈ names (p.files ++ new)
    rw [names, List.map_append]
    exact List.mem_append_left _ hloaded

/-- The queue holds the scripts that are still to be looked through, so the loader is cut off only after as many turns as it may take. -/
theorem LookedThrough.loadQueue {reach done : Nat} (h : LookedThrough w p queue) (hloaded : p.Loaded w rootPath)
    (hlength : p.files.length = done + queue.length) (hload : Project.loadQueue w reach p queue = .ok p')
    (hreach : p'.files.length ≤ done + reach) : LookedThrough w p' [] := by
  induction reach generalizing p queue done with
  | zero =>
    obtain rfl := Except.ok.inj hload
    have hempty : queue = [] := List.eq_nil_of_length_eq_zero (by omega)
    exact hempty ▸ h
  | succ reach ih =>
    cases queue with
    | nil =>
      obtain rfl := Except.ok.inj hload
      exact h
    | cons name queue =>
      obtain ⟨p₁, queue₁, hincludes, hrest⟩ := loadQueue_succ_cons hload
      have hadds := addsIncludes_loadIncludes hincludes
      have hreach : p'.files.length ≤ done + 1 + reach := Nat.succ_add_eq_add_succ done reach ▸ hreach
      refine ih (h.loadIncludes hloaded.nodup hadds) (hloaded.loadIncludes hincludes) ?_ hrest hreach
      obtain ⟨⟨new, rfl, rfl, -⟩, -⟩ := hadds
      rw [List.length_cons] at hlength
      rw [List.length_append, List.length_append, names, List.length_map]
      omega

/-- A project that the loader was not cut off from has every include of its scripts that the disk did not refuse. -/
theorem lookedThrough_of_load (hload : load w rootPath = .ok p) (hreach : p.files.length ≤ w.reach) :
    LookedThrough w p [] := by
  obtain ⟨content, hread, hqueue⟩ := exists_of_load hload
  have hstart : LookedThrough w ⟨rootPath, [(Path.fileName rootPath, content)]⟩ [Path.fileName rootPath] := by
    intro f hf hnot
    rw [List.mem_singleton.1 hf] at hnot
    exact absurd List.mem_cons_self hnot
  have hlength : [(Path.fileName rootPath, content)].length = 0 + [Path.fileName rootPath].length := rfl
  exact hstart.loadQueue (loaded_root hread) hlength hqueue (by omega)

/-! ### Where the loader gets to -/

theorem exists_append_of_loadQueue {reach : Nat} (h : loadQueue w reach p queue = .ok p') :
    ∃ new, p'.files = p.files ++ new := by
  induction reach generalizing p queue with
  | zero =>
    obtain rfl := Except.ok.inj h
    exact ⟨[], (List.append_nil _).symm⟩
  | succ reach ih =>
    cases queue with
    | nil =>
      obtain rfl := Except.ok.inj h
      exact ⟨[], (List.append_nil _).symm⟩
    | cons name queue =>
      obtain ⟨p₁, queue₁, hincludes, hrest⟩ := loadQueue_succ_cons h
      obtain ⟨⟨new, rfl, -, -⟩, -⟩ := addsIncludes_loadIncludes hincludes
      obtain ⟨later, hlater⟩ := ih hrest
      exact ⟨new ++ later, hlater.trans (List.append_assoc _ _ _)⟩

/-- The loader does not leave a set of names that has with each loaded script the loaded ones among its includes. -/
theorem within_of_loadQueue {U : Text → Prop} {reach : Nat} (h : loadQueue w reach p queue = .ok p')
    (hclosed : ∀ f ∈ p'.files, U f.1 → ∀ name ∈ includesOf f.1 f.2, name ∈ names p'.files → U name)
    (hqueue : queue ⊆ names p.files) (hstart : ∀ name ∈ names p.files, U name) : ∀ name ∈ names p'.files, U name := by
  induction reach generalizing p queue with
  | zero =>
    obtain rfl := Except.ok.inj h
    exact hstart
  | succ reach ih =>
    cases queue with
    | nil =>
      obtain rfl := Except.ok.inj h
      exact hstart
    | cons name queue =>
      obtain ⟨p₁, queue₁, hincludes, hrest⟩ := loadQueue_succ_cons h
      obtain ⟨⟨new, rfl, rfl, hnew⟩, -⟩ := addsIncludes_loadIncludes hincludes
      obtain ⟨later, hlater⟩ := exists_append_of_loadQueue hrest
      have hname : name ∈ names p.files := hqueue List.mem_cons_self
      have hscript : (name, (p.files.lookup name).getD []) ∈ p'.files := by
        rw [hlater]
        exact List.mem_append_left _ (List.mem_append_left _ (mem_of_lookup (lookup_eq_some_getD hname [])))
      have hmore : names p'.files = names p.files ++ names new ++ names later := by
        rw [hlater, names, List.map_append, List.map_append]
        rfl
      refine ih hrest ?_ ?_
      · intro other hother
        show other ∈ names (p.files ++ new)
        rw [names, List.map_append]
        exact (List.mem_append.1 hother).elim
          (fun hother => List.mem_append_left _ (hqueue (List.mem_cons_of_mem _ hother))) (List.mem_append_right _)
      · intro other hother
        change other ∈ names (p.files ++ new) at hother
        rw [names, List.map_append] at hother
        rcases List.mem_append.1 hother with hother | hother
        · exact hstart other hother
        · refine hclosed _ hscript (hstart name hname) other (hnew hother) ?_
          rw [hmore]
          exact List.mem_append_left _ (List.mem_append_right _ hother)

theorem within_of_load {U : Text → Prop} (hload : load w rootPath = .ok p) (hroot : U p.rootName)
    (hclosed : ∀ f ∈ p.files, U f.1 → ∀ name ∈ includesOf f.1 f.2, name ∈ names p.files → U name) :
    ∀ name ∈ names p.files, U name := by
  have hpath := (loaded_of_load hload).rootPath
  rw [rootName, hpath] at hroot
  obtain ⟨content, -, hqueue⟩ := exists_of_load hload
  refine within_of_loadQueue hqueue hclosed (List.Subset.refl _) fun name hname => ?_
  rwa [List.mem_singleton.1 hname]

/-! ### What the reader reads of the project -/

variable {story : Story}

/-- What the reader takes for the text of a loaded script is what was loaded. -/
theorem eq_of_sourceText {f : Text × Text} (hnodup : (names p.files).Nodup) (hf : f ∈ p.files) {u : Text}
    (h : SourceText (libraryIn w (p.rootFolder w) p.files) p.rootName ((p.files.lookup p.rootName).getD []) f.1 u) :
    u = f.2 := by
  unfold SourceText at h
  split at h
  · next hroot => rw [h, ← hroot, lookup_getD_of_mem hnodup hf]
  · rw [Library.find?_of_lookup (lookup_of_mem hnodup hf)] at h
    exact (Except.ok.inj (Option.some.inj h)).symm

/-- What the reader finds under a name is in the project, or could have been loaded. -/
theorem mem_names_or_loadScript_of_find? {name u : Text}
    (h : (libraryIn w (p.rootFolder w) p.files).find? name = some (.ok u)) :
    name ∈ names p.files ∨ ∃ content, loadScript w (p.pathOf w name) = .ok content := by
  unfold Library.find? at h
  split at h
  · next t hlookup => exact .inl (lookup_isSome_iff.1 (Option.isSome_iff_exists.2 ⟨t, hlookup⟩))
  · unfold libraryIn at h
    dsimp only at h
    cases hread : w.readText (Path.inside (p.rootFolder w) name) with
    | ok t => exact .inr ⟨dropMarks t, congrArg (Except.map dropMarks) hread⟩
    | error e =>
      rw [hread] at h
      cases e <;> cases h

theorem Loaded.dropMarks_eq (h : p.Loaded w rootPath) {f : Text × Text} (hf : f ∈ p.files) : dropMarks f.2 = f.2 := by
  have hread := h.read f hf
  unfold loadScript at hread
  cases htext : w.readText (p.scriptPath w f.1) with
  | error e => rw [htext] at hread; cases hread
  | ok t =>
    rw [htext] at hread
    rw [← Except.ok.inj hread, Tagging.dropMarks_dropMarks]

/-- The reader does not leave the project if all that it includes from there was loaded. -/
theorem fileNames_subset (hloaded : p.Loaded w rootPath) (hlooked : LookedThrough w p []) (hparse : p.parse w = .ok story)
    (hread : ∀ f ∈ p.files, ∀ name ∈ inclusionsOf f.1 f.2, name ∉ includesOf f.1 f.2 → name ∈ names p.files) :
    ∀ name ∈ story.fileNames, name ∈ names p.files := by
  refine (grows_of_parse hparse).within (fun g v name u hg hsource hname hfind => ?_) fun name hname => ?_
  · obtain ⟨content, hmem⟩ := mem_names.1 hg
    obtain rfl := eq_of_sourceText (f := (g, content)) hloaded.nodup hmem hsource
    by_cases hfound : name ∈ includesOf g v
    · exact (mem_names_or_loadScript_of_find? hfind).elim id (hlooked.mem_names hmem List.not_mem_nil hfound)
    · exact hread (g, v) hmem name hname hfound
  · rw [List.mem_singleton.1 hname]
    exact hloaded.root

/-- A reader that does not leave the project reads every include of its scripts. -/
theorem inclusionsOf_subset (hloaded : p.Loaded w rootPath) (hparse : p.parse w = .ok story)
    (hwithin : ∀ name ∈ story.fileNames, name ∈ names p.files) {f : Text × Text} (hf : f ∈ p.files)
    (hname : f.1 ∈ story.fileNames) : inclusionsOf f.1 f.2 ⊆ story.fileNames := by
  have hdepth : (names p.files).length < (libraryIn w (p.rootFolder w) p.files).depth := by
    rw [names, List.length_map]
    exact Nat.lt_succ_of_le (Nat.le_add_right _ _)
  obtain ⟨u, hsource, hcovered⟩ := covered_of_parse hparse hwithin hdepth hname
  rw [eq_of_sourceText hloaded.nodup hf hsource] at hcovered
  exact hcovered.inclusions

/-- The loaded scripts are those of the story when all line breaks are plain. In general they are exactly if no include that the loader alone finds is loaded but not read, and none that the reader alone finds was not loaded. -/
theorem sameScripts_iff (hload : load w rootPath = .ok p) (hreach : p.files.length ≤ w.reach)
    (hparse : p.parse w = .ok story) :
    ((∀ f ∈ p.files, hasPlainBreaks f.2 = true) → ∀ name, name ∈ names p.files ↔ name ∈ story.fileNames) ∧
      ((∀ name, name ∈ names p.files ↔ name ∈ story.fileNames) ↔
        ∀ f ∈ p.files,
          (∀ name ∈ includesOf f.1 f.2, name ∉ inclusionsOf f.1 f.2 → name ∈ names p.files → name ∈ story.fileNames) ∧
          ∀ name ∈ inclusionsOf f.1 f.2, name ∉ includesOf f.1 f.2 → name ∈ names p.files) := by
  have hloaded := loaded_of_load hload
  have hlooked := lookedThrough_of_load hload hreach
  have hiff : (∀ name, name ∈ names p.files ↔ name ∈ story.fileNames) ↔
      ∀ f ∈ p.files,
        (∀ name ∈ includesOf f.1 f.2, name ∉ inclusionsOf f.1 f.2 → name ∈ names p.files → name ∈ story.fileNames) ∧
        ∀ name ∈ inclusionsOf f.1 f.2, name ∉ includesOf f.1 f.2 → name ∈ names p.files := by
    constructor
    · intro hsame f hf
      refine ⟨fun name _ _ hname => (hsame name).1 hname, fun name hname _ => (hsame name).2 ?_⟩
      exact inclusionsOf_subset hloaded hparse (fun name => (hsame name).2) hf ((hsame f.1).1 (List.mem_map_of_mem hf)) hname
    · intro hstray
      have hwithin := fileNames_subset hloaded hlooked hparse fun f hf => (hstray f hf).2
      refine fun name => ⟨within_of_load hload (root_mem_fileNames hparse) (fun f hf hread other hother hmem => ?_) name,
        hwithin name⟩
      by_cases hfound : other ∈ inclusionsOf f.1 f.2
      · exact inclusionsOf_subset hloaded hparse hwithin hf hread hfound
      · exact (hstray f hf).1 other hother hfound hmem
  refine ⟨fun hplain => hiff.2 fun f hf => ?_, hiff⟩
  have hsame := includesOf_eq (hplain f hf) (hloaded.dropMarks_eq hf) f.1
  exact ⟨fun name hname hnot => absurd (hsame ▸ hname) hnot, fun name hname hnot => absurd (hsame ▸ hname) hnot⟩

/-- Two scripts that include each other, one of them with carriage returns and a commented include. -/
def pair : Project where
  rootPath := "main.ink".toList
  files := [("main.ink".toList, "INCLUDE cave.ink\r\n// INCLUDE lake.ink\r\nHi\r\n".toList),
    ("cave.ink".toList, "Dark.\nINCLUDE main.ink".toList)]

/-- Both readers find the two scripts. -/
theorem sameScripts_iff_pair :
    ∃ story, load (Tagging.placeOfScripts pair) "main.ink".toList = .ok pair ∧
      pair.files.length ≤ (Tagging.placeOfScripts pair).reach ∧ pair.parse (Tagging.placeOfScripts pair) = .ok story ∧
      (∀ f ∈ pair.files, hasPlainBreaks f.2 = true) ∧ ∀ name, name ∈ names pair.files ↔ name ∈ story.fileNames := by
  have hload : load (Tagging.placeOfScripts pair) "main.ink".toList = .ok pair := by decide +kernel
  have hreach : pair.files.length ≤ (Tagging.placeOfScripts pair).reach := by decide +kernel
  have hmap : (pair.parse (Tagging.placeOfScripts pair)).toOption.map Story.fileNames =
      some ["main.ink".toList, "cave.ink".toList] := by decide +kernel
  obtain ⟨story, hparse, -⟩ := exists_parse_of_map hmap
  have hplain : ∀ f ∈ pair.files, hasPlainBreaks f.2 = true := by decide +kernel
  exact ⟨story, hload, hreach, hparse, hplain, (sameScripts_iff hload hreach hparse).1 hplain⟩

/-- A script with an include behind a form feed, and the script that it would name. -/
def formFeed : Project where
  rootPath := "main.ink".toList
  files := [("main.ink".toList, "x\x0cINCLUDE other.ink".toList), ("other.ink".toList, "Other".toList)]

/-- The loader takes the form feed for the end of a line and loads a script that is no part of the story. -/
theorem not_sameScripts_formFeed :
    ∃ story, load (Tagging.placeOfScripts formFeed) "main.ink".toList = .ok formFeed ∧
      formFeed.parse (Tagging.placeOfScripts formFeed) = .ok story ∧
      ¬∀ name, name ∈ names formFeed.files ↔ name ∈ story.fileNames := by
  have hload : load (Tagging.placeOfScripts formFeed) "main.ink".toList = .ok formFeed := by decide +kernel
  have hmap : (formFeed.parse (Tagging.placeOfScripts formFeed)).toOption.map Story.fileNames = some ["main.ink".toList] := by
    decide +kernel
  obtain ⟨story, hparse, hnames⟩ := exists_parse_of_map hmap
  refine ⟨story, hload, hparse, fun hsame => ?_⟩
  have hread : "other.ink".toList ∈ story.fileNames := (hsame _).1 (by decide +kernel)
  rw [hnames] at hread
  exact absurd hread (by decide +kernel)

end LineTags.Project
