import LineTags.Proofs.Story.Closure
import LineTags.Proofs.Story.Tagging

/-!
# Starting from another file

Whether scripts make up a story does not depend on the one that the reader starts from. What it needs can be said of a set of scripts, `SelfContained`: each keeps the rules on its own lines, includes no script outside the set, and no two knots of the set share a name. The files of a story are such a set; and from every member of such a set the reader gets to a story that stays in the set. The two traversals need not have anything else in common: they may meet the files in another order, through other includes.
-/

namespace LineTags

open Text LineForm Node StoryReader Keyed

/-- Scripts that can be read from every one of them. -/
structure SelfContained (files : List (Text × Text)) (S : Text → Prop) : Prop where
  script : ∀ f, S f → ∃ t, files.lookup f = some t ∧ keepsRules none (lines (dropMarks t)) = true ∧
    ∀ name ∈ inclusionsOf f t, S name
  knots : ∀ f t g u, S f → files.lookup f = some t → S g → files.lookup g = some u →
    ∀ k ∈ knotsOf f t, ∀ k' ∈ knotsOf g u, k.1 = k'.1 → k = k'

variable {files : List (Text × Text)} {S : Text → Prop} {r t : Text} {story : Story}

/-- The files of a story are all it needs. -/
theorem selfContained_of_parse (hroot : files.lookup r = some t) (h : Story.parse { files } r t = .ok story) :
    SelfContained files (· ∈ story.fileNames) := by
  have hfind : Library.find? { files } r = some (.ok t) := by rw [Library.find?, hroot]
  have hwithin : story.fileNames ⊆ names files := by
    refine (grows_of_parse h).within (fun g v name u _ _ _ hname => ?_) fun f hf => ?_
    · exact lookup_isSome_iff.1 (Option.isSome_iff_exists.2 ⟨u, find?_eq_some hname⟩)
    · rw [List.mem_singleton.1 hf]
      exact lookup_isSome_iff.1 (Option.isSome_iff_exists.2 ⟨t, hroot⟩)
  have hdepth : (names files).length < Library.depth { files } := by
    rw [names, List.length_map]
    exact Nat.lt_succ_self _
  have hcovered : ∀ f u, f ∈ story.fileNames → files.lookup f = some u →
      Covered f u ⟨story.fileNames, story.knots⟩ := by
    intro f u hf hlookup
    obtain ⟨v, hsource, hcovered⟩ := covered_of_parse h hwithin hdepth hf
    rwa [Option.some.inj (hlookup.symm.trans (find?_eq_some (hsource.find? hfind)))]
  refine ⟨fun f hf => ?_, fun f u g v hf hu hg hv k hk k' hk' hname => ?_⟩
  · obtain ⟨u, hsource, hcovered⟩ := covered_of_parse h hwithin hdepth hf
    exact ⟨u, find?_eq_some (hsource.find? hfind), hcovered.rules, hcovered.inclusions⟩
  · exact List.inj_on_of_nodup_map (nodup_knots_of_parse h) ((hcovered f u hf hu).knots hk)
      ((hcovered g v hg hv).knots hk') hname

/-! ### Reading in a self-contained set -/

namespace StoryReader

variable {library : Library} {readFile : Text → Text → Progress → Outcome (List Node × Progress)} {file : Text}
  {line : Nat} {form : LineForm} {stitches : Option (List Text)} {page : Page} {progress progress' progress'' : Progress}

/-- Nothing was read that is not of the set. -/
structure Known (files : List (Text × Text)) (S : Text → Prop) (progress : Progress) : Prop where
  within : ∀ f ∈ progress.fileNames, S f
  knots : ∀ k ∈ progress.knots, ∃ g u, g ∈ progress.fileNames ∧ files.lookup g = some u ∧ k ∈ knotsOf g u

/-- What was read since is of the set, and its knots are in the file at hand or in a file that is new. -/
structure ReadsOn (files : List (Text × Text)) (S : Text → Prop) (file : Text) (progress progress' : Progress) : Prop where
  known : Known files S progress'
  subset : progress.fileNames ⊆ progress'.fileNames
  knots : ∀ k ∈ progress'.knots, k ∈ progress.knots ∨ ∃ g, k.2.file = some g ∧ (g = file ∨ g ∉ progress.fileNames)

theorem ReadsOn.refl (h : Known files S progress) (file : Text) : ReadsOn files S file progress progress :=
  ⟨h, List.Subset.refl _, fun _ hk => .inl hk⟩

theorem ReadsOn.trans (h : ReadsOn files S file progress progress') (h' : ReadsOn files S file progress' progress'') :
    ReadsOn files S file progress progress'' where
  known := h'.known
  subset := List.Subset.trans h.subset h'.subset
  knots k hk := by
    rcases h'.knots k hk with hk | ⟨g, hfile, hg⟩
    · exact h.knots k hk
    · exact .inr ⟨g, hfile, hg.imp_right fun hnew hmem => hnew (h.subset hmem)⟩

/-- A file of the set that is not read yet can be read next. -/
def CanRead (files : List (Text × Text)) (S : Text → Prop) (start : List Text)
    (readFile : Text → Text → Progress → Outcome (List Node × Progress)) : Prop :=
  ∀ name u before, S name → files.lookup name = some u → Known files S before → start ⊆ before.fileNames →
    name ∉ before.fileNames → ∃ nodes after, readFile name u before = .ok (nodes, after) ∧ ReadsOn files S name before after

theorem exists_effect {start : List Text} (hself : SelfContained files S) (hS : S file) (hlookup : files.lookup file = some t)
    (hrules : form.stitchesAfter? page.openStitches? = some stitches)
    (hincluded : ∀ written, form = .inclusion written → Path.included file written ∈ inclusionsOf file t)
    (hknot : ∀ name, form = .knotHeader (some name) → (name, (⟨some file, line⟩ : Place)) ∈ knotsOf file t)
    (hknown : Known files S progress) (hfile : file ∈ progress.fileNames) (hstart : start ⊆ progress.fileNames)
    (hread : CanRead files S start readFile) (hbefore : ∀ k ∈ progress.knots, k.2.file = some file → k.2.line < line) :
    ∃ page' progress', LineEffect { files } readFile file line page progress form page' progress' ∧
      ReadsOn files S file progress progress' ∧
      ∀ k ∈ progress'.knots, k.2.file = some file → k.2.line < ((line + 1 : Nat) : Int) := by
  have hlater : ∀ k ∈ progress.knots, k.2.file = some file → k.2.line < ((line + 1 : Nat) : Int) := by
    intro k hk hplace
    have hlt := hbefore k hk hplace
    omega
  have hpasses : form.passes = true → ∃ page' progress',
      LineEffect { files } readFile file line page progress form page' progress' ∧
        ReadsOn files S file progress progress' ∧
        ∀ k ∈ progress'.knots, k.2.file = some file → k.2.line < ((line + 1 : Nat) : Int) := by
    intro hpasses
    obtain ⟨page', heffect, -⟩ := exists_effect_of_passes hpasses { files } readFile file line page progress
    exact ⟨page', progress, heffect, .refl hknown file, hlater⟩
  cases form with
  | inclusion written =>
    by_cases hmem : Path.included file written ∈ progress.fileNames
    · exact ⟨page, progress, .repeated hmem, .refl hknown file, hlater⟩
    obtain ⟨v, hv, -, hclosed⟩ := hself.script file hS
    obtain rfl := Option.some.inj (hlookup.symm.trans hv)
    have hname := hclosed _ (hincluded written rfl)
    obtain ⟨u, hu, -, -⟩ := hself.script _ hname
    obtain ⟨nodes, after, hinner, hreads⟩ := hread _ u progress hname hu hknown hstart hmem
    have hfind : Library.find? { files } (Path.included file written) = some (.ok u) := by rw [Library.find?, hu]
    -- the included file is another one, and so are the files that are read below it
    have hother : ∀ k ∈ after.knots, k ∈ progress.knots ∨ ∃ g, k.2.file = some g ∧ g ∉ progress.fileNames := by
      intro k hk
      refine (hreads.knots k hk).imp_right fun ⟨g, hplace, hg⟩ => ⟨g, hplace, ?_⟩
      rcases hg with rfl | hg
      · exact hmem
      · exact hg
    refine ⟨_, after, .included hmem hfind hinner, ⟨hreads.known, hreads.subset, fun k hk => ?_⟩, fun k hk hplace => ?_⟩
    · exact (hother k hk).imp_right fun ⟨g, hplace, hg⟩ => ⟨g, hplace, .inr hg⟩
    · rcases hother k hk with hk | ⟨g, hplace', hg⟩
      · exact hlater k hk hplace
      · rw [hplace] at hplace'
        exact absurd (Option.some.inj hplace' ▸ hfile) hg
  | knotHeader name? =>
    cases name? with
    | none => cases hrules
    | some name =>
      have hmem := hknot name rfl
      -- a knot of this name in the set would be this one, and this one comes only now
      have hnew : name ∉ progress.knotNames := by
        intro hname
        obtain ⟨k, hk, rfl⟩ := List.mem_map.1 hname
        obtain ⟨g, u, hg, hu, hkg⟩ := hknown.knots k hk
        have hsame := hself.knots file t g u hS hlookup (hknown.within g hg) hu _ hmem k hkg rfl
        have hlt := hbefore k hk (by rw [← hsame])
        rw [← hsame] at hlt
        exact absurd hlt (Int.lt_irrefl _)
      refine ⟨_, _, .knot hnew, ⟨⟨hknown.within, fun k hk => ?_⟩, List.Subset.refl _, fun k hk => ?_⟩, fun k hk hplace => ?_⟩
      · rcases List.mem_append.1 hk with hk | hk
        · exact hknown.knots k hk
        · rw [List.mem_singleton.1 hk]
          exact ⟨file, t, hfile, hlookup, hmem⟩
      · rcases List.mem_append.1 hk with hk | hk
        · exact .inl hk
        · rw [List.mem_singleton.1 hk]
          exact .inr ⟨file, rfl, .inl rfl⟩
      · rcases List.mem_append.1 hk with hk | hk
        · exact hlater k hk hplace
        · rw [List.mem_singleton.1 hk]
          exact Int.ofNat_lt.2 (Nat.lt_succ_self line)
  | stitchHeader name? =>
    cases name? with
    | none => cases hrules
    | some name =>
      cases hopen : page.openStitches? with
      | none => rw [hopen] at hrules; cases hrules
      | some stitchNames =>
        obtain ⟨k, hk, rfl⟩ := Option.map_eq_some_iff.1 hopen
        rw [hopen, stitchesAfter?] at hrules
        have hname : name ∉ k.stitchNames := by
          intro hname
          rw [if_pos (List.contains_iff_mem.2 hname)] at hrules
          cases hrules
        exact ⟨_, progress, .stitch hk hname, .refl hknown file, hlater⟩
  | brokenDeclaration => cases hrules
  | empty | logic name value => exact hpasses rfl
  | divert body | choice body | gather body | narrative body =>
    refine hpasses ?_
    unfold stitchesAfter? at hrules
    dsimp only at hrules
    split at hrules
    · assumption
    · cases hrules

theorem exists_readLines {ls start : List Text} (hself : SelfContained files S) (hS : S file)
    (hlookup : files.lookup file = some t) (hrules : keepsRules page.openStitches? ls = true) (hrest : Rest t line ls)
    (hknown : Known files S progress) (hfile : file ∈ progress.fileNames) (hstart : start ⊆ progress.fileNames)
    (hread : CanRead files S start readFile) (hbefore : ∀ k ∈ progress.knots, k.2.file = some file → k.2.line < line) :
    ∃ page' progress', readLines { files } readFile file line ls page progress = .ok (page', progress') ∧
      ReadsOn files S file progress progress' := by
  induction ls generalizing line page progress with
  | nil => exact ⟨page, progress, rfl, .refl hknown file⟩
  | cons l ls ih =>
    rw [keepsRules] at hrules
    cases hafter : (formOf l).stitchesAfter? page.openStitches? with
    | none => rw [hafter] at hrules; cases hrules
    | some stitches =>
      rw [hafter] at hrules
      obtain ⟨mid, progress₁, heffect, hreads, hbefore₁⟩ := exists_effect hself hS hlookup hafter
        (fun written => hrest.included file l List.mem_cons_self written) (fun name hform => hrest.knot hform file)
        hknown hfile hstart hread hbefore
      have hmid : mid.openStitches? = stitches :=
        Option.some.inj (heffect.stitchesAfter?.symm.trans hafter)
      obtain ⟨page', progress', hlines, hreads'⟩ := ih (hmid ▸ hrules) hrest.tail hreads.known (hreads.subset hfile)
        (List.Subset.trans hstart hreads.subset) hbefore₁
      exact ⟨page', progress', (readLines_cons heffect).trans hlines, hreads.trans hreads'⟩

theorem exists_readFile {depth : Nat} (hself : SelfContained files S) (hS : S file) (hlookup : files.lookup file = some t)
    (hknown : Known files S progress) (hnew : file ∉ progress.fileNames) (hdepth : unread files progress.fileNames ≤ depth) :
    ∃ nodes progress', StoryReader.readFile { files } depth file t progress = .ok (nodes, progress') ∧
      ReadsOn files S file progress progress' := by
  induction depth generalizing file t progress with
  | zero =>
    have hlt := unread_append_lt (lookup_isSome_iff.1 (Option.isSome_iff_exists.2 ⟨t, hlookup⟩)) hnew
    omega
  | succ depth ih =>
    have hlt := unread_append_lt (lookup_isSome_iff.1 (Option.isSome_iff_exists.2 ⟨t, hlookup⟩)) hnew
    have hread : CanRead files S (progress.fileNames ++ [file]) (StoryReader.readFile { files } depth) := by
      intro name u before hname hu hbefore hstart hnew'
      have hle : unread files before.fileNames ≤ unread files (progress.fileNames ++ [file]) := unread_le hstart
      exact ih hname hu hbefore hnew' (by omega)
    have hstart : Known files S { progress with fileNames := progress.fileNames ++ [file] } := by
      refine ⟨fun f hf => ?_, fun k hk => ?_⟩
      · rcases List.mem_append.1 hf with hf | hf
        · exact hknown.within f hf
        · rwa [List.mem_singleton.1 hf]
      · obtain ⟨g, u, hg, hu, hkg⟩ := hknown.knots k hk
        exact ⟨g, u, List.mem_append_left _ hg, hu, hkg⟩
    -- no knot of this file is known yet
    have hbefore : ∀ k ∈ progress.knots, k.2.file = some file → k.2.line < ((1 : Nat) : Int) := by
      intro k hk hplace
      obtain ⟨g, u, hg, -, hkg⟩ := hknown.knots k hk
      rw [file_of_mem_knotsFrom hkg] at hplace
      exact absurd (Option.some.inj hplace ▸ hg) hnew
    obtain ⟨t', ht', hrules, -⟩ := hself.script file hS
    obtain rfl := Option.some.inj (hlookup.symm.trans ht')
    have hrules : keepsRules ({} : Page).openStitches? (lines (dropMarks t)) = true := hrules
    obtain ⟨page, progress', hlines, hreads⟩ := exists_readLines hself hS hlookup hrules (.all t) hstart
      (List.mem_append_right _ List.mem_cons_self) (List.Subset.refl _) hread hbefore
    refine ⟨page.nodes, progress', ?_, hreads.known, ?_, fun k hk => ?_⟩
    · rw [StoryReader.readFile]
      show (readLines { files } _ file 1 (lines (dropMarks t)) {} _ >>= _) = _
      rw [hlines]
      rfl
    · exact List.Subset.trans (List.subset_append_left _ _) hreads.subset
    · obtain hold | ⟨g, hplace, hg⟩ := hreads.knots k hk
      · exact .inl hold
      · exact .inr ⟨g, hplace, hg.imp_right fun hnew' hmem => hnew' (List.mem_append_left _ hmem)⟩

end StoryReader

/-- Every script of a self-contained set has a story, and this story stays in the set. -/
theorem SelfContained.exists_parse (h : SelfContained files S) {f : Text} (hf : S f) :
    ∃ u story, files.lookup f = some u ∧ Story.parse { files } f u = .ok story ∧ ∀ g ∈ story.fileNames, S g := by
  obtain ⟨u, hu, -, -⟩ := h.script f hf
  have hstart : Known files S ⟨[], []⟩ := ⟨fun g hg => absurd hg List.not_mem_nil, fun k hk => absurd hk List.not_mem_nil⟩
  have hunread : unread files [] ≤ Library.depth { files } := Nat.le_succ_of_le (unread_le_length files [])
  obtain ⟨nodes, progress, hread, hreads⟩ := exists_readFile h hf hu hstart List.not_mem_nil hunread
  refine ⟨u, ⟨.branch .story (some ⟨some f, 1⟩) nodes, progress.fileNames, progress.knots⟩, hu, ?_, hreads.known.within⟩
  unfold Story.parse
  rw [hread]
  rfl

/-- Every file of a story can be the one that is read first: it has a story itself, of some of these files. -/
theorem exists_parse_of_mem_fileNames (hroot : files.lookup r = some t) (hparse : Story.parse { files } r t = .ok story) :
    ∀ f ∈ story.fileNames, ∃ u story', files.lookup f = some u ∧ Story.parse { files } f u = .ok story' ∧
      story'.fileNames ⊆ story.fileNames := by
  intro f hf
  obtain ⟨u, story', hu, hparse', hwithin⟩ := (selfContained_of_parse hroot hparse).exists_parse hf
  exact ⟨u, story', hu, hparse', hwithin⟩

/-- Two scripts that include each other, with a knot and a stitch of one name in both. -/
def ring : List (Text × Text) :=
  [("main.ink".toList, "INCLUDE cave/deep.ink\n=== Forest ===\n= Way\nHi".toList),
    ("cave/deep.ink".toList, "=== Cave ===\n= Way\nDark. -> Forest\nINCLUDE ../main.ink".toList)]

/-- The story of the included script comes to the root script on its last line, which the root's own story passes over. -/
theorem exists_parse_of_mem_fileNames_ring :
    ∃ t story u story', ring.lookup "main.ink".toList = some t ∧
      Story.parse { files := ring } "main.ink".toList t = .ok story ∧
      story.fileNames = ["main.ink".toList, "cave/deep.ink".toList] ∧ ring.lookup "cave/deep.ink".toList = some u ∧
      Story.parse { files := ring } "cave/deep.ink".toList u = .ok story' ∧ story'.fileNames ⊆ story.fileNames := by
  have hlookup : ring.lookup "main.ink".toList = some "INCLUDE cave/deep.ink\n=== Forest ===\n= Way\nHi".toList := by
    decide +kernel
  have hmap : (Story.parse { files := ring } "main.ink".toList
      "INCLUDE cave/deep.ink\n=== Forest ===\n= Way\nHi".toList).toOption.map Story.fileNames =
        some ["main.ink".toList, "cave/deep.ink".toList] := by decide +kernel
  obtain ⟨story, hparse, hnames⟩ := exists_parse_of_map hmap
  have hmem : "cave/deep.ink".toList ∈ story.fileNames := by
    rw [hnames]
    decide +kernel
  obtain ⟨u, story', hu, hparse', hsubset⟩ := exists_parse_of_mem_fileNames hlookup hparse _ hmem
  exact ⟨_, story, u, story', hlookup, hparse, hnames, hu, hparse', hsubset⟩

end LineTags
