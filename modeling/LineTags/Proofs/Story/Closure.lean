import LineTags.Proofs.Story.LineKinds
import LineTags.Proofs.Story.Sources
import Mathlib.Logic.Relation
import Mathlib.Data.List.Perm.Basic

/-!
# The files of a story

A reader goes from file to file along the includes and reads each once. What it has read grows by one thing at a time, `Grows`: a file that a line of a file before it includes, or a knot. So whatever such a step keeps, a whole reading keeps. And a reading leaves nothing behind: every file that it read is `Covered`, its lines break no rule, its includes have been read too, and its knots are known. The reader may stop short only where it runs out of depth, which it cannot as long as the files are among finitely many known ones.
-/

namespace LineTags

open Text LineForm Node StoryReader Keyed

/-! ### What a file asks of the others -/

/-- The name of an include, as it is written. -/
def LineForm.inclusion? : LineForm → Option Text
  | .inclusion written => some written
  | _ => none

/-- The names that the reader takes from the include lines of a script, in normal form. -/
def inclusionsOf (file t : Text) : List Text :=
  (lines (dropMarks t)).filterMap fun l => (formOf l).inclusion?.map (Path.included file)

/-- The knots that lines open, with their places. -/
def knotsFrom (file : Text) : Nat → List Text → List (Text × Place)
  | _, [] => []
  | line, l :: ls =>
    match formOf l with
    | .knotHeader (some name) => (name, ⟨some file, line⟩) :: knotsFrom file (line + 1) ls
    | _ => knotsFrom file (line + 1) ls

def knotsOf (file t : Text) : List (Text × Place) := knotsFrom file 1 (lines (dropMarks t))

theorem file_of_mem_knotsFrom {file : Text} {line : Nat} {ls : List Text} {k : Text × Place} (h : k ∈ knotsFrom file line ls) :
    k.2.file = some file := by
  induction ls generalizing line with
  | nil => cases h
  | cons l ls ih =>
    rw [knotsFrom] at h
    split at h
    · rcases List.mem_cons.1 h with rfl | h
      · rfl
      · exact ih h
    · exact ih h

/-! ### What a file asks of its own lines -/

/-- The stitches of the open knot behind a line, if a knot is open, where `stitches` are those before it. A line that breaks a rule has none, whatever the other files hold. -/
def LineForm.stitchesAfter? (stitches : Option (List Text)) : LineForm → Option (Option (List Text))
  | .inclusion _ => some stitches
  | .knotHeader (some _) => some (some [])
  | .stitchHeader (some name) =>
    match stitches with
    | some names => if names.contains name then none else some (some (names ++ [name]))
    | none => none
  | form => if form.passes then some stitches else none

/-- Whether lines break no rule on their own. -/
def keepsRules (stitches : Option (List Text)) : List Text → Bool
  | [] => true
  | l :: ls =>
    match (formOf l).stitchesAfter? stitches with
    | some stitches => keepsRules stitches ls
    | none => false

theorem LineForm.stitchesAfter?_of_passes {form : LineForm} (h : form.passes = true) (stitches : Option (List Text)) :
    form.stitchesAfter? stitches = some stitches := by
  cases form with
  | inclusion written => rfl
  | knotHeader name? | stitchHeader name? | brokenDeclaration => cases h
  | empty | logic name value | divert body | choice body | gather body | narrative body =>
    unfold stitchesAfter?
    exact if_pos h

namespace StoryReader

variable {library : Library} {readFile : Text → Text → Progress → Outcome (List Node × Progress)} {root r : Text}
  {file t : Text} {line : Nat} {form : LineForm} {page page' : Page} {progress progress' : Progress}

theorem LineEffect.stitchesAfter? (h : LineEffect library readFile file line page progress form page' progress') :
    form.stitchesAfter? page.openStitches? = some page'.openStitches? := by
  cases h with
  | empty => rfl
  | repeated hmem => rfl
  | included hmem hfind hread => rw [Page.openStitches?_addInclude]; rfl
  | knot hname => rfl
  | @stitch k name hknot hname =>
    have hnames : page.openStitches? = some k.stitchNames := congrArg (Option.map OpenKnot.stitchNames) hknot
    rw [Page.openStitches?_openStitch, hnames]
    exact if_neg (List.contains_iff_mem.not.2 hname)
  | @branch form n hbranch =>
    have hpasses : form.passes = true := by
      rw [passes, isSome_lineBranch? [] file 0 line, hbranch]
      exact Bool.or_true _
    rw [Page.openStitches?_add (containerName?_lineBranch? hbranch), stitchesAfter?_of_passes hpasses]

/-! ### How reading goes on -/

/-- One thing more is read: a file that a line of a file before it includes, or a knot of such a file. -/
inductive Progress.Step (library : Library) (root r : Text) (progress : Progress) : Progress → Prop
  | file {g v name u : Text} : g ∈ progress.fileNames → SourceText library root r g v → name ∈ inclusionsOf g v →
    name ∉ progress.fileNames → library.find? name = some (.ok u) →
    Step library root r progress { progress with fileNames := progress.fileNames ++ [name] }
  | knot {g v : Text} {k : Text × Place} : g ∈ progress.fileNames → SourceText library root r g v → k ∈ knotsOf g v →
    k.1 ∉ progress.knotNames → Step library root r progress { progress with knots := progress.knots ++ [k] }

/-- What is read in some steps. -/
abbrev Progress.Grows (library : Library) (root r : Text) : Progress → Progress → Prop :=
  Relation.ReflTransGen (Progress.Step library root r)

theorem Progress.Step.subset (h : Progress.Step library root r progress progress') :
    progress.fileNames ⊆ progress'.fileNames ∧ progress.knots ⊆ progress'.knots := by
  cases h with
  | file _ _ _ _ _ => exact ⟨List.subset_append_left _ _, List.Subset.refl _⟩
  | knot _ _ _ _ => exact ⟨List.Subset.refl _, List.subset_append_left _ _⟩

theorem Progress.Grows.subset (h : Progress.Grows library root r progress progress') :
    progress.fileNames ⊆ progress'.fileNames ∧ progress.knots ⊆ progress'.knots := by
  induction h with
  | refl => exact ⟨List.Subset.refl _, List.Subset.refl _⟩
  | tail _ hstep ih => exact ⟨List.Subset.trans ih.1 hstep.subset.1, List.Subset.trans ih.2 hstep.subset.2⟩

/-- Files and knots that are read once are read once in the end. -/
theorem Progress.Grows.nodup (h : Progress.Grows library root r progress progress')
    (hfiles : progress.fileNames.Nodup) (hknots : progress.knotNames.Nodup) :
    progress'.fileNames.Nodup ∧ progress'.knotNames.Nodup := by
  have happend : ∀ {l : List Text} {a : Text}, l.Nodup → a ∉ l → (l ++ [a]).Nodup := fun hl ha =>
    List.nodup_append.2 ⟨hl, List.nodup_singleton _, fun b hb c hc heq => ha (List.mem_singleton.1 hc ▸ heq ▸ hb)⟩
  induction h with
  | refl => exact ⟨hfiles, hknots⟩
  | tail _ hstep ih =>
    cases hstep with
    | file _ _ _ hnew _ => exact ⟨happend ih.1 hnew, ih.2⟩
    | knot _ _ _ hnew =>
      refine ⟨ih.1, ?_⟩
      rw [Progress.knotNames, List.map_append]
      exact happend ih.2 hnew

/-- Includes do not lead out of a set of files if they do not in any one file of the set. -/
theorem Progress.Grows.within {U : Text → Prop} (h : Progress.Grows library root r progress progress')
    (hclosed : ∀ g v name u, U g → SourceText library root r g v → name ∈ inclusionsOf g v →
      library.find? name = some (.ok u) → U name)
    (hstart : ∀ f ∈ progress.fileNames, U f) : ∀ f ∈ progress'.fileNames, U f := by
  induction h with
  | refl => exact hstart
  | tail _ hstep ih =>
    cases hstep with
    | knot _ _ _ _ => exact ih
    | @file g v name u hg hsource hincluded _ hfind =>
      intro f hf
      rcases List.mem_append.1 hf with hf | hf
      · exact ih f hf
      · rw [List.mem_singleton.1 hf]
        exact hclosed g v name u (ih g hg) hsource hincluded hfind

/-! ### Lines of a file that is being read -/

/-- Where the lines of a file from a line on stand in its text. -/
structure Rest (t : Text) (line : Nat) (ls : List Text) : Prop where
  included : ∀ file, ∀ l ∈ ls, ∀ written, formOf l = .inclusion written → Path.included file written ∈ inclusionsOf file t
  knots : ∀ file, knotsFrom file line ls ⊆ knotsOf file t

theorem Rest.all (t : Text) : Rest t 1 (lines (dropMarks t)) where
  included file l hl written hform := List.mem_filterMap.2 ⟨l, hl, by rw [hform]; rfl⟩
  knots file := List.Subset.refl _

theorem knotsFrom_subset_cons (file : Text) (line : Nat) (l : Text) (ls : List Text) :
    knotsFrom file (line + 1) ls ⊆ knotsFrom file line (l :: ls) := by
  rw [knotsFrom]
  split
  · exact List.subset_cons_self _ _
  · exact List.Subset.refl _

theorem Rest.tail {l : Text} {ls : List Text} (h : Rest t line (l :: ls)) : Rest t (line + 1) ls where
  included file k hk := h.included file k (List.mem_cons_of_mem _ hk)
  knots file := List.Subset.trans (knotsFrom_subset_cons file line l ls) (h.knots file)

theorem Rest.knot {l : Text} {ls : List Text} (h : Rest t line (l :: ls)) {name : Text}
    (hform : formOf l = .knotHeader (some name)) (file : Text) : (name, (⟨some file, line⟩ : Place)) ∈ knotsOf file t := by
  refine h.knots file ?_
  rw [knotsFrom, hform]
  exact List.mem_cons_self

/-- A file that is not read yet is not the root, so its text is the one in the library. -/
theorem sourceText_of_not_mem {name u : Text} (hroot : root ∈ progress.fileNames) (hnew : name ∉ progress.fileNames)
    (hfind : library.find? name = some (.ok u)) : SourceText library root r name u := by
  have hother : name ≠ root := fun heq => hnew (heq ▸ hroot)
  rw [SourceText, if_neg hother]
  exact hfind

/-- Reading a file, where it reads one at all, reads its name and then goes on step by step. -/
def GrowsFrom (library : Library) (root r name : Text) (progress progress' : Progress) : Prop :=
  progress' = progress ∨
    Progress.Grows library root r { progress with fileNames := progress.fileNames ++ [name] } progress'

theorem LineEffect.grows (h : LineEffect library readFile file line page progress form page' progress')
    (hsource : SourceText library root r file t) (hfile : file ∈ progress.fileNames) (hroot : root ∈ progress.fileNames)
    (hincluded : ∀ written, form = .inclusion written → Path.included file written ∈ inclusionsOf file t)
    (hknot : ∀ name, form = .knotHeader (some name) → (name, (⟨some file, line⟩ : Place)) ∈ knotsOf file t)
    (hread : ∀ name u before nodes after, readFile name u before = .ok (nodes, after) →
      SourceText library root r name u → root ∈ before.fileNames → GrowsFrom library root r name before after) :
    Progress.Grows library root r progress progress' := by
  cases h with
  | empty | repeated | stitch | branch => exact .refl
  | @included written u nodes _ hnew hfind hinner =>
    have hstep : Progress.Step library root r progress _ := .file hfile hsource (hincluded _ rfl) hnew hfind
    rcases hread _ _ _ _ _ hinner (sourceText_of_not_mem hroot hnew hfind) hroot with heq | hgrows
    · rw [heq]
    · exact .head hstep hgrows
  | knot hnew => exact .single (.knot hfile hsource (hknot _ rfl) hnew)

theorem grows_readLines {ls : List Text}
    (h : readLines library readFile file line ls page progress = .ok (page', progress')) (hrest : Rest t line ls)
    (hsource : SourceText library root r file t) (hfile : file ∈ progress.fileNames) (hroot : root ∈ progress.fileNames)
    (hread : ∀ name u before nodes after, readFile name u before = .ok (nodes, after) →
      SourceText library root r name u → root ∈ before.fileNames → GrowsFrom library root r name before after) :
    Progress.Grows library root r progress progress' := by
  induction ls generalizing line page progress with
  | nil =>
    obtain ⟨rfl, rfl⟩ := Prod.mk.inj (Except.ok.inj h)
    exact .refl
  | cons l ls ih =>
    obtain ⟨mid, progress₁, heffect, hlater⟩ := readLines_cons_ok h
    have hgrows := heffect.grows hsource hfile hroot (fun written => hrest.included file l List.mem_cons_self written)
      (fun name hform => hrest.knot hform file) hread
    exact hgrows.trans (ih hlater hrest.tail (hgrows.subset.1 hfile) (hgrows.subset.1 hroot))

theorem grows_readFile {depth : Nat} {nodes : List Node}
    (h : StoryReader.readFile library depth file t progress = .ok (nodes, progress')) (hsource : SourceText library root r file t)
    (hroot : file = root ∨ root ∈ progress.fileNames) : GrowsFrom library root r file progress progress' := by
  induction depth generalizing file t progress nodes progress' with
  | zero =>
    obtain ⟨-, rfl⟩ := Prod.mk.inj (Except.ok.inj h)
    exact .inl rfl
  | succ depth ih =>
    obtain ⟨page, hlines, -⟩ := readFile_succ_ok h
    have hfile : file ∈ progress.fileNames ++ [file] := List.mem_append_right _ List.mem_cons_self
    have hroot' : root ∈ progress.fileNames ++ [file] := by
      rcases hroot with rfl | hroot
      · exact hfile
      · exact List.mem_append_left _ hroot
    exact .inr (grows_readLines hlines (.all t) hsource hfile hroot' fun _ _ _ _ _ hread hsource hroot =>
      ih hread hsource (.inr hroot))

/-! ### What a reading leaves behind -/

/-- All that a file asks for has been read. -/
structure Covered (file t : Text) (progress : Progress) : Prop where
  rules : keepsRules none (lines (dropMarks t)) = true
  inclusions : inclusionsOf file t ⊆ progress.fileNames
  knots : knotsOf file t ⊆ progress.knots

theorem Covered.grows (h : Covered file t progress) (hgrows : Progress.Grows library root r progress progress') :
    Covered file t progress' where
  rules := h.rules
  inclusions := List.Subset.trans h.inclusions hgrows.subset.1
  knots := List.Subset.trans h.knots hgrows.subset.2

/-- Every file is covered that was not there at the start. -/
def CoversSince (library : Library) (root r : Text) (start : List Text) (progress : Progress) : Prop :=
  ∀ f ∈ progress.fileNames, f ∈ start ∨ ∃ u, SourceText library root r f u ∧ Covered f u progress

theorem CoversSince.trans {start : List Text} (h : CoversSince library root r start progress)
    (hgrows : Progress.Grows library root r progress progress')
    (hlater : CoversSince library root r progress.fileNames progress') : CoversSince library root r start progress' := by
  intro f hf
  rcases hlater f hf with hf | hcovered
  · rcases h f hf with hf | ⟨u, hsource, hcovered⟩
    · exact .inl hf
    · exact .inr ⟨u, hsource, hcovered.grows hgrows⟩
  · exact .inr hcovered

/-- What lines leave behind, read with all that they include. -/
structure LinesCovered (library : Library) (root r file : Text) (line : Nat) (ls : List Text) (page : Page)
    (progress progress' : Progress) : Prop where
  rules : keepsRules page.openStitches? ls = true
  inclusions : ∀ l ∈ ls, ∀ written, formOf l = .inclusion written → Path.included file written ∈ progress'.fileNames
  knots : knotsFrom file line ls ⊆ progress'.knots
  since : CoversSince library root r progress.fileNames progress'

theorem coversSince_refl (progress : Progress) : CoversSince library root r progress.fileNames progress :=
  fun _ hf => .inl hf

/-- What one line leaves behind. -/
theorem LineEffect.covered (h : LineEffect library readFile file line page progress form page' progress')
    (hread : ∀ name u nodes, name ∉ progress.fileNames → library.find? name = some (.ok u) →
      readFile name u progress = .ok (nodes, progress') →
      name ∈ progress'.fileNames ∧ CoversSince library root r progress.fileNames progress') :
    (∀ written, form = .inclusion written → Path.included file written ∈ progress'.fileNames) ∧
      (∀ name, form = .knotHeader (some name) → (name, (⟨some file, line⟩ : Place)) ∈ progress'.knots) ∧
      CoversSince library root r progress.fileNames progress' := by
  cases h with
  | empty => exact ⟨nofun, nofun, coversSince_refl progress⟩
  | repeated hmem =>
    refine ⟨fun written hform => ?_, nofun, coversSince_refl progress⟩
    rwa [← inclusion.inj hform]
  | included hnew hfind hinner =>
    obtain ⟨hname, hsince⟩ := hread _ _ _ hnew hfind hinner
    refine ⟨fun written hform => ?_, nofun, hsince⟩
    rwa [← inclusion.inj hform]
  | knot hnew =>
    refine ⟨nofun, fun name hform => ?_, fun _ hf => .inl hf⟩
    rw [← Option.some.inj (knotHeader.inj hform)]
    exact List.mem_append_right _ List.mem_cons_self
  | stitch hknot hname => exact ⟨nofun, nofun, coversSince_refl progress⟩
  | branch hbranch =>
    refine ⟨fun written hform => ?_, fun name hform => ?_, coversSince_refl progress⟩
    · rw [hform] at hbranch
      cases hbranch
    · rw [hform] at hbranch
      cases hbranch

theorem linesCovered_readLines {depth : Nat} {ls U start : List Text}
    (h : readLines library (StoryReader.readFile library depth) file line ls page progress = .ok (page', progress'))
    (hrest : Rest t line ls) (hsource : SourceText library root r file t) (hfile : file ∈ progress.fileNames)
    (hroot : root ∈ progress.fileNames) (hstart : start ⊆ progress.fileNames) (hfiles : progress.fileNames.Nodup)
    (hknots : progress.knotNames.Nodup) (hU : progress'.fileNames ⊆ U)
    (hread : ∀ name u (before after : Progress) nodes, start ⊆ before.fileNames → before.fileNames.Nodup →
      before.knotNames.Nodup → root ∈ before.fileNames → name ∉ before.fileNames → library.find? name = some (.ok u) →
      StoryReader.readFile library depth name u before = .ok (nodes, after) → after.fileNames ⊆ U →
      name ∈ after.fileNames ∧ CoversSince library root r before.fileNames after) :
    LinesCovered library root r file line ls page progress progress' := by
  induction ls generalizing line page progress with
  | nil =>
    obtain ⟨rfl, rfl⟩ := Prod.mk.inj (Except.ok.inj h)
    exact ⟨rfl, fun l hl => absurd hl List.not_mem_nil, List.nil_subset _, coversSince_refl progress⟩
  | cons l ls ih =>
    obtain ⟨mid, progress₁, heffect, hlater⟩ := readLines_cons_ok h
    have hgrow := fun name u before nodes after (hread : StoryReader.readFile library depth name u before = .ok (nodes, after))
      (hsource : SourceText library root r name u) (hroot : root ∈ before.fileNames) =>
        grows_readFile hread hsource (.inr hroot)
    have hgrows := heffect.grows hsource hfile hroot (fun written => hrest.included file l List.mem_cons_self written)
      (fun name hform => hrest.knot hform file) hgrow
    have hgrows' := grows_readLines hlater hrest.tail hsource (hgrows.subset.1 hfile) (hgrows.subset.1 hroot) hgrow
    obtain ⟨hfiles₁, hknots₁⟩ := hgrows.nodup hfiles hknots
    have hrest' := ih hlater hrest.tail (hgrows.subset.1 hfile) (hgrows.subset.1 hroot)
      (List.Subset.trans hstart hgrows.subset.1) hfiles₁ hknots₁
    obtain ⟨hinclusion, hknot, hsince⟩ := heffect.covered fun name u nodes hnew hfind hinner =>
      hread name u progress progress₁ nodes hstart hfiles hknots hroot hnew hfind hinner
        (List.Subset.trans hgrows'.subset.1 hU)
    refine ⟨?_, fun k hk written hform => ?_, ?_, hsince.trans hgrows' hrest'.since⟩
    · rw [keepsRules, formOf, heffect.stitchesAfter?]
      exact hrest'.rules
    · rcases List.mem_cons.1 hk with rfl | hk
      · exact hgrows'.subset.1 (hinclusion written hform)
      · exact hrest'.inclusions k hk written hform
    · rw [knotsFrom]
      split
      · next name hform => exact List.cons_subset.2 ⟨hgrows'.subset.2 (hknot name hform), hrest'.knots⟩
      · exact hrest'.knots

/-- A reader that is deep enough for all files there can be covers all that it reads. -/
theorem coversSince_readFile {depth : Nat} {nodes : List Node} {U : List Text}
    (h : StoryReader.readFile library depth file t progress = .ok (nodes, progress')) (hsource : SourceText library root r file t)
    (hroot : file = root ∨ root ∈ progress.fileNames) (hnew : file ∉ progress.fileNames)
    (hfiles : progress.fileNames.Nodup) (hknots : progress.knotNames.Nodup) (hU : progress'.fileNames ⊆ U)
    (hdepth : U.length < depth + progress.fileNames.length) :
    file ∈ progress'.fileNames ∧ CoversSince library root r progress.fileNames progress' := by
  induction depth generalizing file t progress nodes progress' with
  | zero =>
    -- the files read so far are distinct and all in `U`, so there is depth left
    obtain ⟨-, rfl⟩ := Prod.mk.inj (Except.ok.inj h)
    have hle := (List.subperm_of_subset hfiles hU).length_le
    omega
  | succ depth ih =>
    obtain ⟨page, hlines, -⟩ := readFile_succ_ok h
    have hfile : file ∈ progress.fileNames ++ [file] := List.mem_append_right _ List.mem_cons_self
    have hroot' : root ∈ progress.fileNames ++ [file] := by
      rcases hroot with rfl | hroot
      · exact hfile
      · exact List.mem_append_left _ hroot
    have hfiles' : (progress.fileNames ++ [file]).Nodup :=
      List.nodup_append.2 ⟨hfiles, List.nodup_singleton _, fun a ha b hb heq => hnew (List.mem_singleton.1 hb ▸ heq ▸ ha)⟩
    have hgrows := grows_readLines hlines (.all t) hsource hfile hroot' fun _ _ _ _ _ hread hsource hroot =>
      grows_readFile hread hsource (.inr hroot)
    have hcovered := linesCovered_readLines hlines (.all t) hsource hfile hroot' (List.Subset.refl _) hfiles' hknots hU
      fun name u before after nodes hstart hfiles hknots hroot hnew hfind hinner hU =>
        ih hinner (sourceText_of_not_mem hroot hnew hfind) (.inr hroot) hnew hfiles hknots hU (by
          have hle := (List.subperm_of_subset hfiles' hstart).length_le
          rw [List.length_append, List.length_singleton] at hle
          omega)
    have hown : Covered file t progress' := by
      refine ⟨hcovered.rules, fun name hname => ?_, hcovered.knots⟩
      obtain ⟨l, hl, hform⟩ := List.mem_filterMap.1 hname
      obtain ⟨written, hwritten, rfl⟩ := Option.map_eq_some_iff.1 hform
      refine hcovered.inclusions l hl written ?_
      cases hform : formOf l <;> rw [hform] at hwritten <;> cases hwritten
      rfl
    refine ⟨hgrows.subset.1 hfile, fun f hf => ?_⟩
    rcases hcovered.since f hf with hf | hlater
    · rcases List.mem_append.1 hf with hf | hf
      · exact .inl hf
      · rw [List.mem_singleton.1 hf]
        exact .inr ⟨t, hsource, hown⟩
    · exact .inr hlater

end StoryReader

/-! ### Whole stories -/

variable {library : Library} {root r : Text} {story : Story}

theorem sourceText_root (library : Library) (root r : Text) : SourceText library root r root r := by
  rw [SourceText, if_pos rfl]

theorem grows_of_parse (h : Story.parse library root r = .ok story) :
    Progress.Grows library root r ⟨[root], []⟩ ⟨story.fileNames, story.knots⟩ := by
  obtain ⟨page, progress, hlines, rfl⟩ := exists_page_of_parse h
  have hroot : root ∈ [root] := List.mem_singleton_self root
  exact grows_readLines hlines (.all r) (sourceText_root library root r) hroot hroot fun _ _ _ _ _ hread hsource hroot =>
    grows_readFile hread hsource (.inr hroot)

theorem root_mem_fileNames (h : Story.parse library root r = .ok story) : root ∈ story.fileNames :=
  (grows_of_parse h).subset.1 (List.mem_singleton_self root)

theorem nodup_fileNames_of_parse (h : Story.parse library root r = .ok story) : story.fileNames.Nodup :=
  ((grows_of_parse h).nodup (List.nodup_singleton root) List.nodup_nil).1

/-- A knot has its name to itself in the whole story. -/
theorem nodup_knots_of_parse (h : Story.parse library root r = .ok story) : (story.knots.map Prod.fst).Nodup :=
  ((grows_of_parse h).nodup (List.nodup_singleton root) List.nodup_nil).2

/-- All files of a story are covered by it, as long as there are no more of them than the reader has depth for. -/
theorem covered_of_parse (h : Story.parse library root r = .ok story) {U : List Text} (hU : story.fileNames ⊆ U)
    (hdepth : U.length < library.depth) {f : Text} (hf : f ∈ story.fileNames) :
    ∃ u, SourceText library root r f u ∧ Covered f u ⟨story.fileNames, story.knots⟩ := by
  unfold Story.parse at h
  cases hread : readFile library library.depth root r ⟨[], []⟩ with
  | error e => rw [hread] at h; cases h
  | ok found =>
    rw [hread] at h
    obtain rfl := Except.ok.inj h
    obtain ⟨-, hcovers⟩ := coversSince_readFile hread (sourceText_root library root r) (.inl rfl) List.not_mem_nil
      List.nodup_nil List.nodup_nil hU hdepth
    exact (hcovers f hf).resolve_left List.not_mem_nil

end LineTags
