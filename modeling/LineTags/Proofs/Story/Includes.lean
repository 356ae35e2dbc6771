import LineTags.Proofs.Story.Assembly
import LineTags.Proofs.Story.Unreadable

/-!
# Includes

Includes may lead anywhere: back to the file they stand in, round in a circle, or by several spellings to one file. Reading ends all the same, since what was read is not read again and a library without a disk has only so many names. So the bound on the depth of includes is never felt: the outcome is the same with more depth, and with any other reader where the bound would be met (`readFileOr_eq`).

Where reading ends with a story, `Brings` says of any stretch of it which includes the stretch puts into the tree: one for each file that is read, in the order of reading, and in each of them what the file gave when it was read.
-/

namespace LineTags

open Text LineForm Node StoryReader Keyed

namespace StoryReader

/-! ### How deep includes lead -/

abbrev Reader := Text → Text → Progress → Outcome (List Node × Progress)

/-- Reads a file, and with `below` the files that it includes. -/
def readWith (library : Library) (below : Reader) : Reader := fun file t progress => do
  let (page, progress) ← readLines library below file 1 (lines (dropMarks t)) {}
    { progress with fileNames := progress.fileNames ++ [file] }
  return (page.nodes, progress)

/-- Reads a file with `depth` levels of includes below it; what lies deeper is left to `beyond`. -/
def readFileOr (library : Library) (beyond : Reader) : Nat → Reader
  | 0 => beyond
  | depth + 1 => readWith library (readFileOr library beyond depth)

section

variable {library : Library} {read read' : Reader} {file t : Text} {line depth : Nat} {form : LineForm} {page : Page}
  {progress : Progress}

theorem readFile_succ : readFile library (depth + 1) = readWith library (readFile library depth) := rfl

theorem readLine_congr (h : ∀ name t, name ∉ progress.fileNames → library.find? name = some (.ok t) →
    read name t progress = read' name t progress) :
    readLine library read file line form page progress = readLine library read' file line form page progress := by
  cases form with
  | inclusion written =>
    rw [readLine_inclusion, readLine_inclusion]
    split
    · rfl
    · next hnew =>
      cases hfind : library.find? (Path.included file written) with
      | none => rfl
      | some found =>
        cases found with
        | error e => rfl
        | ok t => simp only [h _ t hnew hfind]
  | knotHeader name? => cases name? <;> rfl
  | empty | stitchHeader | logic | brokenDeclaration | divert | choice | gather | narrative => rfl

/-- Two readers that agree on all files that can be asked for read the same from some lines. -/
theorem readLines_congr {Q : List Text → Prop} {ls : List Text} (hQ : Q progress.fileNames)
    (h : ∀ name t before, Q before.fileNames → name ∉ before.fileNames → library.find? name = some (.ok t) →
      read name t before = read' name t before ∧
        ∀ nodes after, read' name t before = .ok (nodes, after) → Q after.fileNames) :
    readLines library read file line ls page progress = readLines library read' file line ls page progress := by
  induction ls generalizing line page progress with
  | nil => rfl
  | cons l ls ih =>
    rw [readLines, readLines, readLine_congr fun name t hnew hfind => (h name t progress hQ hnew hfind).1]
    cases hline : readLine library read' file line (.ofCode (strip (codeOf l))) page progress with
    | error e => rfl
    | ok found =>
      obtain ⟨mid, progress₁⟩ := found
      refine ih ?_
      rcases (effect_of_readLine hline).fileNames with hsame | ⟨name, t, nodes, hnew, hfind, hread⟩
      · rwa [hsame]
      · exact (h name t progress hQ hnew hfind).2 nodes progress₁ hread

theorem readWith_congr {Q : List Text → Prop} (hQ : Q (progress.fileNames ++ [file]))
    (h : ∀ name t before, Q before.fileNames → name ∉ before.fileNames → library.find? name = some (.ok t) →
      read name t before = read' name t before ∧
        ∀ nodes after, read' name t before = .ok (nodes, after) → Q after.fileNames) :
    readWith library read file t progress = readWith library read' file t progress := by
  rw [readWith, readWith, readLines_congr hQ h]

end

variable {files : List (Text × Text)} {file t : Text} {depth depth' : Nat} {progress : Progress}

/-- As long as there are fewer scripts to read than levels left, the bound on the depth is not met. -/
theorem readFileOr_eq (beyond : Reader) (h : unread files (progress.fileNames ++ [file]) < depth)
    (h' : unread files (progress.fileNames ++ [file]) < depth') :
    readFileOr { files } beyond depth file t progress = readFile { files } depth' file t progress := by
  induction depth generalizing depth' file t progress with
  | zero => exact absurd h (Nat.not_lt_zero _)
  | succ depth ih =>
    obtain ⟨depth', rfl⟩ : ∃ k, depth' = k + 1 := ⟨depth' - 1, by omega⟩
    rw [readFileOr, readFile_succ]
    -- every file that is included below leaves one script less to read
    refine readWith_congr (Q := fun read => ∀ f ∈ progress.fileNames ++ [file], f ∈ read) (fun f hf => hf)
      fun name u before hbefore hnew hfind => ?_
    have hfewer := unread_append_lt (mem_names_of_find? hfind) hnew
    have hrest : unread files before.fileNames ≤ unread files (progress.fileNames ++ [file]) := unread_le hbefore
    refine ⟨ih (by omega) (by omega), fun nodes after hread f hf => ?_⟩
    exact (readFile_avoids hread hnew).1 f (hbefore f hf)

theorem readFile_eq (h : unread files (progress.fileNames ++ [file]) < depth)
    (h' : unread files (progress.fileNames ++ [file]) < depth') :
    readFile { files } depth file t progress = readFile { files } depth' file t progress :=
  (readFileOr_eq (fun _ _ progress => .ok ([], progress)) h h).symm.trans (readFileOr_eq _ h h')

end StoryReader

/-! ### The includes in a tree -/

/-- The name of an include and what was read for it. -/
def Node.included? : Node → Option (Text × List Node)
  | .branch (.inclusion name) _ content => some (name, content)
  | _ => none

theorem skims_included? : Skims included? fun _ _ => none where
  knot _ _ _ := rfl
  stitch _ _ _ := rfl
  inline n hn := by
    cases hn with
    | text | tag => rfl
    | @branch role place content hrole => cases role <;> first | rfl | cases hrole

/-- A reading may go on from one progress to the other. -/
structure StoryReader.Progress.UpTo (progress progress' : Progress) : Prop where
  fileNames : progress.fileNames <+: progress'.fileNames
  knots : progress.knots <+: progress'.knots

theorem StoryReader.Progress.UpTo.trans {progress progress₁ progress' : Progress} (h : progress.UpTo progress₁)
    (h' : progress₁.UpTo progress') : progress.UpTo progress' :=
  ⟨h.fileNames.trans h'.fileNames, h.knots.trans h'.knots⟩

/-- A file is read in the course of a reading: `before` is what was read until then, and `after` what was read with it. -/
structure ReadAmid (library : Library) (final : Progress) (name t : Text) (content : List Node) (before after : Progress) :
    Prop where
  found : library.find? name = some (.ok t)
  read : readFile library library.depth name t before = .ok (content, after)
  named : Progress.UpTo { before with fileNames := before.fileNames ++ [name] } after
  within : after.UpTo final

/-- What a stretch of reading adds to some nodes: an include for each file that is read in it. -/
structure Brings (library : Library) (before : List Node) (progress : Progress) (new : List (Text × List Node))
    (after : List Node) (progress' : Progress) : Prop where
  names : progress'.fileNames = progress.fileNames ++ new.map Prod.fst
  knots : progress.knots <+: progress'.knots
  listed : collect included? after = collect included? before ++ new
  read : ∀ i ∈ new, ∃ t start done, ReadAmid library progress' i.1 t i.2 start done

namespace Brings

variable {library : Library} {before mid after : List Node} {progress progress₁ progress' : Progress}
  {new new' : List (Text × List Node)}

theorem upTo (h : Brings library before progress new after progress') : progress.UpTo progress' where
  fileNames := h.names ▸ List.prefix_append _ _
  knots := h.knots

theorem own (hnames : progress'.fileNames = progress.fileNames) (hknots : progress.knots <+: progress'.knots)
    (hlisted : collect included? after = collect included? before) : Brings library before progress [] after progress' where
  names := hnames.trans (List.append_nil _).symm
  knots := hknots
  listed := hlisted.trans (List.append_nil _).symm
  read := List.forall_mem_nil _

theorem trans (h : Brings library before progress new mid progress₁)
    (h' : Brings library mid progress₁ new' after progress') :
    Brings library before progress (new ++ new') after progress' where
  names := by rw [h'.names, h.names, List.map_append, List.append_assoc]
  knots := h.knots.trans h'.knots
  listed := by rw [h'.listed, h.listed, List.append_assoc]
  read i hi := by
    rcases List.mem_append.1 hi with hi | hi
    · obtain ⟨t, start, done, hread⟩ := h.read i hi
      exact ⟨t, start, done, { hread with within := hread.within.trans h'.upTo }⟩
    · exact h'.read i hi

/-- What was read of a file, seen from the page that includes it. -/
theorem addInclude {page : Page} (htidy : page.Tidy) {name t : Text} {place : Option Place} {nodes : List Node}
    (h : Brings library [] { progress with fileNames := progress.fileNames ++ [name] } new nodes progress')
    (hfind : library.find? name = some (.ok t))
    (hread : readFile library library.depth name t progress = .ok (nodes, progress')) :
    Brings library page.nodes progress ((name, nodes) :: new) (page.addInclude (.branch (.inclusion name) place nodes)).nodes
      progress' where
  names := by rw [h.names, List.append_assoc]; rfl
  knots := h.knots
  listed := by
    rw [skims_included?.collect_addInclude htidy, collect_branch, h.listed]
    rfl
  read := List.forall_mem_cons.2 ⟨⟨t, progress, progress', hfind, hread, h.upTo, ⟨List.prefix_rfl, List.prefix_rfl⟩⟩, h.read⟩

end Brings

namespace StoryReader

variable {library : Library} {readFile : Reader} {file : Text} {line : Nat} {form : LineForm} {page page' : Page}
  {progress progress' : Progress}

theorem LineEffect.brings (h : LineEffect library readFile file line page progress form page' progress') (htidy : page.Tidy)
    (hread : ∀ name t nodes, name ∉ progress.fileNames → library.find? name = some (.ok t) →
      readFile name t progress = .ok (nodes, progress') →
      StoryReader.readFile library library.depth name t progress = .ok (nodes, progress') ∧
        ∃ new, Brings library [] { progress with fileNames := progress.fileNames ++ [name] } new nodes progress') :
    ∃ new, Brings library page.nodes progress new page'.nodes progress' := by
  cases h with
  | empty | repeated => exact ⟨[], .own rfl List.prefix_rfl rfl⟩
  | included hnew hfind hinner =>
    obtain ⟨hsame, new, hbrings⟩ := hread _ _ _ hnew hfind hinner
    exact ⟨_, hbrings.addInclude htidy hfind hsame⟩
  | knot =>
    refine ⟨[], .own rfl (List.prefix_append _ _) ?_⟩
    exact (skims_included?.collect_openKnot _ _ _).trans (List.append_nil _)
  | stitch hknot => exact ⟨[], .own rfl List.prefix_rfl (skims_included?.collect_openStitch hknot _ _)⟩
  | branch hbranch =>
    exact ⟨[], .own rfl List.prefix_rfl (skims_included?.collect_add (inline_of_lineBranch? hbranch) page)⟩

theorem brings_readLines {Q : List Text → Prop} {ls : List Text}
    (h : readLines library readFile file line ls page progress = .ok (page', progress')) (htidy : page.Tidy)
    (hQ : Q progress.fileNames)
    (hread : ∀ name t nodes (before after : Progress), Q before.fileNames → name ∉ before.fileNames →
      library.find? name = some (.ok t) → readFile name t before = .ok (nodes, after) →
      Q after.fileNames ∧ StoryReader.readFile library library.depth name t before = .ok (nodes, after) ∧
        ∃ new, Brings library [] { before with fileNames := before.fileNames ++ [name] } new nodes after) :
    ∃ new, Brings library page.nodes progress new page'.nodes progress' := by
  induction ls generalizing line page progress with
  | nil =>
    obtain ⟨rfl, rfl⟩ := Prod.mk.inj (Except.ok.inj h)
    exact ⟨[], .own rfl List.prefix_rfl rfl⟩
  | cons l ls ih =>
    obtain ⟨mid, progress₁, heffect, hrest⟩ := readLines_cons_ok h
    obtain ⟨new, hbrings⟩ := heffect.brings htidy fun name t nodes hnew hfind hinner =>
      (hread name t nodes _ _ hQ hnew hfind hinner).2
    have hmid : Q progress₁.fileNames := by
      rcases heffect.fileNames with hsame | ⟨name, t, nodes, hnew, hfind, hinner⟩
      · rwa [hsame]
      · exact (hread name t nodes _ _ hQ hnew hfind hinner).1
    obtain ⟨new', hbrings'⟩ := ih hrest (heffect.tidy htidy) hmid
    exact ⟨new ++ new', hbrings.trans hbrings'⟩

theorem brings_readFile {files : List (Text × Text)} {depth : Nat} {t : Text} {nodes : List Node}
    (h : StoryReader.readFile { files } depth file t progress = .ok (nodes, progress'))
    (hdepth : unread files (progress.fileNames ++ [file]) < depth) :
    ∃ new, Brings { files } [] { progress with fileNames := progress.fileNames ++ [file] } new nodes progress' := by
  induction depth generalizing file t progress progress' nodes with
  | zero => exact absurd hdepth (Nat.not_lt_zero _)
  | succ depth ih =>
    obtain ⟨page, hlines, rfl⟩ := readFile_succ_ok h
    refine brings_readLines (Q := fun read => ∀ f ∈ progress.fileNames ++ [file], f ∈ read) hlines (fun _ => rfl)
      (fun f hf => hf) fun name u nodes before after hbefore hnew hfind hinner => ?_
    have hfewer := unread_append_lt (mem_names_of_find? hfind) hnew
    have hrest : unread files before.fileNames ≤ unread files (progress.fileNames ++ [file]) := unread_le hbefore
    have hbelow : unread files (before.fileNames ++ [name]) < depth := by omega
    refine ⟨fun f hf => (readFile_avoids hinner hnew).1 f (hbefore f hf), ?_, ih hinner hbelow⟩
    rw [← hinner]
    exact readFile_eq (Nat.lt_succ_of_le (unread_le_length _ _)) hbelow

end StoryReader

/-! ### Whole stories -/

/-- A story has read the root file and some of the files, each once, and with a file all that it includes. Its tree holds one include for each of them but the root, in the order of reading. In the include stands what reading the file under its name gave, with what had been read before it; the lines there are those of the file. -/
structure IncludedOnce (files : List (Text × Text)) (root r : Text) (story : Story) : Prop where
  nodup : story.fileNames.Nodup
  first : story.fileNames.head? = some root
  known : ∀ name ∈ story.fileNames.tail, name ∈ names files
  followed : ∀ file ∈ story.fileNames, ∃ t, SourceText { files } root r file t ∧ inclusionsOf file t ⊆ story.fileNames
  includes : (collect included? [story.root]).map Prod.fst = story.fileNames.tail
  content : ∀ name place content, .branch (.inclusion name) place content ∈ all story.root →
    ∃ t before after, ReadAmid { files } ⟨story.fileNames, story.knots⟩ name t content before after ∧
      files.lookup name = some t ∧ lineBranchesIn content = linesOf name t

theorem lineBranchesIn_readFile {library : Library} {depth : Nat} {file t : Text} {progress progress' : Progress}
    {nodes : List Node} (h : readFile library (depth + 1) file t progress = .ok (nodes, progress')) :
    lineBranchesIn nodes = linesOf file t := by
  obtain ⟨page, hlines, rfl⟩ := readFile_succ_ok h
  exact lineBranchesIn_readLines hlines rfl

variable {files : List (Text × Text)} {root r : Text} {story : Story}

section

variable (h : Story.parse { files } root r = .ok story)

include h

theorem exists_readFile_of_parse : ∃ content, story.root = .branch .story (some ⟨some root, 1⟩) content ∧
    readFile { files } (Library.depth { files }) root r ⟨[], []⟩ = .ok (content, ⟨story.fileNames, story.knots⟩) := by
  unfold Story.parse at h
  cases hread : readFile { files } (Library.depth { files }) root r ⟨[], []⟩ with
  | error e => rw [hread] at h; cases h
  | ok found =>
    rw [hread] at h
    obtain rfl := Except.ok.inj h
    exact ⟨found.1, rfl, rfl⟩

theorem brings_of_parse : ∃ content new, story.root = .branch .story (some ⟨some root, 1⟩) content ∧
    Brings { files } [] ⟨[root], []⟩ new content ⟨story.fileNames, story.knots⟩ := by
  obtain ⟨content, hroot, hread⟩ := exists_readFile_of_parse h
  obtain ⟨new, hbrings⟩ := brings_readFile hread (Nat.lt_succ_of_le (unread_le_length _ _))
  exact ⟨content, new, hroot, hbrings⟩

theorem known_of_parse {name : Text} (hname : name ∈ story.fileNames.tail) : name ∈ names files := by
  obtain ⟨_, new, _, hbrings⟩ := brings_of_parse h
  have hnames : story.fileNames = root :: new.map Prod.fst := hbrings.names
  rw [hnames] at hname
  obtain ⟨i, hi, rfl⟩ := List.mem_map.1 hname
  obtain ⟨t, before, after, hread⟩ := hbrings.read i hi
  exact mem_names_of_find? hread.found

theorem length_fileNames_le : story.fileNames.length ≤ files.length + 1 := by
  have hsub : story.fileNames.tail.Subperm (names files) :=
    List.subperm_of_subset (nodup_fileNames_of_parse h).tail fun _ => known_of_parse h
  have hle := hsub.length_le
  rw [List.length_tail, names, List.length_map] at hle
  omega

/-- With one level more there is depth for all files of the story, so none of them can be cut off. -/
theorem followed_of_parse {file : Text} (hfile : file ∈ story.fileNames) :
    ∃ t, SourceText { files } root r file t ∧ inclusionsOf file t ⊆ story.fileNames := by
  obtain ⟨content, -, hread⟩ := exists_readFile_of_parse h
  have hunread : unread files [root] < files.length + 1 := Nat.lt_succ_of_le (unread_le_length _ _)
  have hdeeper := (readFile_eq (Nat.lt_succ_of_lt hunread) hunread).trans hread
  obtain ⟨-, hcovers⟩ := coversSince_readFile hdeeper (sourceText_root _ root r) (.inl rfl) List.not_mem_nil List.nodup_nil
    List.nodup_nil (List.Subset.refl _) (Nat.lt_succ_of_le (length_fileNames_le h))
  obtain ⟨t, hsource, hcovered⟩ := (hcovers file hfile).resolve_left List.not_mem_nil
  exact ⟨t, hsource, hcovered.inclusions⟩

theorem includedOnce_of_parse : IncludedOnce files root r story := by
  obtain ⟨content, new, hroot, hbrings⟩ := brings_of_parse h
  have hnames : story.fileNames = root :: new.map Prod.fst := hbrings.names
  have hlisted : collect included? [story.root] = new := by
    rw [hroot, collect_branch, hbrings.listed]
    rfl
  refine ⟨nodup_fileNames_of_parse h, by rw [hnames]; rfl, fun _ => known_of_parse h, fun _ => followed_of_parse h,
    by rw [hlisted, hnames]; rfl, fun name place content hmem => ?_⟩
  have hi : (name, content) ∈ new := by
    rw [← hlisted, collect_singleton]
    exact List.mem_filterMap.2 ⟨_, hmem, rfl⟩
  obtain ⟨t, before, after, hread⟩ := hbrings.read _ hi
  exact ⟨t, before, after, hread, find?_eq_some hread.found, lineBranchesIn_readFile hread.read⟩

end

/-- Reading ends without meeting the bound on the depth, in a story that includes each file once or in an error of the script. -/
theorem parse_ends_includedOnce (files : List (Text × Text)) (root r : Text) :
    (∀ beyond depth, files.length < depth →
      readFileOr { files } beyond depth root r ⟨[], []⟩ = readFile { files } (Library.depth { files }) root r ⟨[], []⟩) ∧
    ((∃ story, Story.parse { files } root r = .ok story ∧ IncludedOnce files root r story) ∨
      ∃ e, Story.parse { files } root r = .error (.rejected e)) := by
  constructor
  · intro beyond depth hdepth
    have hunread := unread_le_length files [root]
    exact readFileOr_eq beyond (hunread.trans_lt hdepth) (Nat.lt_succ_of_le hunread)
  · cases hparse : Story.parse { files } root r with
    | ok story => exact .inl ⟨story, rfl, includedOnce_of_parse hparse⟩
    | error failure =>
      cases failure with
      | rejected e => exact .inr ⟨e, rfl⟩
      | unreadable e => exact absurd hparse (parse_ne_unreadable files root r e)

/-- Two files that include each other, themselves and the root, under several spellings. -/
example : (Story.parse { files := [("a.ink".toList, "INCLUDE main.ink\nINCLUDE b/../a.ink\nINCLUDE b.ink".toList),
      ("b.ink".toList, "INCLUDE ./a.ink".toList)] } "main.ink".toList "INCLUDE b.ink\nINCLUDE a.ink".toList).map Story.fileNames =
    .ok ["main.ink".toList, "b.ink".toList, "a.ink".toList] := by cbv

end LineTags
