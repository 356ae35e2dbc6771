import LineTags.Proofs.Keyed
import LineTags.Proofs.Story.TaggedFile

/-!
# Scripts that go on having a story

Whether a file has a story depends on little of its lines: which includes and headers they are, in which order, and that the others are empty or become branches. So if every line of the one kind is of that kind again, and every other line is what it was, then a file that had a story has one again. The included files may change in the same way; they only must all be there. How deep the reader may go does not matter as long as it can read every one of them.
-/

namespace LineTags

open Text LineForm Node StoryReader Keyed

/-! ### What a line is -/

/-- A line that is empty or becomes a branch, whatever file it is in and wherever it stands there. -/
def LineForm.passes (form : LineForm) : Bool := form = .empty || (lineBranch? [] 0 form).isSome

theorem isSome_lineBranch? (file file' : Text) (line line' : Nat) (form : LineForm) :
    (lineBranch? file line form).isSome = (lineBranch? file' line' form).isSome := by
  cases form with
  | empty | inclusion name | knotHeader name? | stitchHeader name? | logic name value | brokenDeclaration => rfl
  | divert body | choice body | gather body | narrative body =>
    rw [lineBranch?_narrative rfl, lineBranch?_narrative rfl, Option.isSome_map, Option.isSome_map]

/-- What a line is to the reader. -/
def formOf (l : Text) : LineForm := .ofCode (strip (codeOf l))

/-- Two lines that both are empty or become branches, or that are the same other thing. -/
def SameKind (l l' : Text) : Prop := ((formOf l).passes = true ∧ (formOf l').passes = true) ∨ formOf l = formOf l'

instance : DecidableRel SameKind := fun l l' =>
  inferInstanceAs (Decidable (((formOf l).passes = true ∧ (formOf l').passes = true) ∨ formOf l = formOf l'))

/-- Two scripts whose lines are of the same kinds. -/
def SameKinds (script script' : Text) : Prop :=
  List.Forall₂ SameKind (lines (dropMarks script)) (lines (dropMarks script'))

instance : DecidableRel SameKinds := fun script script' =>
  inferInstanceAs (Decidable (List.Forall₂ SameKind (lines (dropMarks script)) (lines (dropMarks script'))))

/-- A script each of whose lines is one of two others. -/
theorem SameKinds.of_mixed {script a b c : Text} (ha : SameKinds script a) (hb : SameKinds script b)
    (h : ∀ i : Nat, (lines c)[i]? = (lines a)[i]? ∨ (lines c)[i]? = (lines b)[i]?) : SameKinds script c := by
  have hread : ∀ i : Nat, (lines (dropMarks c))[i]? = (lines (dropMarks a))[i]? ∨
      (lines (dropMarks c))[i]? = (lines (dropMarks b))[i]? := by
    intro i
    rw [lines_dropMarks, lines_dropMarks, lines_dropMarks, List.getElem?_mapIdx, List.getElem?_mapIdx, List.getElem?_mapIdx]
    exact (h i).imp (congrArg _) (congrArg _)
  unfold SameKinds at ha hb ⊢
  generalize lines (dropMarks script) = ls at ha hb ⊢
  generalize lines (dropMarks a) = ks at ha hread
  generalize lines (dropMarks c) = cs at hread ⊢
  generalize lines (dropMarks b) = bs at hb hread
  induction ha generalizing bs cs with
  | nil =>
    cases hb
    have hnil := hread 0
    rw [or_self, List.getElem?_nil, List.getElem?_eq_none_iff, Nat.le_zero, List.length_eq_zero_iff] at hnil
    rw [hnil]
    exact .nil
  | @cons l k ls ks hk _ ih =>
    cases hb with
    | @cons _ k' _ ks' hk' hks' =>
      cases cs with
      | nil => exact absurd (hread 0) (by simp)
      | cons c cs =>
        refine .cons ?_ (ih cs ks' hks' fun i => hread (i + 1))
        rcases hread 0 with hc | hc
        · rw [Option.some.inj hc]
          exact hk
        · rw [Option.some.inj hc]
          exact hk'

namespace StoryReader

section

variable {library library' : Library} {readFile readFile' : Text → Text → Progress → Outcome (List Node × Progress)}
  {file : Text} {line : Nat} {form form' : LineForm} {page page' q : Page} {progress progress' : Progress}

/-! ### What is left of a page for the lines that follow -/

/-- The stitches that the open knot has, if one is open. -/
def Page.openStitches? (p : Page) : Option (List Text) := p.knot.map OpenKnot.stitchNames

theorem containerName?_lineBranch? {n : Node} (h : lineBranch? file line form = some n) : containerName? n = none := by
  obtain ⟨role, state, body, ps, hform, -, rfl⟩ | ⟨name, value, -, rfl⟩ := lineBranch?_cases h
  · cases form <;> cases hform <;> rfl
  · rfl

theorem Page.openStitches?_add {n : Node} (hn : containerName? n = none) (p : Page) :
    (p.add n).openStitches? = p.openStitches? := by
  obtain ⟨before, knot, after⟩ := p
  rcases knot with _ | ⟨name, place, content, stitch⟩
  · rfl
  · cases stitch with
    | none =>
      show some ((content ++ [n]).filterMap containerName?) = some (content.filterMap containerName?)
      rw [List.filterMap_append, List.filterMap_cons_none hn, List.filterMap_nil, List.append_nil]
    | some s =>
      show some ((content ++ [OpenStitch.node { s with content := s.content ++ [n] }]).filterMap containerName?) =
        some ((content ++ [s.node]).filterMap containerName?)
      rw [List.filterMap_append, List.filterMap_append]
      rfl

theorem Page.openStitches?_addInclude (n : Node) (p : Page) : (p.addInclude n).openStitches? = p.openStitches? := by
  obtain ⟨before, knot, after⟩ := p
  cases knot <;> rfl

theorem Page.openStitches?_openStitch (p : Page) (k : OpenKnot) (name : Text) (place : Place) :
    (p.openStitch k name place).openStitches? = some (k.stitchNames ++ [name]) := by
  show some ((k.close.content ++ [OpenStitch.node ⟨name, place, []⟩]).filterMap containerName?) = _
  rw [List.filterMap_append]
  rfl

/-- An empty line and a branch leave the progress and the open stitches as they are. -/
theorem exists_effect_of_passes (h : form.passes = true) (library : Library)
    (readFile : Text → Text → Progress → Outcome (List Node × Progress)) (file : Text) (line : Nat) (page : Page)
    (progress : Progress) :
    ∃ page', LineEffect library readFile file line page progress form page' progress ∧
      page'.openStitches? = page.openStitches? := by
  rcases Bool.or_eq_true_iff.1 h with hempty | hbranch
  · rw [of_decide_eq_true hempty]
    exact ⟨page, .empty, rfl⟩
  · rw [isSome_lineBranch? [] file 0 line] at hbranch
    obtain ⟨n, hn⟩ := Option.isSome_iff_exists.1 hbranch
    exact ⟨page.add n, .branch hn, Page.openStitches?_add (containerName?_lineBranch? hn) page⟩

/-! ### Reading lines of the same kinds -/

/-- Where one reader can read what is included, the other one can. -/
def ReadsToo (library library' : Library) (readFile readFile' : Text → Text → Progress → Outcome (List Node × Progress))
    (K : List Text → Prop) : Prop :=
  ∀ name t progress nodes progress', K progress.fileNames → name ∉ progress.fileNames →
    library.find? name = some (.ok t) → readFile name t progress = .ok (nodes, progress') →
    K progress'.fileNames ∧
      ∃ t' nodes', library'.find? name = some (.ok t') ∧ readFile' name t' progress = .ok (nodes', progress')

variable {K : List Text → Prop}

theorem LineEffect.of_sameKind {l l' : Text}
    (h : LineEffect library readFile file line page progress (formOf l) page' progress') (hkind : SameKind l l')
    (hpage : page.openStitches? = q.openStitches?) (hinclude : ReadsToo library library' readFile readFile' K)
    (hK : K progress.fileNames) :
    K progress'.fileNames ∧ ∃ q', LineEffect library' readFile' file line q progress (formOf l') q' progress' ∧
      page'.openStitches? = q'.openStitches? := by
  obtain ⟨hpasses, hpasses'⟩ | hsame := hkind
  · obtain ⟨mid, heffect, hmid⟩ := exists_effect_of_passes hpasses library readFile file line page progress
    obtain ⟨q', heffect', hq'⟩ := exists_effect_of_passes hpasses' library' readFile' file line q progress
    have heq := (readLine_of_effect h).symm.trans (readLine_of_effect heffect)
    obtain ⟨rfl, rfl⟩ := Prod.mk.inj (Except.ok.inj heq)
    exact ⟨hK, q', heffect', (hmid.trans hpage).trans hq'.symm⟩
  rw [← hsame]
  generalize formOf l = form at h
  cases h with
  | empty => exact ⟨hK, q, .empty, hpage⟩
  | repeated hmem => exact ⟨hK, q, .repeated hmem, hpage⟩
  | included hmem hfind hread =>
    obtain ⟨hafter, t', nodes', hfind', hread'⟩ := hinclude _ _ _ _ _ hK hmem hfind hread
    refine ⟨hafter, _, .included hmem hfind' hread', ?_⟩
    rw [Page.openStitches?_addInclude, Page.openStitches?_addInclude, hpage]
  | knot hname => exact ⟨hK, _, .knot hname, rfl⟩
  | @stitch k name hknot hname =>
    have hknots : some k.stitchNames = q.knot.map OpenKnot.stitchNames := by
      rw [← Option.map_some, ← hknot]
      exact hpage
    obtain ⟨k', hk', hnames⟩ := Option.map_eq_some_iff.1 hknots.symm
    refine ⟨hK, _, .stitch hk' (hnames ▸ hname), ?_⟩
    rw [Page.openStitches?_openStitch, Page.openStitches?_openStitch, hnames]
  | branch hn =>
    refine ⟨hK, _, .branch hn, ?_⟩
    rw [Page.openStitches?_add (containerName?_lineBranch? hn), Page.openStitches?_add (containerName?_lineBranch? hn), hpage]

theorem readLines_of_sameKind {ls ls' : List Text} (hkinds : List.Forall₂ SameKind ls ls')
    (h : readLines library readFile file line ls page progress = .ok (page', progress'))
    (hpage : page.openStitches? = q.openStitches?) (hinclude : ReadsToo library library' readFile readFile' K)
    (hK : K progress.fileNames) :
    K progress'.fileNames ∧ ∃ q', readLines library' readFile' file line ls' q progress = .ok (q', progress') := by
  induction hkinds generalizing line page progress q with
  | nil =>
    obtain ⟨rfl, rfl⟩ := Prod.mk.inj (Except.ok.inj h)
    exact ⟨hK, q, rfl⟩
  | cons hkind hkinds ih =>
    obtain ⟨mid, progress₁, heffect, hrest⟩ := readLines_cons_ok h
    obtain ⟨hK₁, mid', heffect', hmid⟩ := LineEffect.of_sameKind heffect hkind hpage hinclude hK
    obtain ⟨hafter, q', hread⟩ := ih hrest hmid hK₁
    exact ⟨hafter, q', (readLines_cons heffect').trans hread⟩

end

/-! ### Reading files of the same kinds -/

variable {library : Library} {scripts : List (Text × Text)} {depth depth' : Nat} {file t t' : Text} {nodes : List Node}
  {progress progress' : Progress} {fileNames fileNames' : List Text}

/-- How many scripts have not been read yet. -/
def unread (scripts : List (Text × Text)) (fileNames : List Text) : Nat :=
  (names scripts).countP fun name => !fileNames.contains name

theorem countP_unread_le (h : ∀ f ∈ fileNames, f ∈ fileNames') (l : List Text) :
    l.countP (fun name => !fileNames'.contains name) ≤ l.countP fun name => !fileNames.contains name := by
  refine List.countP_mono_left fun f _ hf => ?_
  rw [Bool.not_eq_true', List.contains_eq_mem, decide_eq_false_iff_not] at hf ⊢
  exact fun hmem => hf (h f hmem)

theorem unread_le (h : ∀ f ∈ fileNames, f ∈ fileNames') : unread scripts fileNames' ≤ unread scripts fileNames :=
  countP_unread_le h _

theorem unread_append_lt (hfile : file ∈ names scripts) (hnew : file ∉ fileNames) :
    unread scripts (fileNames ++ [file]) < unread scripts fileNames := by
  unfold unread
  obtain ⟨before, after, hsplit⟩ := List.append_of_mem hfile
  have hgrown : ∀ f ∈ fileNames, f ∈ fileNames ++ [file] := fun f hf => List.mem_append_left _ hf
  have hbefore := countP_unread_le hgrown before
  have hafter := countP_unread_le hgrown after
  rw [hsplit, List.countP_append, List.countP_append, List.countP_cons_of_neg (by simp),
    List.countP_cons_of_pos (by simpa using hnew)]
  omega

theorem unread_le_length (scripts : List (Text × Text)) (fileNames : List Text) : unread scripts fileNames ≤ scripts.length :=
  List.countP_le_length.trans (List.length_map _).le

/-- All scripts are in a library, and their lines are of the same kinds there. -/
def Offers (library : Library) (scripts : List (Text × Text)) : Prop :=
  ∀ name t, scripts.lookup name = some t → ∃ t', library.find? name = some (.ok t') ∧ SameKinds t t'

theorem find?_eq_some {name : Text} (h : Library.find? { files := scripts } name = some (.ok t)) :
    scripts.lookup name = some t := by
  unfold Library.find? at h
  dsimp only at h
  split at h
  · next found hfound => rw [hfound, Except.ok.inj (Option.some.inj h)]
  · cases h

theorem mem_names_of_find? {name : Text} (h : Library.find? { files := scripts } name = some (.ok t)) : name ∈ names scripts :=
  lookup_isSome_iff.1 (Option.isSome_iff_exists.2 ⟨t, find?_eq_some h⟩)

/-- What was read of scripts alone can be read of a library that offers them. -/
theorem exists_readFile_of_offers (hoffers : Offers library scripts)
    (h : readFile { files := scripts } depth file t progress = .ok (nodes, progress')) (hkinds : SameKinds t t')
    (hfile : file ∈ names scripts) (hnew : file ∉ progress.fileNames) (hdepth : unread scripts progress.fileNames ≤ depth)
    (hdepth' : unread scripts progress.fileNames ≤ depth') :
    ∃ nodes', readFile library depth' file t' progress = .ok (nodes', progress') := by
  induction depth generalizing depth' file t t' progress nodes progress' with
  | zero =>
    have hlt := unread_append_lt hfile hnew
    omega
  | succ depth ih =>
    have hlt := unread_append_lt hfile hnew
    obtain ⟨depth', rfl⟩ : ∃ k, depth' = k + 1 := ⟨depth' - 1, by omega⟩
    obtain ⟨page, hread, rfl⟩ := readFile_succ_ok h
    -- the file counts as read from here on, so less is unread wherever an include of it is read
    have hinclude : ReadsToo { files := scripts } library (readFile { files := scripts } depth) (readFile library depth')
        fun read => ∀ f ∈ progress.fileNames ++ [file], f ∈ read := by
      intro name u before ns after hbefore hname hfind hread
      obtain ⟨u', hfind', hkinds'⟩ := hoffers name u (find?_eq_some hfind)
      have hle : unread scripts before.fileNames ≤ unread scripts (progress.fileNames ++ [file]) := unread_le hbefore
      have hmem := mem_names_of_find? hfind
      have hdeep : unread scripts before.fileNames ≤ depth' := by omega
      obtain ⟨ns', hread'⟩ := ih hread hkinds' hmem hname (by omega) hdeep
      exact ⟨fun f hf => (readFile_avoids hread hname).1 f (hbefore f hf), u', ns', hfind', hread'⟩
    obtain ⟨-, q, hread'⟩ := readLines_of_sameKind hkinds hread rfl hinclude fun f hf => hf
    refine ⟨q.nodes, ?_⟩
    rw [readFile]
    show (readLines library _ file 1 (lines (dropMarks t')) {} _ >>= _) = _
    rw [hread']
    rfl

end StoryReader

variable {library : Library} {scripts : List (Text × Text)} {file t t' : Text} {story : Story}

/-- A script that has a story in the scripts alone has one in a library that offers them, as long as its lines are of the same kinds. -/
theorem exists_parse_of_offers (hoffers : Offers library scripts) (hparse : Story.parse { files := scripts } file t = .ok story)
    (hfile : file ∈ names scripts) (hkinds : SameKinds t t') (hdepth : scripts.length ≤ library.depth) :
    ∃ story', Story.parse library file t' = .ok story' := by
  unfold Story.parse at hparse
  have hunread := unread_le_length scripts []
  cases hread : readFile { files := scripts } (Library.depth { files := scripts }) file t ⟨[], []⟩ with
  | error e => rw [hread] at hparse; cases hparse
  | ok found =>
    have hdeep : unread scripts [] ≤ library.depth := Nat.le_trans hunread hdepth
    obtain ⟨nodes', hread'⟩ := exists_readFile_of_offers hoffers hread hkinds hfile List.not_mem_nil
      (Nat.le_succ_of_le hunread) hdeep
    refine ⟨⟨.branch .story (some ⟨some file, 1⟩) nodes', found.2.fileNames, found.2.knots⟩, ?_⟩
    unfold Story.parse
    rw [hread']
    rfl

end LineTags
