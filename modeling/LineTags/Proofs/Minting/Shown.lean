import LineTags.Proofs.Minting.Readback

/-!
# The lines of a run

A run has one group of candidates for each line that shows text, in whichever file of the story the line is, and no others. What the run finds on the line and what it puts before a new code are told from the line and from the headers before it.
-/

namespace LineTags

open Text LineForm Node StoryReader

/-- A line of a file of a story that shows text, with its pieces. -/
structure ShownLine (source : Text → Text → Prop) (story : Story) (file u : Text) (i : Nat) (ps : List Piece) : Prop where
  isRead : file ∈ story.fileNames
  text : source file u
  pieces : ∃ l, (lines (dropMarks u))[i]? = some l ∧ piecesIn? l = some ps
  shows : 0 < visible.ofPieces ps

/-- A group has the candidates of a line: its place, the identifiers found on it and the stem of its scope. -/
structure LineGroup.StandsFor (g : LineGroup) (file u : Text) (i : Nat) (ps : List Piece) : Prop where
  place : g.first.place = ⟨some file, ((1 + i : Nat) : Int)⟩
  found : ∀ identifier, identifier ∈ g.identifiers ↔ identifier ∈ foundIn ps
  stem : identifierStem g.first.ancestry = (Scope.ofLine (lines (dropMarks u)) i).stem

theorem LineGroup.StandsFor.identifiers_eq_nil_iff {g : LineGroup} {file u : Text} {i : Nat} {ps : List Piece}
    (h : g.StandsFor file u i ps) : g.identifiers = [] ↔ foundIn ps = [] := by
  rw [List.eq_nil_iff_forall_not_mem, List.eq_nil_iff_forall_not_mem]
  exact forall_congr' fun identifier => not_congr (h.found identifier)

variable {source : Text → Text → Prop} {scope : Scope}

theorem subset_ofNodes {n : Node} {ns : List Node} (h : n ∈ ns) (ancestry : List Container) (siblings : List Node)
    (index : Nat) : ∃ index', Candidate.ofNode ancestry siblings index' n ⊆ Candidate.ofNodes ancestry siblings index ns := by
  induction ns generalizing index with
  | nil => cases h
  | cons m ns ih =>
    rw [Candidate.ofNodes]
    rcases List.mem_cons.1 h with rfl | h
    · exact ⟨index, List.subset_append_left _ _⟩
    · obtain ⟨index', hsub⟩ := ih h (index + 1)
      exact ⟨index', List.Subset.trans hsub (List.subset_append_right _ _)⟩

/-- What stands on a line below some nodes are candidates of these nodes. -/
theorem subset_ofNodes_of_line {b : Node} {ns : List Node} (hb : b ∈ allLinesIn ns)
    (ih : ∀ n ∈ ns, b ∈ allLines n → ∀ ancestry siblings index, ∃ ancestry' siblings' index',
      Candidate.ofNode ancestry' siblings' index' b ⊆ Candidate.ofNode ancestry siblings index n)
    (ancestry : List Container) (siblings : List Node) (index : Nat) : ∃ ancestry' siblings' index',
      Candidate.ofNode ancestry' siblings' index' b ⊆ Candidate.ofNodes ancestry siblings index ns := by
  rw [allLinesIn_eq_flatMap] at hb
  obtain ⟨n, hn, hb⟩ := List.mem_flatMap.1 hb
  obtain ⟨index₁, hsub₁⟩ := subset_ofNodes hn ancestry siblings index
  obtain ⟨ancestry', siblings', index', hsub⟩ := ih n hn hb ancestry siblings index₁
  exact ⟨ancestry', siblings', index', List.Subset.trans hsub hsub₁⟩

theorem WellPlaced.subset_ofNode {n b : Node} (h : WellPlaced source scope n) (hb : b ∈ allLines n)
    (ancestry : List Container) (siblings : List Node) (index : Nat) : ∃ ancestry' siblings' index',
      Candidate.ofNode ancestry' siblings' index' b ⊆ Candidate.ofNode ancestry siblings index n := by
  induction h generalizing ancestry siblings index with
  | line _ _ hn =>
    rw [allLines_of_lineBranch? hn] at hb
    rw [List.mem_singleton.1 hb]
    exact ⟨ancestry, siblings, index, List.Subset.refl _⟩
  | inclusion hcontent ih | knot _ _ hcontent ih | stitch _ hcontent ih =>
    rw [allLines_structure rfl] at hb
    exact subset_ofNodes_of_line hb (fun n hn hb => ih n hn hb) _ _ 0

section

variable {library : Library} {root r : Text} {story : Story} (h : Story.parse library root r = .ok story)

include h

/-- A line that shows text has a candidate. -/
theorem exists_candidate_of_shownLine {file u : Text} {i : Nat} {ps : List Piece}
    (hshown : ShownLine (SourceText library root r) story file u i ps) :
    ∃ c ∈ Candidate.ofTree story.root, c.place = ⟨some file, ((1 + i : Nat) : Int)⟩ := by
  obtain ⟨rootPlace, content, hroot, hcontent⟩ := wellPlaced_of_parse h
  obtain ⟨files, hassembled⟩ := assembled_of_parse h
  obtain ⟨l, hl, hps⟩ := hshown.pieces
  obtain ⟨role, state, body, hform, hpieces⟩ := piecesIn?_eq_some_iff.1 hps
  -- the file is one of those read, with the same text
  have hfile := hshown.isRead
  rw [hassembled.names] at hfile
  obtain ⟨f, hf, rfl⟩ := List.mem_map.1 hfile
  obtain rfl : u = f.2 := hshown.text.eq (hassembled.texts f hf)
  have hbranch := lineBranch?_of_ok f.1 (1 + i) hform hpieces
  have hmem := hassembled.lines.mem_iff.2 (List.mem_flatMap.2 ⟨f, hf, mem_branchesFrom_iff.2 ⟨i, l, hl, hbranch⟩⟩)
  rw [hroot, allLines_structure rfl] at hmem
  obtain ⟨ancestry, siblings, index, hsub⟩ :=
    subset_ofNodes_of_line hmem (fun n hn => (hcontent n hn).subset_ofNode) [] content 0
  obtain ⟨hlogic, hcontainer⟩ := role_of_narrative? hform
  rw [Candidate.ofNode_branch _ _ _ _ _ hlogic hcontainer] at hsub
  obtain ⟨s, htext, hdark⟩ := (exists_text_iff _ ps).2 hshown.shows
  obtain ⟨c, hc, hplace⟩ := exists_candidate_of_text hdark htext ancestry _ 0
  refine ⟨c, ?_, hplace⟩
  rw [hroot, Candidate.ofTree_story]
  exact hsub hc

theorem exists_shownLine_of_group {g : LineGroup} (hg : g ∈ LineGroup.ofCandidates (Candidate.ofTree story.root)) :
    ∃ file u i ps, ShownLine (SourceText library root r) story file u i ps ∧ g.StandsFor file u i ps := by
  have hfirst := (LineGroup.gathered_ofCandidates _).mem g hg g.first List.mem_cons_self
  obtain ⟨file, u, i, l, ps, hsource, hl, hstands, hancestry⟩ := standsInScope_of_parse h hfirst
  obtain ⟨line, hline, rfl⟩ := getElem?_lines_dropMarks.1 hl
  have hfeed : .char '\n' ∉ ps :=
    lineFeed_not_mem_of_piecesIn? hstands.pieces (lineFeed_not_mem_of_mem_lines (List.mem_of_getElem? hline))
  have hnames := isContainerName_of_parse h g.first hfirst
  rw [hancestry] at hnames
  obtain ⟨file', hmem, -, i', -, -, -, hplace, -⟩ := exists_line_of_parse h hfirst
  obtain rfl : file' = file := Option.some.inj (congrArg Place.file (hplace.symm.trans hstands.place))
  refine ⟨file', u, i, ps, ⟨hmem, hsource, ⟨_, hl, hstands.pieces⟩, ?_⟩, ⟨hstands.place, fun identifier => ?_, ?_⟩⟩
  · exact (exists_text_iff _ _).1 ⟨_, hstands.text, hstands.dark⟩
  · exact StandsOn.mem_identifiers_iff h hg hsource hl hstands hfeed
  · rw [hancestry, Scope.identifierStem_containers hnames]

theorem exists_group_of_shownLine {file u : Text} {i : Nat} {ps : List Piece}
    (hshown : ShownLine (SourceText library root r) story file u i ps) :
    ∃ g ∈ LineGroup.ofCandidates (Candidate.ofTree story.root), g.StandsFor file u i ps := by
  obtain ⟨c, hc, hplace⟩ := exists_candidate_of_shownLine h hshown
  have hgathered := LineGroup.gathered_ofCandidates (Candidate.ofTree story.root)
  obtain ⟨g, hg, hmember⟩ := hgathered.covers c hc
  refine ⟨g, hg, ?_⟩
  obtain ⟨file', u', i', ps', hshown', hstands⟩ := exists_shownLine_of_group h hg
  have hsame := hstands.place.symm.trans ((hgathered.place g hg c hmember).symm.trans hplace)
  obtain rfl : file' = file := Option.some.inj (congrArg Place.file hsame)
  have hnumber : ((1 + i' : Nat) : Int) = ((1 + i : Nat) : Int) := congrArg Place.line hsame
  obtain rfl : i' = i := by omega
  obtain rfl := hshown'.text.eq hshown.text
  obtain ⟨l, hl, hps⟩ := hshown.pieces
  obtain ⟨l', hl', hps'⟩ := hshown'.pieces
  obtain rfl := Option.some.inj (hl'.symm.trans hl)
  obtain rfl := Option.some.inj (hps'.symm.trans hps)
  exact hstands

end

end LineTags
