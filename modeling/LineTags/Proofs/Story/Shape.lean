import LineTags.Proofs.Minting.Reporting
import LineTags.Proofs.Story.Assembly

/-!
# The shape of a story

A reader puts up no more than three levels: knots in a file, stitches in a knot, lines in any of them. So everything in the tree of a story is either well placed or inside a line, and what stands around a line follows from that. Where a candidate stands is told by a way, the child to go to at each level. As no two lines of a story have one place, all candidates of one place are at the end of one way.
-/

namespace LineTags

open Text LineForm Node StoryReader

/-! ### Ways -/

/-- The way from a node to the parent of a candidate, past no logic. -/
inductive Candidate.At (c : Candidate) : Node → List Nat → Prop
  | child {role : Role} {place : Option Place} : role.isLogic = false →
    c.siblings[c.index]? = some (.text c.raw (some c.place)) → c.At (.branch role place c.siblings) []
  | deeper {role : Role} {place : Option Place} {content : List Node} {i : Nat} {n : Node} {way : List Nat} :
    role.isLogic = false → content[i]? = some n → c.At n way → c.At (.branch role place content) (i :: way)

namespace Candidate

variable {c : Candidate}

theorem at_branch {role : Role} (hlogic : role.isLogic = false) (place : Option Place) {content : List Node}
    (h : ∃ i n, content[i]? = some n ∧
      ((c.siblings = content ∧ c.index = i ∧ n = .text c.raw (some c.place)) ∨ ∃ way, c.At n way)) :
    ∃ way, c.At (.branch role place content) way := by
  obtain ⟨i, n, hn, ⟨rfl, rfl, rfl⟩ | ⟨way, hway⟩⟩ := h
  · exact ⟨[], .child hlogic hn⟩
  · exact ⟨i :: way, .deeper hlogic hn hway⟩

mutual

/-- A candidate of a node is the node itself, or there is a way to it. -/
theorem at_of_mem_ofNode : ∀ (n : Node) (ancestry : List Container) (siblings : List Node) (index : Nat),
    c ∈ ofNode ancestry siblings index n →
      (c.siblings = siblings ∧ c.index = index ∧ n = .text c.raw (some c.place)) ∨ ∃ way, c.At n way
  | .text _ none => fun _ _ _ hc => nomatch hc
  | .text t (some place) => fun ancestry siblings index hc => by
    rw [ofNode] at hc
    split at hc
    · cases hc
    · rw [List.mem_singleton.1 hc]
      exact .inl ⟨rfl, rfl, rfl⟩
  | .tag _ _ => fun _ _ _ hc => nomatch hc
  | .branch role place content => fun ancestry siblings index hc => by
    by_cases hlogic : role.isLogic = true
    · rw [ofNode_logic _ _ _ _ _ hlogic] at hc
      cases hc
    · rw [Bool.not_eq_true] at hlogic
      have hbelow (above : List Container) (hc : c ∈ ofNodes above content 0 content) :
          ∃ way, c.At (.branch role place content) way := by
        obtain ⟨i, n, hn, hplaced⟩ := at_of_mem_ofNodes content above content 0 hc
        rw [Nat.zero_add] at hplaced
        exact at_branch hlogic place ⟨i, n, hn, hplaced⟩
      by_cases hcontainer : ∃ k, role = .container k
      · obtain ⟨k, rfl⟩ := hcontainer
        rw [ofNode_container] at hc
        exact .inr (hbelow _ hc)
      · rw [ofNode_branch _ _ _ _ _ hlogic fun k hk => hcontainer ⟨k, hk⟩] at hc
        exact .inr (hbelow _ hc)

theorem at_of_mem_ofNodes : ∀ (ns : List Node) (ancestry : List Container) (siblings : List Node) (index : Nat),
    c ∈ ofNodes ancestry siblings index ns → ∃ i n, ns[i]? = some n ∧
      ((c.siblings = siblings ∧ c.index = index + i ∧ n = .text c.raw (some c.place)) ∨ ∃ way, c.At n way)
  | [] => fun _ _ _ hc => nomatch hc
  | n :: ns => fun ancestry siblings index hc => by
    rw [ofNodes, List.mem_append] at hc
    rcases hc with hc | hc
    · exact ⟨0, n, rfl, at_of_mem_ofNode n ancestry siblings index hc⟩
    · obtain ⟨i, m, hm, hplaced⟩ := at_of_mem_ofNodes ns ancestry siblings (index + 1) hc
      rw [Nat.add_right_comm] at hplaced
      exact ⟨i + 1, m, hm, hplaced⟩

end

end Candidate

/-! ### Everything in the tree -/

theorem mem_all_branch {role : Role} {place : Option Place} {content : List Node} {m : Node} :
    m ∈ (Node.branch role place content).all ↔ m = .branch role place content ∨ ∃ n ∈ content, m ∈ n.all := by
  rw [Node.all, List.mem_cons, mem_allIn]

namespace WellPlaced

variable {source : Text → Text → Prop} {scope : Scope}

/-- Below a node that is well placed there are others, and the insides of lines. -/
theorem of_mem_all {n m : Node} (h : WellPlaced source scope n) (hm : m ∈ n.all) :
    (∃ scope', WellPlaced source scope' m) ∨ Inline m := by
  induction h with
  | line _ _ hn => exact .inr ((inline_of_lineBranch? hn).all hm)
  | inclusion hcontent ih =>
    obtain rfl | ⟨n, hn, hm⟩ := mem_all_branch.1 hm
    · exact .inl ⟨_, .inclusion hcontent⟩
    · exact ih n hn hm
  | knot hname hnames hcontent ih =>
    obtain rfl | ⟨n, hn, hm⟩ := mem_all_branch.1 hm
    · exact .inl ⟨_, .knot hname hnames hcontent⟩
    · exact ih n hn hm
  | stitch hname hcontent ih =>
    obtain rfl | ⟨n, hn, hm⟩ := mem_all_branch.1 hm
    · exact .inl ⟨_, .stitch hname hcontent⟩
    · exact ih n hn hm

theorem not_inline_structure {role : Role} {place : Option Place} {content : List Node} (hrole : role.isStructure = true) :
    ¬Inline (.branch role place content) := fun h => Bool.noConfusion (h.role.1.symm.trans hrole)

/-- Knots are at the top and stitches in a knot. -/
theorem container_cases {c : Container} {place : Option Place} {content : List Node}
    (h : WellPlaced source scope (.branch (.container c) place content)) :
    (scope = .top ∧ c.kind = .knot ∧ (content.filterMap containerName?).Nodup) ∨
      ((∃ k, scope = .knot k) ∧ c.kind = .stitch) := by
  cases h with
  | line _ _ hn => exact absurd (inline_of_lineBranch? hn) (not_inline_structure rfl)
  | knot _ hnames => exact .inl ⟨rfl, rfl, hnames⟩
  | stitch => exact .inr ⟨⟨_, rfl⟩, rfl⟩

/-- What knots and stitches are children of. -/
theorem parent_cases {n : Node} (h : WellPlaced source scope n) {c : Container} {place : Option Place} {content : List Node}
    (hchild : .branch (.container c) place content ∈ n.content) :
    (c.kind = .knot ∧ ∃ target place content, n = .branch (.inclusion target) place content) ∨
      (c.kind = .stitch ∧ ∃ name place content, n = .branch (.container ⟨.knot, name⟩) place content) := by
  cases h with
  | line _ _ hn =>
    have hinline := inline_of_lineBranch? hn
    cases n with
    | text | tag => cases hchild
    | branch role place' content' => exact absurd (hinline.role.2 _ hchild) (not_inline_structure rfl)
  | inclusion hcontent =>
    rcases (hcontent _ hchild).container_cases with ⟨-, hkind, -⟩ | ⟨⟨k, hscope⟩, -⟩
    · exact .inl ⟨hkind, _, _, _, rfl⟩
    · cases hscope
  | knot _ _ hcontent =>
    rcases (hcontent _ hchild).container_cases with ⟨hscope, -⟩ | ⟨-, hkind⟩
    · cases hscope
    · exact .inr ⟨hkind, _, _, _, rfl⟩
  | stitch _ hcontent =>
    rcases (hcontent _ hchild).container_cases with ⟨hscope, -⟩ | ⟨⟨k, hscope⟩, -⟩
    · cases hscope
    · cases hscope

theorem ne_text (t : Text) (place : Option Place) : ¬WellPlaced source scope (.text t place) := by
  intro h
  cases h with
  | line _ _ hn => obtain ⟨_, _, _, _, _, _, h⟩ | ⟨_, _, _, h⟩ := lineBranch?_cases hn <;> cases h

end WellPlaced

/-! ### One way for each place -/

namespace Candidate

variable {source : Text → Text → Prop} {scope : Scope} {c c' : Candidate} {way way' : List Nat}

theorem not_at_of_isPart {place : Place} {n : Node} (h : IsPart place n) : ¬c.At n way := by
  intro hat
  cases hat with
  | child hlogic hc =>
    rcases h with h | ⟨-, h⟩
    · exact Bool.noConfusion (hlogic.symm.trans h)
    · rw [h] at hc
      cases hc
  | deeper hlogic hn =>
    rcases h with h | ⟨-, rfl⟩
    · exact Bool.noConfusion (hlogic.symm.trans h)
    · cases hn

/-- The candidates of a line are children of its branch. -/
theorem At.of_lineBranch? {n : Node} (h : c.At n way) {file : Text} {line : Nat} {form : LineForm}
    (hn : lineBranch? file line form = some n) : way = [] ∧ some c.place = n.place := by
  obtain ⟨role, state, body, ps, -, -, rfl⟩ | ⟨name, value, -, rfl⟩ := lineBranch?_cases hn
  · have hparts := isPart_nodesOf ⟨some file, line⟩ ps
    generalize hsiblings : nodesOf ⟨some file, line⟩ ps = siblings at h hparts
    cases h with
    | child _ hc => exact ⟨rfl, hparts _ (List.mem_of_getElem? hc)⟩
    | deeper _ hm hat => exact absurd hat (not_at_of_isPart (hparts _ (List.mem_of_getElem? hm)))
  · generalize [Node.text value (some ⟨some file, line⟩)] = siblings at h
    cases h with
    | child hlogic => cases hlogic
    | deeper hlogic => cases hlogic

variable {role : Role} {place : Option Place} {content : List Node}

/-- The way to a candidate goes on where there are no texts. -/
theorem At.of_branch (h : c.At (.branch role place content) way)
    (hcontent : ∀ n ∈ content, ∃ scope, WellPlaced source scope n) :
    ∃ i n way', way = i :: way' ∧ content[i]? = some n ∧ c.At n way' := by
  cases h with
  | child _ hc =>
    obtain ⟨scope, hn⟩ := hcontent _ (List.mem_of_getElem? hc)
    exact absurd hn (WellPlaced.ne_text _ _)
  | deeper _ hn hat => exact ⟨_, _, _, rfl, hn, hat⟩

theorem At.place_mem_of_branch (h : c.At (.branch role place content) way)
    (hcontent : ∀ n ∈ content, ∃ scope, WellPlaced source scope n)
    (ih : ∀ n ∈ content, ∀ way, c.At n way → some c.place ∈ (allLines n).map Node.place) :
    some c.place ∈ (allLinesIn content).map Node.place := by
  obtain ⟨i, n, way', -, hn, hat⟩ := h.of_branch hcontent
  have hmem := List.mem_of_getElem? hn
  rw [allLinesIn_eq_flatMap, List.map_flatMap]
  exact List.mem_flatMap.2 ⟨n, hmem, ih n hmem way' hat⟩

theorem At.place_mem {n : Node} (hplaced : WellPlaced source scope n) (h : c.At n way) :
    some c.place ∈ (allLines n).map Node.place := by
  induction hplaced generalizing way with
  | line _ _ hn =>
    rw [allLines_of_lineBranch? hn, (h.of_lineBranch? hn).2]
    exact List.mem_singleton_self _
  | inclusion hcontent ih | knot _ _ hcontent ih | stitch _ hcontent ih =>
    rw [allLines_structure rfl]
    exact h.place_mem_of_branch (fun n hn => ⟨_, hcontent n hn⟩) fun n hn way hat => ih n hn hat

/-- Two ways to one place begin with the same child, since no two children share a line. -/
theorem At.eq_of_branch (h : c.At (.branch role place content) way) (h' : c'.At (.branch role place content) way')
    (hcontent : ∀ n ∈ content, ∃ scope, WellPlaced source scope n) (hplace : c.place = c'.place)
    (hnodup : ((allLinesIn content).map Node.place).Nodup)
    (ih : ∀ n ∈ content, ∀ way way', c.At n way → c'.At n way' → ((allLines n).map Node.place).Nodup → way = way') :
    way = way' := by
  obtain ⟨i, n, rest, rfl, hn, hat⟩ := h.of_branch hcontent
  obtain ⟨i', n', rest', rfl, hn', hat'⟩ := h'.of_branch hcontent
  rw [allLinesIn_eq_flatMap, List.map_flatMap, List.nodup_flatMap] at hnodup
  obtain ⟨hi, rfl⟩ := List.getElem?_eq_some_iff.1 hn
  obtain ⟨hi', rfl⟩ := List.getElem?_eq_some_iff.1 hn'
  obtain ⟨scope, hplaced⟩ := hcontent _ (List.getElem_mem hi)
  obtain ⟨scope', hplaced'⟩ := hcontent _ (List.getElem_mem hi')
  have hmem := hat.place_mem hplaced
  have hmem' := hplace ▸ hat'.place_mem hplaced'
  rcases Nat.lt_trichotomy i i' with hlt | rfl | hlt
  · exact absurd hmem' (List.pairwise_iff_getElem.1 hnodup.2 i i' hi hi' hlt hmem)
  · rw [ih _ (List.getElem_mem hi) _ _ hat hat' (hnodup.1 _ (List.getElem_mem hi))]
  · exact absurd hmem (List.pairwise_iff_getElem.1 hnodup.2 i' i hi' hi hlt hmem')

theorem At.eq {n : Node} (hplaced : WellPlaced source scope n) (h : c.At n way) (h' : c'.At n way')
    (hplace : c.place = c'.place) (hnodup : ((allLines n).map Node.place).Nodup) : way = way' := by
  induction hplaced generalizing way way' with
  | line _ _ hn => rw [(h.of_lineBranch? hn).1, (h'.of_lineBranch? hn).1]
  | inclusion hcontent ih | knot _ _ hcontent ih | stitch _ hcontent ih =>
    rw [allLines_structure rfl] at hnodup
    exact h.eq_of_branch h' (fun n hn => ⟨_, hcontent n hn⟩) hplace hnodup fun n hn way way' hat hat' => ih n hn hat hat'

end Candidate

/-! ### The shape -/

/-- What the tree of a story is like, told with the texts that it was read from. -/
structure Story.Shape (source : Text → Text → Prop) (story : Story) : Prop where
  root : ∃ place content, story.root = .branch .story place content
  /-- The knots of a story are those of its tree, in the order of the tree. -/
  knots : (all story.root).filterMap knot? = story.knots.map knotEntry
  knotNames : (story.knots.map Prod.fst).Nodup
  /-- The knots of each file are those that its lines open, in the order of the lines. -/
  fileKnots : ∀ file ∈ story.fileNames, ∃ t, source file t ∧ story.knots.filter (fun k => k.2.file = some file) = knotsOf file t
  knotParent : ∀ n ∈ all story.root, ∀ name place content, .branch (.container ⟨.knot, name⟩) place content ∈ n.content →
    n = story.root ∨ ∃ target place content, n = .branch (.inclusion target) place content
  stitchParent : ∀ n ∈ all story.root, ∀ name place content, .branch (.container ⟨.stitch, name⟩) place content ∈ n.content →
    ∃ k place content, n = .branch (.container ⟨.knot, k⟩) place content
  stitchNames : ∀ name place content, .branch (.container ⟨.knot, name⟩) place content ∈ all story.root →
    (content.filterMap containerName?).Nodup
  ancestry : ∀ c ∈ Candidate.ofTree story.root, c.ancestry = [] ∨ (∃ k, c.ancestry = [⟨.knot, k⟩]) ∨
    ∃ k s, c.ancestry = [⟨.knot, k⟩, ⟨.stitch, s⟩]
  placed : ∀ c ∈ Candidate.ofTree story.root, ∃ way, c.At story.root way
  /-- Candidates of one place are children of one node. -/
  oneParent : ∀ (c c' : Candidate) way way', c.At story.root way → c'.At story.root way' → c.place = c'.place → way = way'
  /-- The line of a candidate is there in the text of its file, with code on it. -/
  line : ∀ c ∈ Candidate.ofTree story.root, ∃ file ∈ story.fileNames, ∃ t i line, source file t ∧ (lines t)[i]? = some line ∧
    c.place = ⟨some file, ((1 + i : Nat) : Int)⟩ ∧ hasNoCode line = false

variable {library : Library} {root r : Text} {story : Story}

theorem Scope.containers_cases (scope : Scope) : scope.containers = [] ∨ (∃ k, scope.containers = [⟨.knot, k⟩]) ∨
    ∃ k s, scope.containers = [⟨.knot, k⟩, ⟨.stitch, s⟩] := by
  cases scope with
  | top => exact .inl rfl
  | knot k => exact .inr (.inl ⟨k, rfl⟩)
  | stitch k s => exact .inr (.inr ⟨k, s, rfl⟩)

/-- A line that is read to pieces has code, whatever marks it starts with. -/
theorem hasNoCode_of_piecesIn? {i : Nat} {line : Text} {ps : List Piece} (h : piecesIn? (readAs i line) = some ps) :
    hasNoCode line = false := by
  obtain ⟨role, state, body, hform, -⟩ := piecesIn?_eq_some_iff.1 h
  have hread := hasNoCode_of_narrative? hform
  unfold readAs at hread
  split at hread
  · obtain ⟨marks, read, rfl, hmarks, -, hdrop⟩ := exists_marks_append line
    rw [hdrop] at hread
    rw [hasNoCode, codeOf_append_of_isPlain (fun c hc => isPlain_of_mark (hmarks c hc)), isBlankText_append,
      show isBlankText (codeOf read) = false from hread, Bool.and_false]
  · exact hread

section

variable (h : Story.parse library root r = .ok story)

include h

/-- Knots stand in the root of a story or in an included file, and stitches in a knot. -/
theorem parent_of_parse {n : Node} (hn : n ∈ all story.root) {c : Container} {place : Option Place} {content : List Node}
    (hchild : .branch (.container c) place content ∈ n.content) :
    (c.kind = .knot ∧ (n = story.root ∨ ∃ target place content, n = .branch (.inclusion target) place content)) ∨
      (c.kind = .stitch ∧ ∃ name place content, n = .branch (.container ⟨.knot, name⟩) place content) := by
  obtain ⟨rootPlace, nodes, hroot, hnodes⟩ := wellPlaced_of_parse h
  rw [hroot] at hn
  obtain rfl | ⟨m, hm, hn⟩ := mem_all_branch.1 hn
  · rcases (hnodes _ hchild).container_cases with ⟨-, hkind, -⟩ | ⟨⟨k, hscope⟩, -⟩
    · exact .inl ⟨hkind, .inl hroot.symm⟩
    · cases hscope
  · rcases (hnodes m hm).of_mem_all hn with ⟨scope, hplaced⟩ | hinline
    · exact (hplaced.parent_cases hchild).imp_left fun ⟨hkind, hn⟩ => ⟨hkind, .inr hn⟩
    · cases hinline with
      | text | tag => cases hchild
      | branch _ hcontent => exact absurd (hcontent _ hchild) (WellPlaced.not_inline_structure rfl)

theorem stitchNames_of_parse {name : Text} {place : Option Place} {content : List Node}
    (hn : .branch (.container ⟨.knot, name⟩) place content ∈ all story.root) : (content.filterMap containerName?).Nodup := by
  obtain ⟨rootPlace, nodes, hroot, hnodes⟩ := wellPlaced_of_parse h
  rw [hroot] at hn
  obtain heq | ⟨m, hm, hn⟩ := mem_all_branch.1 hn
  · cases heq
  · rcases (hnodes m hm).of_mem_all hn with ⟨scope, hplaced⟩ | hinline
    · rcases hplaced.container_cases with ⟨-, -, hnames⟩ | ⟨-, hkind⟩
      · exact hnames
      · cases hkind
    · exact absurd hinline (WellPlaced.not_inline_structure rfl)

theorem exists_at_of_parse {c : Candidate} (hc : c ∈ Candidate.ofTree story.root) : ∃ way, c.At story.root way := by
  obtain ⟨place, content, hroot, -⟩ := wellPlaced_of_parse h
  rw [Candidate.ofTree_eq] at hc
  rcases Candidate.at_of_mem_ofNode story.root [] _ 0 hc with ⟨-, -, htext⟩ | hway
  · exact Node.noConfusion (hroot.symm.trans htext)
  · exact hway

theorem way_eq_of_parse {c c' : Candidate} {way way' : List Nat} (hat : c.At story.root way) (hat' : c'.At story.root way')
    (hplace : c.place = c'.place) : way = way' := by
  obtain ⟨place, content, hroot, hcontent⟩ := wellPlaced_of_parse h
  obtain ⟨files, hassembled⟩ := assembled_of_parse h
  have hnodup := hassembled.nodup_places (nodup_fileNames_of_parse h)
  rw [hroot, allLines_structure rfl] at hnodup
  rw [hroot] at hat hat'
  exact hat.eq_of_branch hat' (fun n hn => ⟨_, hcontent n hn⟩) hplace hnodup fun n hn way way' hat hat' hnodup =>
    hat.eq (hcontent n hn) hat' hplace hnodup

/-- A candidate stands on a line of a file of the story. -/
theorem exists_line_of_parse {c : Candidate} (hc : c ∈ Candidate.ofTree story.root) :
    ∃ file ∈ story.fileNames, ∃ t i line, SourceText library root r file t ∧ (lines t)[i]? = some line ∧
      c.place = ⟨some file, ((1 + i : Nat) : Int)⟩ ∧ hasNoCode line = false := by
  obtain ⟨place, content, hroot, hcontent⟩ := wellPlaced_of_parse h
  obtain ⟨files, hassembled⟩ := assembled_of_parse h
  obtain ⟨file, t, i, l, ps, hsource, hl, hstands⟩ := standsIn_of_parse h hc
  obtain ⟨line, hline, rfl⟩ := getElem?_lines_dropMarks.1 hl
  obtain ⟨way, hat⟩ := exists_at_of_parse h hc
  have hmem : some c.place ∈ (allLines story.root).map Node.place := by
    rw [hroot] at hat ⊢
    rw [allLines_structure rfl]
    exact hat.place_mem_of_branch (fun n hn => ⟨_, hcontent n hn⟩) fun n hn way hat => hat.place_mem (hcontent n hn)
  rw [hstands.place] at hmem
  exact ⟨file, hassembled.file_mem hmem, t, i, line, hsource, hline, hstands.place, hasNoCode_of_piecesIn? hstands.pieces⟩

theorem shape_of_parse : story.Shape (SourceText library root r) := by
  obtain ⟨files, hassembled⟩ := assembled_of_parse h
  obtain ⟨hfiles, hknots⟩ := (grows_of_parse h).nodup (List.nodup_singleton root) List.nodup_nil
  exact {
    root := by
      obtain ⟨place, content, hroot, -⟩ := wellPlaced_of_parse h
      exact ⟨place, content, hroot⟩
    knots := hassembled.knots
    knotNames := hknots
    fileKnots := fun file hfile => by
      rw [hassembled.names] at hfile
      obtain ⟨f, hf, rfl⟩ := List.mem_map.1 hfile
      exact ⟨f.2, hassembled.texts f hf, hassembled.knots_of_file hfiles hf⟩
    knotParent := fun n hn name place content hchild => by
      rcases parent_of_parse h hn hchild with ⟨-, hparent⟩ | ⟨hkind, -⟩
      · exact hparent
      · cases hkind
    stitchParent := fun n hn name place content hchild => by
      rcases parent_of_parse h hn hchild with ⟨hkind, -⟩ | ⟨-, hparent⟩
      · cases hkind
      · exact hparent
    stitchNames := fun name place content hn => stitchNames_of_parse h hn
    ancestry := fun c hc => by
      obtain ⟨file, u, i, line, ps, -, -, -, hancestry⟩ := standsInScope_of_parse h hc
      rw [hancestry]
      exact Scope.containers_cases _
    placed := fun c hc => exists_at_of_parse h hc
    oneParent := fun c c' way way' hat hat' hplace => way_eq_of_parse h hat hat' hplace
    line := fun c hc => exists_line_of_parse h hc }

end

/-- A file with a knot, and its text. -/
def asideFile : Text × Text := ("aside.ink".toList, "== function aside(x)\nAside".toList)

/-- An include in the middle of a stitch, and another knot behind it. -/
def includingStitch : Text := "Start\n=== hall ===\nHall\n= door\nDoor\nINCLUDE aside.ink\nStill at the door\n=== yard\nYard".toList

theorem shape_includingStitch : ∃ story, Story.parse ⟨[asideFile], fun _ => none, 0⟩ mainFile includingStitch = .ok story ∧
    story.knots.map Prod.fst = ["hall".toList, "aside".toList, "yard".toList] ∧
    (Candidate.ofTree story.root).map (fun c => c.ancestry.map Container.name) =
      [[], ["hall".toList], ["hall".toList, "door".toList], ["hall".toList, "door".toList], ["aside".toList], ["yard".toList]] ∧
    story.Shape (SourceText ⟨[asideFile], fun _ => none, 0⟩ mainFile includingStitch) := by
  have hmap : (Story.parse ⟨[asideFile], fun _ => none, 0⟩ mainFile includingStitch).toOption.map (fun story =>
      (story.knots.map Prod.fst, (Candidate.ofTree story.root).map (fun c => c.ancestry.map Container.name))) =
      some (["hall".toList, "aside".toList, "yard".toList],
        [[], ["hall".toList], ["hall".toList, "door".toList], ["hall".toList, "door".toList], ["aside".toList],
          ["yard".toList]]) := by decide +kernel
  obtain ⟨story, hparse, heq⟩ := exists_parse_of_map hmap
  obtain ⟨hknots, hancestry⟩ := Prod.mk.inj heq
  exact ⟨story, hparse, hknots, hancestry, shape_of_parse hparse⟩

end LineTags
