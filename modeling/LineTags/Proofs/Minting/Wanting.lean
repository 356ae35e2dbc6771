import LineTags.Proofs.Story.Sources
import LineTags.Proofs.Story.TaggedFile

/-!
# Lines that want a tag

Whether a run mints an identifier for a line can be told from the line alone: it is narrative, what is read of it has text that is not blank, and no tag on it holds an identifier. Both directions are needed to compare two runs. Each new identifier is for such a line of one of the scripts that the story was read from, and each such line of the root script gets a new identifier or is reported as a failure.
-/

namespace LineTags

open Text LineForm Node

/-- A line that is read as narrative text that is not blank, without an identifier. -/
def WantsTag (line : Text) : Prop :=
  ∃ role state body ps, (ofCode (strip (codeOf line))).narrative? = some (role, state, body) ∧ piecesOf state body = .ok ps ∧
    (∃ place t, .text t (some place) ∈ nodesOf place ps ∧ isBlankText t = false) ∧ ps.filterMap Piece.identifier? = []

/-! ### Texts among the nodes of a line -/

theorem mem_textNode {place other : Place} {s t : Text} :
    .text t (some place) ∈ textNode place s ↔ .text t (some other) ∈ textNode other s := by
  unfold textNode
  split
  · simp
  · simp

/-- The texts of a line do not depend on its place. -/
theorem mem_nodesOf {place other : Place} {ps : List Piece} {t : Text} :
    .text t (some place) ∈ nodesOf place ps ↔ .text t (some other) ∈ nodesOf other ps := by
  have hfst : ∀ ps, (nodesFrom place ps).1 = (nodesFrom other ps).1 := by
    intro ps
    induction ps with
    | nil => rfl
    | cons p ps ih =>
      cases p with
      | char c => exact congrArg (c :: ·) ih
      | bracket | interpolation body | tag t | divert target => rfl
  have hsnd : ∀ ps, .text t (some place) ∈ (nodesFrom place ps).2 ↔ .text t (some other) ∈ (nodesFrom other ps).2 := by
    intro ps
    induction ps with
    | nil => simp [nodesFrom]
    | cons p ps ih =>
      have hnode : .text t (some place) ∈ textNode place (nodesFrom other ps).1 ↔
          .text t (some other) ∈ textNode other (nodesFrom other ps).1 := mem_textNode
      cases p with
      | char c => exact ih
      | bracket | interpolation body | tag t | divert target =>
        simp [nodesFrom, ih, hfst ps, hnode]
  unfold nodesOf
  dsimp only
  rw [List.mem_append, List.mem_append, hsnd ps, hfst ps]
  exact or_congr_left mem_textNode

/-! ### What is minted is for lines that want a tag -/

/-- A candidate stands on a line of a file of the library, which wants a tag if no identifier is on it. -/
def OnLine (library : Library) (c : Candidate) : Prop :=
  ∃ file t i l, library.find? file = some (.ok t) ∧ (lines (dropMarks t))[i]? = some l ∧
    c.place = ⟨some file, ((1 + i : Nat) : Int)⟩ ∧ (c.lineIdentifiers = [] → WantsTag l)

variable {library : Library} {file t : Text}

theorem Library.find?_of_lookup {content : Text} (h : library.files.lookup file = some content) :
    library.find? file = some (.ok content) := by
  rw [Library.find?, h]

variable {story : Story}

theorem onLine_of_parse (hfile : library.find? file = some (.ok t)) (h : Story.parse library file t = .ok story) :
    ∀ c ∈ Candidate.ofTree story.root, OnLine library c := by
  intro c hc
  obtain ⟨file', t', i, l, ps, hsource, hl, hstands⟩ := standsIn_of_parse h hc
  obtain ⟨role, state, body, hform, hpieces⟩ := piecesIn?_eq_some_iff.1 hstands.pieces
  refine ⟨file', t', i, l, hsource.find? hfile, hl, hstands.place, fun hnone => ?_⟩
  refine ⟨role, state, body, ps, hform, hpieces, ⟨_, _, hstands.text, hstands.dark⟩, ?_⟩
  rw [← lineIdentifiers_of_siblings hstands.siblings]
  exact hnone

/-- Each new identifier is for a line that wants a tag, in one of the files that the story was read from. -/
theorem exists_wanting_of_mem_run (hfile : library.find? file = some (.ok t)) (h : Story.parse library file t = .ok story)
    {g : Generator} {existing : List Text} {e : IdEdit} (he : e ∈ (g.run existing story.root).1.edits) :
    ∃ file' t' i l, library.find? file' = some (.ok t') ∧ (lines (dropMarks t'))[i]? = some l ∧
      e.place = ⟨some file', ((1 + i : Nat) : Int)⟩ ∧ WantsTag l := by
  obtain ⟨group, hfirst, hnone, hplace, -⟩ := (g.run_edits existing story.root).2 e he
  obtain ⟨file', t', i, l, hfind, hl, hat, hwants⟩ := onLine_of_parse hfile h group.first hfirst
  exact ⟨file', t', i, l, hfind, hl, hplace.trans hat, hwants hnone⟩

/-! ### Each line that wants a tag is answered for -/

mutual

/-- What stands on the branch of a line stands in the tree. -/
theorem exists_subset_ofNode {n : Node} : ∀ m : Node, n ∈ lineBranches m → ∀ ancestry siblings index,
    ∃ ancestry' siblings' index', Candidate.ofNode ancestry' siblings' index' n ⊆ Candidate.ofNode ancestry siblings index m
  | .text _ _, h => nomatch h
  | .tag _ _, h => nomatch h
  | .branch role place content, h => fun ancestry siblings index => by
    have hself : n ∈ [Node.branch role place content] → ∃ ancestry' siblings' index',
        Candidate.ofNode ancestry' siblings' index' n ⊆
          Candidate.ofNode ancestry siblings index (.branch role place content) := by
      intro hn
      rw [List.mem_singleton.1 hn]
      exact ⟨ancestry, siblings, index, List.Subset.refl _⟩
    cases role with
    | container c => exact exists_subset_ofNodes content h _ content 0
    | story => exact exists_subset_ofNodes content h ancestry content 0
    | inclusion target => cases h
    | assignment | interpolation | logic | divert | choice | gather | line | group => exact hself h

theorem exists_subset_ofNodes {n : Node} : ∀ ms : List Node, n ∈ lineBranchesIn ms → ∀ ancestry siblings index,
    ∃ ancestry' siblings' index', Candidate.ofNode ancestry' siblings' index' n ⊆ Candidate.ofNodes ancestry siblings index ms
  | [], h => nomatch h
  | m :: ms, h => fun ancestry siblings index => by
    rcases List.mem_append.1 h with h | h
    · obtain ⟨ancestry', siblings', index', hsub⟩ := exists_subset_ofNode m h ancestry siblings index
      exact ⟨ancestry', siblings', index', List.Subset.trans hsub (List.subset_append_left _ _)⟩
    · obtain ⟨ancestry', siblings', index', hsub⟩ := exists_subset_ofNodes ms h ancestry siblings (index + 1)
      exact ⟨ancestry', siblings', index', List.Subset.trans hsub (List.subset_append_right _ _)⟩

end

theorem exists_candidate_of_text {place : Place} {s : Text} (hs : isBlankText s = false) {ns : List Node}
    (h : .text s (some place) ∈ ns) (ancestry : List Container) (siblings : List Node) (index : Nat) :
    ∃ c ∈ Candidate.ofNodes ancestry siblings index ns, c.place = place := by
  induction ns generalizing index with
  | nil => cases h
  | cons n ns ih =>
    rw [Candidate.ofNodes]
    rcases List.mem_cons.1 h with rfl | h
    · refine ⟨⟨s, siblings, index, ancestry, place⟩, List.mem_append_left _ ?_, rfl⟩
      rw [Candidate.ofNode, hs]
      exact List.mem_cons_self
    · obtain ⟨c, hc, hplace⟩ := ih h (index + 1)
      exact ⟨c, List.mem_append_right _ hc, hplace⟩

/-- A line of the root script that shows text has a candidate. -/
theorem exists_candidate_of_shown (h : Story.parse library file t = .ok story) {i : Nat} {l : Text}
    (hl : (lines (dropMarks t))[i]? = some l) {role : Role} {state : BracketState} {body : Text} {ps : List Piece}
    (hform : (ofCode (strip (codeOf l))).narrative? = some (role, state, body)) (hpieces : piecesOf state body = .ok ps)
    {other : Place} {s : Text} (htext : .text s (some other) ∈ nodesOf other ps) (hblank : isBlankText s = false) :
    ∃ c ∈ Candidate.ofTree story.root, c.place = ⟨some file, ((1 + i : Nat) : Int)⟩ := by
  obtain ⟨page, progress, hlines, rfl⟩ := exists_page_of_parse h
  have hbranch := StoryReader.lineBranch?_of_ok file (1 + i) hform hpieces
  have hmem : _ ∈ StoryReader.branchesFrom file 1 (lines (dropMarks t)) := mem_branchesFrom_iff.2 ⟨i, l, hl, hbranch⟩
  rw [← lineBranches_parse hlines] at hmem
  obtain ⟨ancestry, siblings, index, hsub⟩ := exists_subset_ofNodes page.nodes hmem [] page.nodes 0
  obtain ⟨hlogic, hcontainer⟩ := StoryReader.role_of_narrative? hform
  rw [Candidate.ofNode_branch _ _ _ _ _ hlogic hcontainer] at hsub
  have hthere : .text s (some ⟨some file, ((1 + i : Nat) : Int)⟩) ∈ nodesOf ⟨some file, ((1 + i : Nat) : Int)⟩ ps :=
    mem_nodesOf.2 htext
  obtain ⟨c, hc, hplace⟩ := exists_candidate_of_text hblank hthere ancestry _ 0
  exact ⟨c, Candidate.ofTree_story _ _ ▸ hsub hc, hplace⟩

theorem exists_candidate_of_wantsTag (h : Story.parse library file t = .ok story) {i : Nat} {l : Text}
    (hl : (lines (dropMarks t))[i]? = some l) (hwants : WantsTag l) :
    ∃ c ∈ Candidate.ofTree story.root, c.place = ⟨some file, ((1 + i : Nat) : Int)⟩ := by
  obtain ⟨role, state, body, ps, hform, hpieces, ⟨other, s, htext, hblank⟩, -⟩ := hwants
  exact exists_candidate_of_shown h hl hform hpieces htext hblank

theorem mem_identifiersIn_of_attachedIn? {ns : List Node} {identifier : Text} (h : Candidate.attachedIn? ns = some identifier) :
    identifier ∈ identifiersIn ns := by
  induction ns with
  | nil => cases h
  | cons n ns ih =>
    cases n with
    | text s place =>
      rw [Candidate.attachedIn?] at h
      split at h
      · cases h
      · exact ih h
    | branch role place content => exact ih h
    | tag s place =>
      rw [Candidate.attachedIn?] at h
      show identifier ∈ (Node.tag s place :: ns).filterMap _
      rw [List.filterMap_cons]
      cases hid : Candidate.identifierOfTag? s with
      | none =>
        rw [hid] at h
        simp only [hid]
        exact ih h
      | some first =>
        rw [hid] at h
        simp only [hid]
        rw [Option.some.inj h]
        exact List.mem_cons_self

/-- No identifier is read from the nodes of a line that wants a tag. -/
theorem identifiers_eq_nil_of_wantsTag (h : Story.parse library file t = .ok story) {i : Nat} {l : Text}
    (hl : (lines (dropMarks t))[i]? = some l) (hwants : WantsTag l) {c : Candidate} (hc : c ∈ Candidate.ofTree story.root)
    (hplace : c.place = ⟨some file, ((1 + i : Nat) : Int)⟩) : c.lineIdentifiers = [] ∧ c.attached? = none := by
  obtain ⟨role, state, body, ps, hform, hpieces, -, hnone⟩ := hwants
  obtain ⟨i', l', role', state', body', ps', hl', hform', hpieces', -, hplace', hsiblings, -⟩ :=
    exists_line_of_candidate h hc (congrArg Place.file hplace)
  have hline : ((1 + i' : Nat) : Int) = ((1 + i : Nat) : Int) := congrArg Place.line (hplace'.symm.trans hplace)
  obtain rfl : i' = i := by omega
  obtain rfl := Option.some.inj (hl'.symm.trans hl)
  obtain ⟨rfl, heq⟩ := Prod.mk.inj (Option.some.inj (hform'.symm.trans hform))
  obtain ⟨rfl, rfl⟩ := Prod.mk.inj heq
  obtain rfl := Except.ok.inj (hpieces'.symm.trans hpieces)
  refine ⟨(lineIdentifiers_of_siblings hsiblings).trans hnone, ?_⟩
  rw [Option.eq_none_iff_forall_not_mem]
  intro identifier hattached
  have hall : identifiersIn c.siblings = [] := by rw [hsiblings, identifiersIn_nodesOf, hnone]
  have hmem := mem_identifiersIn_of_attachedIn? hattached
  have hsub : identifiersIn (c.siblings.drop (c.index + 1)) ⊆ identifiersIn c.siblings :=
    ((List.drop_sublist _ _).filterMap _).subset
  rw [hall] at hsub
  exact absurd (hsub hmem) List.not_mem_nil

/-- Each line of the root script that wants a tag gets a new identifier or is reported. -/
theorem answers_of_wantsTag (h : Story.parse library file t = .ok story) (g : Generator) (existing : List Text) {i : Nat}
    {l : Text} (hl : (lines (dropMarks t))[i]? = some l) (hwants : WantsTag l) :
    (g.run existing story.root).1.Answers ⟨some file, ((1 + i : Nat) : Int)⟩ := by
  obtain ⟨c, hc, hplace⟩ := exists_candidate_of_wantsTag h hl hwants
  have hgathered := LineGroup.gathered_ofCandidates (Candidate.ofTree story.root)
  obtain ⟨group, hgroup, hmember⟩ := hgathered.covers c hc
  have hfirst : group.first.place = c.place := (hgathered.place group hgroup c hmember).symm
  have hnone : ∀ m ∈ group.members, m.lineIdentifiers = [] ∧ m.attached? = none := fun m hm =>
    identifiers_eq_nil_of_wantsTag h hl hwants (hgathered.mem group hgroup m hm)
      ((hgathered.place group hgroup m hm).trans (hfirst.trans hplace))
  have hids : group.identifiers = [] := by
    have hattached : group.members.filterMap Candidate.attached? = [] :=
      List.filterMap_eq_nil_iff.2 fun m hm => (hnone m hm).2
    rw [LineGroup.identifiers, hattached]
    exact (hnone group.first List.mem_cons_self).1
  have hanswers := g.run_answers existing story.root hgroup hids
  rwa [hfirst, hplace] at hanswers

end LineTags
