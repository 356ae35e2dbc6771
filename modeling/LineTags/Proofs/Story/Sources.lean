import LineTags.Proofs.Story.Provenance

/-!
# The texts a story is read from

A story is read from the text of its root file and from the texts that the library has of the files included there. Every candidate stands on a line of one of these texts, among all that was read from the line; and whatever else was read from the line as narrative text is a candidate beside it. So what is known of a candidate and its neighbours is known from the line alone.
-/

namespace LineTags

open Text LineForm Node

/-- The pieces of a line, if it is narrative and can be read. -/
def piecesIn? (line : Text) : Option (List Piece) :=
  (ofCode (strip (codeOf line))).narrative?.bind fun (_, state, body) => (piecesOf state body).toOption

theorem piecesIn?_eq_some_iff {line : Text} {ps : List Piece} :
    piecesIn? line = some ps ↔ ∃ role state body,
      (ofCode (strip (codeOf line))).narrative? = some (role, state, body) ∧ piecesOf state body = .ok ps := by
  unfold piecesIn?
  constructor
  · intro h
    obtain ⟨⟨role, state, body⟩, hform, hread⟩ := Option.bind_eq_some_iff.1 h
    refine ⟨role, state, body, hform, ?_⟩
    cases hpieces : piecesOf state body with
    | error e =>
      simp only [hpieces, Except.toOption] at hread
      cases hread
    | ok qs =>
      simp only [hpieces, Except.toOption] at hread
      rw [Option.some.inj hread]
  · rintro ⟨role, state, body, hform, hread⟩
    rw [hform, Option.bind_some]
    dsimp only
    rw [hread]
    rfl

/-- The text that is read of a file: of the root file the given one, of other files what the library has. -/
def SourceText (library : Library) (root t : Text) (file u : Text) : Prop :=
  if file = root then u = t else library.find? file = some (.ok u)

theorem SourceText.eq {library : Library} {root t file u u' : Text} (h : SourceText library root t file u)
    (h' : SourceText library root t file u') : u = u' := by
  unfold SourceText at h h'
  split at h
  · next hroot =>
    rw [if_pos hroot] at h'
    exact h.trans h'.symm
  · next hroot =>
    rw [if_neg hroot] at h'
    exact Except.ok.inj (Option.some.inj (h.symm.trans h'))

/-- A library that has the root file too has all texts. -/
theorem SourceText.find? {library : Library} {root t file u : Text} (h : SourceText library root t file u)
    (hroot : library.find? root = some (.ok t)) : library.find? file = some (.ok u) := by
  unfold SourceText at h
  split at h
  · next hfile => rw [hfile, h, hroot]
  · exact h

/-- A candidate stands on a line of a file, among all that was read from the line. -/
structure StandsOn (c : Candidate) (file : Text) (i : Nat) (line : Text) (ps : List Piece) : Prop where
  place : c.place = ⟨some file, ((1 + i : Nat) : Int)⟩
  pieces : piecesIn? line = some ps
  siblings : c.siblings = nodesOf c.place ps
  text : .text c.raw (some c.place) ∈ nodesOf c.place ps
  dark : isBlankText c.raw = false

/-- A candidate stands on a line of one of some texts. -/
def StandsIn (source : Text → Text → Prop) (c : Candidate) : Prop :=
  ∃ file t i line ps, source file t ∧ (lines (dropMarks t))[i]? = some line ∧ StandsOn c file i line ps

variable {library : Library} {root t : Text}

namespace StoryReader

theorem standsIn_lineBranch? {source : Text → Text → Prop} {file u line : Text} (hsource : source file u) {i : Nat}
    (hline : (lines (dropMarks u))[i]? = some line) {n : Node}
    (h : lineBranch? file (1 + i) (.ofCode (strip (codeOf line))) = some n) : EachCandidate (StandsIn source) n := by
  intro ancestry siblings index c hc
  obtain ⟨hplace, -, role, state, body, ps, hform, hread, -, hsiblings, htext, hdark⟩ := of_mem_lineBranch? h hc
  rw [← hplace] at hsiblings htext
  have hpieces : piecesIn? line = some ps := piecesIn?_eq_some_iff.2 ⟨role, state, body, hform, hread⟩
  exact ⟨file, u, i, line, ps, hsource, hline, ⟨hplace, hpieces, hsiblings, htext, hdark⟩⟩

/-- The root file is named first, so no included file is read in its place. -/
theorem standsIn_readFile {depth : Nat} {file u : Text} {progress progress' : Progress} {nodes : List Node}
    (h : readFile library depth file u progress = .ok (nodes, progress')) (hsource : SourceText library root t file u)
    (hroot : file = root ∨ root ∈ progress.fileNames) :
    ∀ n ∈ nodes, EachCandidate (StandsIn (SourceText library root t)) n := by
  induction depth generalizing file u progress progress' nodes with
  | zero =>
    obtain ⟨rfl, rfl⟩ := Prod.mk.inj (Except.ok.inj h)
    exact fun n hn => absurd hn List.not_mem_nil
  | succ depth ih =>
    obtain ⟨page, hread, rfl⟩ := readFile_succ_ok h
    have hcontainer : ∀ c place content, isContainerName c.name = true →
        (∀ n ∈ content, EachCandidate (StandsIn (SourceText library root t)) n) →
        EachCandidate (StandsIn (SourceText library root t)) (.branch (.container c) place content) :=
      fun c place content _ => eachCandidate_container c place content
    have hinclude : ∀ name v place ns (before after : Progress), root ∈ before.fileNames → name ∉ before.fileNames →
        library.find? name = some (.ok v) → readFile library depth name v before = .ok (ns, after) →
        root ∈ after.fileNames ∧
          EachCandidate (StandsIn (SourceText library root t)) (.branch (.inclusion name) place ns) := by
      intro name v place ns before after hbefore hname hfind hinner
      have hother : name ≠ root := by
        rintro rfl
        exact hname hbefore
      have hsource' : SourceText library root t name v := by
        rw [SourceText, if_neg hother]
        exact hfind
      exact ⟨(readFile_avoids hinner hname).1 root hbefore,
        eachCandidate_inclusion name place ns (ih hinner hsource' (.inr hbefore))⟩
    have hstart : root ∈ progress.fileNames ++ [file] := by
      rcases hroot with rfl | hroot
      · exact List.mem_append_right _ List.mem_cons_self
      · exact List.mem_append_left _ hroot
    obtain ⟨-, hpage⟩ := readLines_holds (Q := fun names => root ∈ names) hread hcontainer
      (fun _ _ n hl hn => standsIn_lineBranch? hsource hl hn) hinclude hstart .empty
    exact hpage.nodes hcontainer

end StoryReader

/-- Every candidate of a story stands on a line of a text that the story was read from. -/
theorem standsIn_of_parse {story : Story} (h : Story.parse library root t = .ok story) {c : Candidate}
    (hc : c ∈ Candidate.ofTree story.root) : StandsIn (SourceText library root t) c := by
  unfold Story.parse at h
  cases hread : StoryReader.readFile library library.depth root t ⟨[], []⟩ with
  | error e =>
    rw [hread] at h
    cases h
  | ok found =>
    rw [hread] at h
    obtain rfl := Except.ok.inj h
    have hsource : SourceText library root t root t := by rw [SourceText, if_pos rfl]
    have hnodes : c ∈ Candidate.ofNodes [] found.1 0 found.1 := Candidate.ofTree_story _ _ ▸ hc
    exact StoryReader.eachCandidate_ofNodes (StoryReader.standsIn_readFile hread hsource (.inl rfl)) hnodes

/-! ### Neighbours -/

namespace Candidate

/-- All candidates among the siblings of a candidate. -/
def neighbours (c : Candidate) : List Candidate := ofNodes c.ancestry c.siblings 0 c.siblings

mutual

/-- A candidate stands at this place, or deeper, and then its neighbours stand there with it. -/
theorem mem_neighbours_of_mem_ofNode {c : Candidate} : ∀ (n : Node) (ancestry : List Container) (siblings : List Node)
    (index : Nat), c ∈ ofNode ancestry siblings index n → (c.ancestry = ancestry ∧ c.siblings = siblings) ∨
      (c ∈ c.neighbours ∧ c.neighbours ⊆ ofNode ancestry siblings index n)
  | .text _ none => fun _ _ _ hc => nomatch hc
  | .text t (some place) => fun ancestry siblings index hc => by
    rw [ofNode] at hc
    split at hc
    · cases hc
    · rw [List.mem_singleton.1 hc]
      exact .inl ⟨rfl, rfl⟩
  | .tag _ _ => fun _ _ _ hc => nomatch hc
  | .branch role place content => fun ancestry siblings index hc => by
    -- the siblings of what stands right below the branch are its whole content
    have hbelow (above : List Container) (hc : c ∈ ofNodes above content 0 content) :
        c ∈ c.neighbours ∧ c.neighbours ⊆ ofNodes above content 0 content := by
      rcases mem_neighbours_of_mem_ofNodes content above content 0 hc with ⟨hancestry, hsiblings⟩ | hdeeper
      · unfold neighbours
        rw [hancestry, hsiblings]
        exact ⟨hc, List.Subset.refl _⟩
      · exact hdeeper
    by_cases hlogic : role.isLogic = true
    · rw [ofNode_logic _ _ _ _ _ hlogic] at hc
      cases hc
    · rw [Bool.not_eq_true] at hlogic
      by_cases hcontainer : ∃ k, role = .container k
      · obtain ⟨k, rfl⟩ := hcontainer
        rw [ofNode_container] at hc ⊢
        exact .inr (hbelow _ hc)
      · rw [ofNode_branch _ _ _ _ _ hlogic fun k hk => hcontainer ⟨k, hk⟩] at hc ⊢
        exact .inr (hbelow _ hc)

theorem mem_neighbours_of_mem_ofNodes {c : Candidate} : ∀ (ns : List Node) (ancestry : List Container)
    (siblings : List Node) (index : Nat), c ∈ ofNodes ancestry siblings index ns →
      (c.ancestry = ancestry ∧ c.siblings = siblings) ∨
        (c ∈ c.neighbours ∧ c.neighbours ⊆ ofNodes ancestry siblings index ns)
  | [] => fun _ _ _ hc => nomatch hc
  | n :: ns => fun ancestry siblings index hc => by
    rw [ofNodes, List.mem_append] at hc
    rw [ofNodes]
    rcases hc with hc | hc
    · rcases mem_neighbours_of_mem_ofNode n ancestry siblings index hc with hhere | ⟨hmem, hsub⟩
      · exact .inl hhere
      · exact .inr ⟨hmem, List.Subset.trans hsub (List.subset_append_left _ _)⟩
    · rcases mem_neighbours_of_mem_ofNodes ns ancestry siblings (index + 1) hc with hhere | ⟨hmem, hsub⟩
      · exact .inl hhere
      · exact .inr ⟨hmem, List.Subset.trans hsub (List.subset_append_right _ _)⟩

end

/-- A candidate of a tree is one of its neighbours, and they are all candidates of the tree. -/
theorem neighbours_of_mem_ofTree {c : Candidate} {root : Node} (hc : c ∈ ofTree root) :
    c ∈ c.neighbours ∧ c.neighbours ⊆ ofTree root := by
  have hall : ofNodes [] [root] 0 [root] = ofTree root := (List.append_nil _).trans (ofTree_eq root).symm
  rw [← hall] at hc ⊢
  rcases mem_neighbours_of_mem_ofNodes [root] [] [root] 0 hc with ⟨hancestry, hsiblings⟩ | hdeeper
  · unfold neighbours
    rw [hancestry, hsiblings]
    exact ⟨hc, List.Subset.refl _⟩
  · exact hdeeper

end Candidate

end LineTags
