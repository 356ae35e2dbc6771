import LineTags.Proofs.Minting.LineGroups
import LineTags.Proofs.Story.Provenance

/-!
# New identifiers are identifiers

A header is read only if its name is a name of letters, digits and single underscores. So the containers around any narrative text of a story have such names, in whichever of its files the text stands, and an identifier that is made of these names and a code can be read as one again.
-/

namespace LineTags

open Text LineForm

/-- The containers around the narrative text below a node have valid names, apart from those given from above. -/
def Named (n : Node) : Prop :=
  ∀ ancestry siblings index, ∀ c ∈ Candidate.ofNode ancestry siblings index n, ∀ k ∈ c.ancestry,
    k ∈ ancestry ∨ isContainerName k.name = true

theorem named_ofNodes {ns : List Node} (hns : ∀ n ∈ ns, Named n) {ancestry : List Container} {siblings : List Node}
    {index : Nat} {c : Candidate} (hc : c ∈ Candidate.ofNodes ancestry siblings index ns) :
    ∀ k ∈ c.ancestry, k ∈ ancestry ∨ isContainerName k.name = true := by
  induction ns generalizing index with
  | nil => cases hc
  | cons n ns ih =>
    rw [Candidate.ofNodes, List.mem_append] at hc
    rcases hc with hc | hc
    · exact hns n List.mem_cons_self _ _ _ c hc
    · exact ih (fun m hm => hns m (List.mem_cons_of_mem _ hm)) hc

theorem named_container (c : Container) (place : Option Place) (content : List Node)
    (hname : isContainerName c.name = true) (hcontent : ∀ n ∈ content, Named n) :
    Named (.branch (.container c) place content) := by
  intro ancestry siblings index d hd k hk
  rw [Candidate.ofNode_container] at hd
  rcases named_ofNodes hcontent hd k hk with hk | hk
  · split at hk
    · exact .inl hk
    · rcases List.mem_append.1 hk with hk | hk
      · exact .inl hk
      · rw [List.mem_singleton.1 hk]
        exact .inr hname
  · exact .inr hk

theorem named_inclusion (name : Text) (place : Option Place) (content : List Node) (hcontent : ∀ n ∈ content, Named n) :
    Named (.branch (.inclusion name) place content) := by
  intro ancestry siblings index d hd
  rw [Candidate.ofNode_branch _ _ _ _ _ rfl fun _ h => by cases h] at hd
  exact named_ofNodes hcontent hd

namespace StoryReader

variable {library : Library} {file t : Text} {line : Nat} {form : LineForm}

theorem named_lineBranch? {n : Node} (h : lineBranch? file line form = some n) : Named n := by
  intro ancestry siblings index c hc k hk
  obtain ⟨-, hancestry, -⟩ := of_mem_lineBranch? h hc
  exact .inl (hancestry ▸ hk)

theorem named_readFile {depth : Nat} {progress progress' : Progress} {nodes : List Node}
    (h : readFile library depth file t progress = .ok (nodes, progress')) : ∀ n ∈ nodes, Named n := by
  induction depth generalizing file t progress progress' nodes with
  | zero =>
    obtain ⟨rfl, rfl⟩ := Prod.mk.inj (Except.ok.inj h)
    exact fun n hn => absurd hn List.not_mem_nil
  | succ depth ih =>
    obtain ⟨page, hread, rfl⟩ := readFile_succ_ok h
    obtain ⟨-, hpage⟩ := readLines_holds (Q := fun _ => True) hread named_container
      (fun _ _ n _ hn => named_lineBranch? hn)
      (fun name u place ns before after _ _ _ hread => ⟨trivial, named_inclusion name place ns (ih hread)⟩) trivial .empty
    exact hpage.nodes named_container

end StoryReader

/-- All narrative text of a story stands in containers with valid names. -/
theorem isContainerName_of_parse {library : Library} {file t : Text} {story : Story}
    (h : Story.parse library file t = .ok story) :
    ∀ c ∈ Candidate.ofTree story.root, ∀ k ∈ c.ancestry, isContainerName k.name = true := by
  intro c hc k hk
  obtain ⟨page, progress, hlines, rfl⟩ := exists_page_of_parse h
  have hnodes : c ∈ Candidate.ofNodes [] page.nodes 0 page.nodes := Candidate.ofTree_story _ _ ▸ hc
  have hread : StoryReader.readFile library (library.files.length + library.stored + 1) file t ⟨[], []⟩ =
      .ok (page.nodes, progress) := by
    rw [StoryReader.readFile]
    show (StoryReader.readLines library _ file 1 (lines (dropMarks t)) {} ⟨[file], []⟩ >>= _) = _
    rw [hlines]
    rfl
  exact (named_ofNodes (StoryReader.named_readFile hread) hnodes k hk).resolve_left List.not_mem_nil

namespace Generator

theorem length_run (g : Generator) (existing : List Text) (root : Node) : (g.run existing root).2.length = g.length := by
  have hfold : ∀ (groups : List LineGroup) (r : Generation × Generator),
      (groups.foldl (fun r line => mintFor line r) r).2.length = r.2.length := by
    intro groups
    induction groups with
    | nil => exact fun _ => rfl
    | cons line groups ih => exact fun r => (ih _).trans (mintFor_edits line r.1 r.2).1
  exact hfold _ _

/-- What is minted for a story whose containers have valid names is an identifier. -/
theorem isIdentifier_of_mem_run {g : Generator} (hlength : g.length = codeLength) {existing : List Text} {root : Node}
    (hroot : ∀ c ∈ Candidate.ofTree root, ∀ k ∈ c.ancestry, isContainerName k.name = true) {e : IdEdit}
    (he : e ∈ (g.run existing root).1.edits) : isIdentifier e.identifier = true := by
  obtain ⟨line, hline, -, -, code, hid, hcode, hletters⟩ := (run_edits g existing root).2 e he
  rw [hid]
  refine isIdentifier_stem (hroot line.first hline) ?_ hletters
  rw [hcode, hlength]
  rfl

/-- What is minted for such a story is a word, whatever the length of its code. -/
theorem isWord_of_mem_run {g : Generator} {existing : List Text} {root : Node}
    (hroot : ∀ c ∈ Candidate.ofTree root, ∀ k ∈ c.ancestry, isContainerName k.name = true) {e : IdEdit}
    (he : e ∈ (g.run existing root).1.edits) : IsWord e.identifier := by
  obtain ⟨line, hline, -, -, code, hid, -, hletters⟩ := (run_edits g existing root).2 e he
  rw [hid]
  exact isWord_stem (hroot line.first hline) hletters

end Generator

end LineTags
