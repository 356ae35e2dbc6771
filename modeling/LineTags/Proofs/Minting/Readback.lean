import LineTags.Proofs.Story.ContainerNames
import LineTags.Proofs.Story.Shape

/-!
# New identifiers can be read back

A new identifier is made of the names around its line and a code. These are the names that the headers before the line give, so each of them is a name of letters and digits with single underscores in between, as in an identifier. The tag of a new identifier is read back as a whole, and nothing else is found in it.
-/

namespace LineTags

open Text LineForm

namespace Scope

/-- What the identifiers of lines start with: the names of their knot and stitch, each with an underscore behind it. -/
def stem : Scope → Text
  | top => []
  | knot name => name ++ ['_']
  | stitch k name => k ++ '_' :: name ++ ['_']

theorem identifierStem_containers {scope : Scope} (hnames : ∀ c ∈ scope.containers, isContainerName c.name = true) :
    identifierStem scope.containers = scope.stem := by
  have hfilter : scope.containers.filter (!·.name.isEmpty) = scope.containers :=
    List.filter_eq_self.2 fun c hc => by rw [isEmpty_of_isContainerName (hnames c hc)]; rfl
  rw [identifierStem, hfilter]
  cases scope with
  | top => rfl
  | knot name => exact List.append_nil _
  | stitch k name =>
    show k ++ ['_'] ++ (name ++ ['_'] ++ []) = k ++ '_' :: name ++ ['_']
    simp

end Scope

/-- The scope that a candidate has by the headers before its line gives its identifier the stem. -/
theorem identifierStem_of_parse {library : Library} {root r : Text} {story : Story}
    (h : Story.parse library root r = .ok story) {c : Candidate} (hc : c ∈ Candidate.ofTree story.root) :
    ∃ file u i line, SourceText library root r file u ∧ (lines u)[i]? = some line ∧
      c.place = ⟨some file, ((1 + i : Nat) : Int)⟩ ∧ c.ancestry = (Scope.ofLine (lines (dropMarks u)) i).containers ∧
      identifierStem c.ancestry = (Scope.ofLine (lines (dropMarks u)) i).stem := by
  obtain ⟨file, u, i, l, ps, hsource, hl, hstands, hancestry⟩ := standsInScope_of_parse h hc
  obtain ⟨line, hline, -⟩ := getElem?_lines_dropMarks.1 hl
  have hnames := isContainerName_of_parse h c hc
  rw [hancestry] at hnames
  refine ⟨file, u, i, line, hsource, hline, hstands.place, hancestry, ?_⟩
  rw [hancestry, Scope.identifierStem_containers hnames]

namespace Generator

/-- Each new identifier is the stem of its line's scope and a code, and its tag is read as this identifier. -/
theorem run_readable {library : Library} {root r : Text} {story : Story} (h : Story.parse library root r = .ok story)
    {g : Generator} (hlength : g.length = codeLength) (existing : List Text) :
    ∀ e ∈ (g.run existing story.root).1.edits,
      (∃ file u i line code, SourceText library root r file u ∧ (lines u)[i]? = some line ∧
        e.place = ⟨some file, ((1 + i : Nat) : Int)⟩ ∧
        (∃ c ∈ Candidate.ofTree story.root, c.place = e.place ∧
          c.ancestry = (Scope.ofLine (lines (dropMarks u)) i).containers) ∧
        e.identifier = (Scope.ofLine (lines (dropMarks u)) i).stem ++ code ∧
        code.length = codeLength ∧ ∀ c ∈ code, c ∈ CodeSource.alphabet) ∧
      isIdentifier e.identifier = true ∧ findTags e.tag = [⟨e.identifier, 0, e.tag.length⟩] ∧
      firstTag? e.tag = some ⟨e.identifier, 0, e.tag.length⟩ := by
  intro e he
  obtain ⟨group, hfirst, -, hplace, code, hid, hcode, hletters⟩ := (run_edits g existing story.root).2 e he
  obtain ⟨file, u, i, line, hsource, hline, hat, hancestry, hstem⟩ := identifierStem_of_parse h hfirst
  have hvalid := isIdentifier_of_mem_run hlength (isContainerName_of_parse h) he
  have hfound : findTags e.tag = [⟨e.identifier, 0, e.tag.length⟩] := findTags_formatTag hvalid
  refine ⟨⟨file, u, i, line, code, hsource, hline, hplace.trans hat, ⟨group.first, hfirst, hplace.symm, hancestry⟩, ?_, ?_,
    hletters⟩, hvalid, hfound, ?_⟩
  · rw [hid, hstem]
  · rw [hcode, hlength]
    rfl
  · rw [firstTag?, hfound]
    rfl

end Generator

/-- A line before the first knot, one in a function and one in its stitch. -/
def headedLines : Text := "Start\n== function sum_of(a, b) ===\nOne\n= last_one\nTwo".toList

theorem run_readable_headedLines : ∃ story, Story.parse {} mainFile headedLines = .ok story ∧
    firstDraws.length = codeLength ∧
    (firstDraws.run [] story.root).1.edits.map IdEdit.identifier =
      ["087T".toList, "sum_of_TLGD".toList, "sum_of_last_one_MSNX".toList] ∧
    ∀ e ∈ (firstDraws.run [] story.root).1.edits, isIdentifier e.identifier = true ∧
      firstTag? e.tag = some ⟨e.identifier, 0, e.tag.length⟩ := by
  have hmap : (Story.parse {} mainFile headedLines).toOption.map (fun story =>
      (firstDraws.run [] story.root).1.edits.map IdEdit.identifier) =
      some ["087T".toList, "sum_of_TLGD".toList, "sum_of_last_one_MSNX".toList] := by decide +kernel
  obtain ⟨story, hparse, hedits⟩ := exists_parse_of_map hmap
  refine ⟨story, hparse, rfl, hedits, fun e he => ?_⟩
  obtain ⟨-, hvalid, -, hfirst⟩ := Generator.run_readable hparse (g := firstDraws) rfl [] e he
  exact ⟨hvalid, hfirst⟩

end LineTags
