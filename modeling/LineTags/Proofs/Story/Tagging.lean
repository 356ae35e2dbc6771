import LineTags.Proofs.Story.TaggedFile

/-!
# When tags leave a story alone

The tags of new identifiers leave the story as it was, up to blanks around its texts, exactly if each of them fits its line. A tag does not fit behind code that it makes a declaration or an include of, behind a backslash that would escape it, and before a bracket that is not the one that ends the bracketed part of a choice for the reader. That these are all the cases is shown line by line: a line that a tag fits is read as before with one tag more, and so the files are read alike; a line that it does not fit has another outline, and so the story has.
-/

namespace LineTags

open Text LineForm Node StoryReader

/-- Whether a tag is one that an edit has put on its line. -/
def isNewTag (edits : List IdEdit) (t : Text) (place : Option Place) : Bool :=
  edits.any fun e => '#' :: t == e.tag && place == some e.place

/-- The story is the same without the new tags, and each edited line has its identifier and no other. -/
structure SameStory (edits : List IdEdit) (old new : Story) : Prop where
  fileNames : new.fileNames = old.fileNames
  knots : new.knots = old.knots
  outline : outline? (isNewTag edits) new.root = outline? (fun _ _ => false) old.root
  tags : ∀ e ∈ edits, ∃ n ∈ lineBranches new.root, n.place = some e.place ∧ identifiersIn n.content = [e.identifier]

/-- A tag fits the lines that it goes to. -/
def KeepsLines (t : Text) (edits : List IdEdit) : Prop :=
  ∀ e ∈ edits, ∀ (i : Nat) (line : Text), e.line = (i : Int) + 1 → (lines t)[i]? = some line →
    ∀ role state body, (ofCode (strip (codeOf (readAs i line)))).narrative? = some (role, state, body) →
      Fits state (strip (codeOf (readAs i line))) body (bracketOf line)

/-! ### New tags -/

variable {library : Library} {file t : Text} {edits : List IdEdit}

theorem isNewTag_place (hnodup : (edits.map IdEdit.place).Nodup) {e : IdEdit} (he : e ∈ edits) (s : Text) :
    isNewTag edits s (some e.place) = true ↔ s = tagText e.identifier := by
  simp only [isNewTag, List.any_eq_true, Bool.and_eq_true, beq_iff_eq, Option.some.injEq, IdEdit.tag, formatTag_eq,
    List.cons.injEq, true_and]
  constructor
  · rintro ⟨d, hd, hs, hplace⟩
    rw [hs, List.inj_on_of_nodup_map hnodup hd he hplace.symm]
  · intro hs
    exact ⟨e, he, hs, rfl⟩

theorem isNewTag_eq_false {place : Place} (h : ∀ e ∈ edits, e.place ≠ place) (s : Text) :
    isNewTag edits s (some place) = false := by
  rw [isNewTag, List.any_eq_false]
  intro e he htag
  rw [Bool.and_eq_true, beq_iff_eq, beq_iff_eq, Option.some.injEq] at htag
  exact h e he htag.2.symm

/-! ### Lines -/

theorem outline?_narrative {form : LineForm} {role : Role} {state : BracketState} {body : Text}
    (h : form.narrative? = some (role, state, body)) (hidden : Text → Option Place → Bool) (place : Option Place)
    (content : List Node) : outline? hidden (.branch role place content) = some (.branch role place (outlines hidden content)) := by
  cases form <;> cases h <;> rfl

theorem state_of_role {form form' : LineForm} {role : Role} {state state' : BracketState} {body body' : Text}
    (h : form.narrative? = some (role, state, body)) (h' : form'.narrative? = some (role, state', body')) :
    state = state' := by
  cases form <;> cases h <;> cases form' <;> cases h' <;> rfl

theorem lineOutline?_narrative {l : Text} {line : Nat} {hidden : Text → Option Place → Bool} {role : Role}
    {state : BracketState} {body : Text} {ps : List Piece} (h : (ofCode (strip (codeOf l))).narrative? = some (role, state, body))
    (hpieces : piecesOf state body = .ok ps) :
    lineOutline? hidden file line l =
      some (.branch role (some ⟨some file, line⟩) (outlines hidden (nodesOf ⟨some file, line⟩ ps))) := by
  rw [lineOutline?, lineBranch?_of_ok file line h hpieces]
  exact outline?_narrative h _ _ _

/-- A line that looks narrative from outside is. -/
theorem exists_narrative_of_lineOutline? {l : Text} {line : Nat} {hidden : Text → Option Place → Bool} {role : Role}
    {place : Option Place} {content : List Node} (hlogic : role.isLogic = false)
    (h : lineOutline? hidden file line l = some (.branch role place content)) :
    ∃ state body ps, (ofCode (strip (codeOf l))).narrative? = some (role, state, body) ∧ piecesOf state body = .ok ps ∧
      content = outlines hidden (nodesOf ⟨some file, line⟩ ps) := by
  obtain ⟨n, hn, hnOutline⟩ := Option.bind_eq_some_iff.1 h
  obtain ⟨role', state, body, ps, hform, hpieces, rfl⟩ | ⟨name, value, -, rfl⟩ := lineBranch?_cases hn
  · rw [outline?_narrative hform] at hnOutline
    obtain ⟨rfl, -, hcontent⟩ := Node.branch.inj (Option.some.inj hnOutline)
    exact ⟨state, body, ps, hform, hpieces, hcontent.symm⟩
  · obtain ⟨hrole, -⟩ := Node.branch.inj (Option.some.inj hnOutline)
    rw [← hrole] at hlogic
    cases hlogic

/-- A line that stays as it is has the same outline where no tag on it is hidden. -/
theorem sameLine_self {line : Nat} {hidden hidden' : Text → Option Place → Bool}
    (h : ∀ s, hidden s (some ⟨some file, line⟩) = hidden' s (some ⟨some file, line⟩)) (form : LineForm) :
    SameLine file line hidden hidden' form form := by
  cases hbranch : lineBranch? file line form with
  | none => exact .inr ⟨hbranch, rfl⟩
  | some n =>
    obtain ⟨role, state, body, ps, hform, -, rfl⟩ | ⟨name, value, -, rfl⟩ := lineBranch?_cases hbranch
    · have hself : SameNodes ⟨some file, line⟩ hidden hidden' [] [] := ⟨⟨[], [], [], rfl, rfl, rfl, rfl⟩, rfl⟩
      have hnodes := (hself.append ps fun s _ => h s).outlines_nodesOf
      rw [List.append_nil] at hnodes
      refine .inl ⟨_, _, _, hbranch, hbranch, outline?_narrative hform _ _ _, ?_⟩
      rw [outline?_narrative hform, hnodes]
    · exact .inl ⟨_, _, _, hbranch, hbranch, rfl, rfl⟩

/-- The edits are all for lines of the file, and no two for one line. -/
structure EditsOf (file t : Text) (edits : List IdEdit) : Prop where
  nodup : (edits.map IdEdit.place).Nodup
  edited : ∀ e ∈ edits, ∃ i line role state body ps, Edited file t e i line role state body ps

namespace EditsOf

theorem identifier (h : EditsOf file t edits) : ∀ e ∈ edits, isIdentifier e.identifier = true := by
  intro e he
  obtain ⟨i, line, role, state, body, ps, hedited⟩ := h.edited e he
  exact hedited.identifier

theorem place_eq_iff (h : EditsOf file t edits) {e : IdEdit} (he : e ∈ edits) (i : Nat) :
    e.place = ⟨some file, ((1 + i : Nat) : Int)⟩ ↔ e.line = (i : Int) + 1 := by
  obtain ⟨j, line, role, state, body, ps, hedited⟩ := h.edited e he
  have hline : e.line = ((1 + j : Nat) : Int) := congrArg Place.line hedited.place
  rw [hedited.place, hline, Place.mk.injEq, eq_self, true_and]
  omega

theorem edited_at (h : EditsOf file t edits) {e : IdEdit} (he : e ∈ edits) {i : Nat} {line : Text}
    (hline : e.line = (i : Int) + 1) (hwritten : (lines t)[i]? = some line) :
    ∃ role state body ps, Edited file t e i line role state body ps := by
  obtain ⟨j, line', role, state, body, ps, hedited⟩ := h.edited e he
  have hplace : e.line = ((1 + j : Nat) : Int) := congrArg Place.line hedited.place
  obtain rfl : i = j := by omega
  obtain rfl := Option.some.inj (hwritten.symm.trans hedited.written)
  exact ⟨role, state, body, ps, hedited⟩

theorem tagLine_of_mem (h : EditsOf file t edits) {e : IdEdit} (he : e ∈ edits) {i : Nat}
    (hline : e.line = (i : Int) + 1) (line : Text) : tagLine edits i line = insertTag line e.identifier := by
  unfold tagLine
  cases hfind : edits.find? (·.line == (i : Int) + 1) with
  | none => exact absurd (beq_iff_eq.2 hline) (List.find?_eq_none.1 hfind e he)
  | some d =>
    have hd := List.mem_of_find?_eq_some hfind
    have hdline := List.find?_some hfind
    rw [beq_iff_eq] at hdline
    have hplace : d.place = e.place := ((h.place_eq_iff hd i).2 hdline).trans ((h.place_eq_iff he i).2 hline).symm
    rw [List.inj_on_of_nodup_map h.nodup hd he hplace]

theorem tagLine_of_not_mem {i : Nat} (hnone : ∀ e ∈ edits, e.line ≠ (i : Int) + 1) (line : Text) :
    tagLine edits i line = line := by
  unfold tagLine
  cases hfind : edits.find? (·.line == (i : Int) + 1) with
  | none => rfl
  | some d =>
    have hdline := List.find?_some hfind
    rw [beq_iff_eq] at hdline
    exact absurd hdline (hnone d (List.mem_of_find?_eq_some hfind))

theorem hidden_free (h : EditsOf file t edits) {e : IdEdit} (he : e ∈ edits) {s : Text}
    (hfree : Candidate.identifierOfTag? s = none) : isNewTag edits s (some e.place) = false := by
  cases hnew : isNewTag edits s (some e.place) with
  | false => rfl
  | true =>
    rw [(isNewTag_place h.nodup he s).1 hnew, identifierOfTag?_tagText (h.identifier e he)] at hfree
    cases hfree

/-- Tags that fit leave every line as it is. -/
theorem sameLine (h : EditsOf file t edits) (hkeep : KeepsLines t edits) {i : Nat} {line : Text}
    (hline : (lines t)[i]? = some line) :
    SameLine file (1 + i) (fun _ _ => false) (isNewTag edits) (ofCode (strip (codeOf (readAs i line))))
      (ofCode (strip (codeOf (readAs i (tagLine edits i line))))) := by
  by_cases hmem : ∃ e ∈ edits, e.line = (i : Int) + 1
  · obtain ⟨e, he, hat⟩ := hmem
    have hplace := (h.place_eq_iff he i).2 hat
    obtain ⟨role, state, body, ps, hedited⟩ := h.edited_at he hat hline
    rw [h.tagLine_of_mem he hat]
    have hfits := hkeep e he i line hat hline role state body hedited.form
    obtain ⟨-, body', ps', hform, hpieces, hadded⟩ | ⟨hnot, -⟩ := hedited.cases
    · have hold := lineBranch?_of_ok file (1 + i) hedited.form hedited.pieces
      have hnew := lineBranch?_of_ok file (1 + i) hform hpieces
      refine .inl ⟨_, _, _, hold, hnew, outline?_narrative hedited.form _ _ _, ?_⟩
      have hnodes : outlines (fun _ _ => false) (nodesOf ⟨some file, ((1 + i : Nat) : Int)⟩ ps) =
          outlines (isNewTag edits) (nodesOf ⟨some file, ((1 + i : Nat) : Int)⟩ ps') := by
        rw [← hplace]
        refine outlines_of_tagAdded hadded ((isNewTag_place h.nodup he _).2 rfl) fun s hs => ?_
        exact (h.hidden_free he (hedited.free s hs)).symm
      rw [outline?_narrative hform, hnodes]
    · exact absurd hfits hnot
  · have hnone : ∀ e ∈ edits, e.line ≠ (i : Int) + 1 := fun e he hat => hmem ⟨e, he, hat⟩
    rw [tagLine_of_not_mem hnone]
    refine sameLine_self (fun s => ?_) _
    refine (isNewTag_eq_false (fun e he hplace => ?_) s).symm
    exact hnone e he ((h.place_eq_iff he i).1 hplace)

end EditsOf

/-! ### Stories -/

/-- The edits for the lines of a file that come of minting. -/
def newEdits (g : Generator) (existing : List Text) (file : Text) (story : Story) : List IdEdit :=
  (g.run existing story.root).1.editsFor (some file)

theorem editsOf_newEdits {story : Story} (hparse : Story.parse library file t = .ok story) {g : Generator}
    (hlength : g.length = codeLength) (existing : List Text) : EditsOf file t (newEdits g existing file story) where
  nodup := (List.filter_sublist.map _).nodup (g.run_edits existing story.root).1
  edited _ he := exists_edited hparse hlength he

/-- The branches of the lines of a story, up to what its outline leaves out. -/
theorem outlines_branchesFrom_of_outline {old new : List Node} {hidden : Text → Option Place → Bool} {place : Option Place}
    (h : outline? hidden (.branch .story place new) = outline? (fun _ _ => false) (.branch .story place old)) :
    outlines (fun _ _ => false) (lineBranchesIn old) = outlines hidden (lineBranchesIn new) := by
  have hcontent : outlines hidden new = outlines (fun _ _ => false) old := by
    have hsome : some (Node.branch .story place (outlines hidden new)) =
      some (.branch .story place (outlines (fun _ _ => false) old)) := h
    exact (Node.branch.inj (Option.some.inj hsome)).2.2
  rw [← lineBranchesIn_outlines, ← lineBranchesIn_outlines, hcontent]

section

variable {story : Story} (hparse : Story.parse library file t = .ok story) (hedits : EditsOf file t edits)

include hparse hedits

/-- Tags that fit leave the story as it is. -/
theorem exists_parse_insertTags (hkeep : KeepsLines t edits) :
    ∃ new, Story.parse library file (insertTags t edits) = .ok new ∧ SameStory edits story new := by
  obtain ⟨page, progress, hread, rfl⟩ := exists_page_of_parse hparse
  have hid := hedits.identifier
  have hsame : ∀ i l l', (lines (dropMarks t))[i]? = some l → (lines (dropMarks (insertTags t edits)))[i]? = some l' →
      SameLine file (1 + i) (fun _ _ => false) (isNewTag edits) (ofCode (strip (codeOf l)))
        (ofCode (strip (codeOf l'))) := by
    intro i l l' hl hl'
    obtain ⟨line, hline, rfl⟩ := getElem?_lines_dropMarks.1 hl
    rw [getElem?_lines_insertTags hid hline] at hl'
    rw [← Option.some.inj hl']
    exact hedits.sameLine hkeep hline
  have hempty : ({} : Page).outline (fun _ _ => false) = ({} : Page).outline (isNewTag edits) := rfl
  obtain ⟨page', hread', houtline⟩ := readLines_transfer hread (length_lines_insertTags hid) hempty hsame
  refine ⟨_, parse_of_page hread', rfl, rfl, ?_, fun e he => ?_⟩
  · have hnodes : outlines (isNewTag edits) page'.nodes = outlines (fun _ _ => false) page.nodes := by
      rw [Page.outline_nodes, Page.outline_nodes, houtline]
    show some (Node.branch .story _ (outlines _ page'.nodes)) = some (.branch .story _ (outlines _ page.nodes))
    rw [hnodes]
  · obtain ⟨i, line, role, state, body, ps, hedited⟩ := hedits.edited e he
    have hat := (hedits.place_eq_iff he i).1 hedited.place
    obtain ⟨-, body', ps', hform, hpieces, hadded⟩ | ⟨hnot, -⟩ := hedited.cases
    · have hnew := lineBranch?_of_ok file (1 + i) hform hpieces
      have hl' := getElem?_lines_insertTags hid hedited.written
      rw [hedits.tagLine_of_mem he hat] at hl'
      refine ⟨.branch role (some ⟨some file, ((1 + i : Nat) : Int)⟩) (nodesOf ⟨some file, ((1 + i : Nat) : Int)⟩ ps'), ?_,
        congrArg some hedited.place.symm, ?_⟩
      · show _ ∈ lineBranchesIn page'.nodes
        rw [lineBranches_parse hread']
        exact mem_branchesFrom_iff.2 ⟨i, _, hl', hnew⟩
      · show identifiersIn (nodesOf _ ps') = _
        rw [identifiersIn_nodesOf]
        exact filterMap_identifier?_of_tagAdded hedited.identifier hadded hedited.free
    · exact absurd (hkeep e he i line hat hedited.written role state body hedited.form) hnot

/-- Tags that leave the story as it is fit. -/
theorem keepsLines_of_sameStory {new : Story} (hparse' : Story.parse library file (insertTags t edits) = .ok new)
    (hsame : SameStory edits story new) : KeepsLines t edits := by
  intro e he i line hat hline role state body hform
  obtain ⟨page, progress, hread, rfl⟩ := exists_page_of_parse hparse
  obtain ⟨page', progress', hread', rfl⟩ := exists_page_of_parse hparse'
  have hplace := (hedits.place_eq_iff he i).2 hat
  obtain ⟨role₀, state₀, body₀, ps, hedited⟩ := hedits.edited_at he hat hline
  obtain ⟨rfl, heq⟩ := Prod.mk.inj (Option.some.inj (hform.symm.trans hedited.form))
  obtain ⟨rfl, rfl⟩ := Prod.mk.inj heq
  by_contra hnot
  obtain ⟨hfits, -⟩ | ⟨-, hdiffer⟩ := hedited.cases
  · exact hnot hfits
  have hl := getElem?_lines_dropMarks.2 ⟨line, hline, rfl⟩
  have hl' := getElem?_lines_insertTags hedits.identifier hline
  rw [hedits.tagLine_of_mem he hat] at hl'
  have hbranches := outlines_branchesFrom_of_outline hsame.outline
  rw [lineBranches_parse hread, lineBranches_parse hread'] at hbranches
  have hsameLine := lineOutline?_eq_of_outlines_eq hbranches hl hl'
  rw [lineOutline?_narrative hform hedited.pieces] at hsameLine
  obtain ⟨state', body', ps', hform', hpieces', hnodes⟩ :=
    exists_narrative_of_lineOutline? (role_of_narrative? hform).1 hsameLine.symm
  obtain rfl := state_of_role hform hform'
  rw [← hplace] at hnodes
  refine outlines_ne_of_differ (hdiffer body' ps' hform' hpieces') (fun _ => rfl) (fun s hs => ?_) hnodes
  exact (isNewTag_place hedits.nodup he s).1 hs

end

/-! ### The condition -/

def mainFile : Text := "main.ink".toList

def firstDraws : Generator := { source := ⟨.congruential 1, 0⟩ }

def twoLines : Text := "Hello\n* Go [on]".toList

theorem keepsLines_twoLines (edits : List IdEdit) : KeepsLines twoLines edits := by
  intro e _ i line _ hline role state body hform
  match i, hline with
  | 0, hline =>
    obtain rfl : "Hello".toList = line := Option.some.inj hline
    have hread : (ofCode (strip (codeOf (readAs 0 "Hello".toList)))).narrative? =
      some (.line, .notAllowed, "Hello".toList) := by decide +kernel
    obtain ⟨-, heq⟩ := Prod.mk.inj (Option.some.inj (hread.symm.trans hform))
    obtain ⟨rfl, rfl⟩ := Prod.mk.inj heq
    exact fits_atEnd (by decide +kernel) (by decide)
  | 1, hline =>
    obtain rfl : "* Go [on]".toList = line := Option.some.inj hline
    have hread : (ofCode (strip (codeOf (readAs 1 "* Go [on]".toList)))).narrative? =
      some (.choice, .awaited, "Go [on]".toList) := by decide +kernel
    obtain ⟨-, heq⟩ := Prod.mk.inj (Option.some.inj (hread.symm.trans hform))
    obtain ⟨rfl, rfl⟩ := Prod.mk.inj heq
    have hbracket : bracketOf "* Go [on]".toList = some "]".toList := by decide +kernel
    rw [hbracket]
    exact ⟨_, .piece rfl (.piece rfl (.piece rfl (.piece rfl (.piece rfl (.piece rfl (.stop _ _))))))⟩
  | i + 2, hline => cases hline

theorem exists_parse_of_map {α : Type} {f : Story → α} {a : α}
    (h : (Story.parse library file t).toOption.map f = some a) :
    ∃ story, Story.parse library file t = .ok story ∧ f story = a := by
  cases hresult : Story.parse library file t with
  | error e => rw [hresult] at h; cases h
  | ok story => rw [hresult] at h; exact ⟨story, rfl, Option.some.inj h⟩

variable {story : Story}

/-- The new tags of a file leave its story as it is exactly if they fit. -/
theorem sameStory_insertTags_iff (hparse : Story.parse library file t = .ok story) {g : Generator}
    (hlength : g.length = codeLength) (existing : List Text) :
    (∃ new, Story.parse library file (insertTags t (newEdits g existing file story)) = .ok new ∧
      SameStory (newEdits g existing file story) story new) ↔ KeepsLines t (newEdits g existing file story) := by
  have hedits := editsOf_newEdits hparse hlength existing
  constructor
  · rintro ⟨new, hparse', hsame⟩
    exact keepsLines_of_sameStory hparse hedits hparse' hsame
  · exact exists_parse_insertTags hparse hedits

/-- The tags of a line and of a choice with a bracketed part fit. -/
theorem sameStory_insertTags_twoLines : ∃ story new, Story.parse {} mainFile twoLines = .ok story ∧
    firstDraws.length = codeLength ∧ (newEdits firstDraws [] mainFile story).map IdEdit.line = [1, 2] ∧
    Story.parse {} mainFile (insertTags twoLines (newEdits firstDraws [] mainFile story)) = .ok new ∧
    SameStory (newEdits firstDraws [] mainFile story) story new := by
  have hmap : (Story.parse {} mainFile twoLines).toOption.map (fun story =>
      (newEdits firstDraws [] mainFile story).map IdEdit.line) = some [1, 2] := by decide +kernel
  obtain ⟨story, hparse, hlines⟩ := exists_parse_of_map hmap
  obtain ⟨new, hnew, hsame⟩ := (sameStory_insertTags_iff hparse (g := firstDraws) rfl []).2 (keepsLines_twoLines _)
  exact ⟨story, new, hparse, rfl, hlines, hnew, hsame⟩

/-- Behind a lone `INCLUDE` the tag is taken for the name of a file. -/
theorem not_parse_insertTags_inclusion : ∃ story, Story.parse {} mainFile "INCLUDE".toList = .ok story ∧
    firstDraws.length = codeLength ∧ (newEdits firstDraws [] mainFile story).map IdEdit.line = [1] ∧
    ∀ new, Story.parse {} mainFile (insertTags "INCLUDE".toList (newEdits firstDraws [] mainFile story)) ≠ .ok new := by
  have hmap : (Story.parse {} mainFile "INCLUDE".toList).toOption.map (fun story =>
      ((newEdits firstDraws [] mainFile story).map IdEdit.line,
        (Story.parse {} mainFile (insertTags "INCLUDE".toList (newEdits firstDraws [] mainFile story))).toOption.isSome)) =
      some ([1], false) := by decide +kernel
  obtain ⟨story, hparse, heq⟩ := exists_parse_of_map hmap
  obtain ⟨hlines, hnone⟩ := Prod.mk.inj heq
  refine ⟨story, hparse, rfl, hlines, fun new hnew => ?_⟩
  rw [hnew] at hnone
  cases hnone

end LineTags
