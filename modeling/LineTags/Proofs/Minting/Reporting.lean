import LineTags.Proofs.Minting.Sighting

/-!
# Whether a run finds a new tag

A tag that was put into a line is there for the reader unless its place is inside an interpolation. A run finds it as well, provided that the line still shows text with the tag and carried no identifier before. This holds of each line of a root script and of whatever script has that line with the tag, and it is exact: where the conditions fail, the run does not find the tag.
-/

namespace LineTags

open Text LineForm Node

/-- Whether a run finds an identifier on the line at a place. -/
def Reports (story : Story) (place : Place) (identifier : Text) : Prop :=
  ∃ g ∈ LineGroup.ofCandidates (Candidate.ofTree story.root), g.first.place = place ∧ identifier ∈ g.identifiers

instance (story : Story) (place : Place) (identifier : Text) : Decidable (Reports story place identifier) :=
  inferInstanceAs (Decidable (∃ g ∈ _, _))

/-- Whether the tag of a line goes into an interpolation. -/
def LosesTag (i : Nat) (line : Text) : Prop :=
  ∃ role state body, (ofCode (strip (codeOf (readAs i line)))).narrative? = some (role, state, body) ∧
    IsEnclosed state body (bracketOf line)

/-- Whether a line shows text in front of its tag where the tag takes the rest. -/
def KeepsText (i : Nat) (line : Text) : Prop :=
  ∀ role state body, (ofCode (strip (codeOf (readAs i line)))).narrative? = some (role, state, body) →
    ∀ ps, TakesAlong state body (bracketOf line) ps → 0 < visible.ofPieces ps

section

variable {library : Library} {root t : Text} {story : Story} (h : Story.parse library root t = .ok story) {i : Nat}
  {line : Text} (hline : (lines t)[i]? = some line)

include h hline

theorem standsOn_of_place {c : Candidate} (hc : c ∈ Candidate.ofTree story.root)
    (hplace : c.place = ⟨some root, ((1 + i : Nat) : Int)⟩) : ∃ ps, StandsOn c root i (readAs i line) ps := by
  obtain ⟨file, u, j, l, ps, hsource, hl, hstands⟩ := standsIn_of_parse h hc
  have hsame := hstands.place.symm.trans hplace
  obtain rfl : file = root := Option.some.inj (congrArg Place.file hsame)
  have hnumber : ((1 + j : Nat) : Int) = ((1 + i : Nat) : Int) := congrArg Place.line hsame
  obtain rfl : j = i := by omega
  have hroot : SourceText library file t file t := by rw [SourceText, if_pos rfl]
  obtain rfl := hsource.eq hroot
  obtain ⟨written, hwritten, rfl⟩ := getElem?_lines_dropMarks.1 hl
  obtain rfl := Option.some.inj (hwritten.symm.trans hline)
  exact ⟨ps, hstands⟩

/-- The branch of a line is what its form says. -/
theorem lineBranch?_of_mem {role : Role} {content : List Node}
    (hbranch : .branch role (some ⟨some root, ((1 + i : Nat) : Int)⟩) content ∈ lineBranches story.root) :
    lineBranch? root (1 + i) (ofCode (strip (codeOf (readAs i line)))) =
      some (.branch role (some ⟨some root, ((1 + i : Nat) : Int)⟩) content) := by
  obtain ⟨page, progress, hlines, rfl⟩ := exists_page_of_parse h
  have hmem : .branch role (some ⟨some root, ((1 + i : Nat) : Int)⟩) content ∈ lineBranchesIn page.nodes := hbranch
  rw [lineBranches_parse hlines] at hmem
  obtain ⟨j, l, hl, hread⟩ := mem_branchesFrom_iff.1 hmem
  have hplace : ((1 + j : Nat) : Int) = ((1 + i : Nat) : Int) := by
    obtain ⟨role', state, body, ps, -, -, heq⟩ | ⟨name, value, -, heq⟩ := StoryReader.lineBranch?_cases hread
    · exact congrArg Place.line (Option.some.inj (Node.branch.inj heq).2.1).symm
    · exact congrArg Place.line (Option.some.inj (Node.branch.inj heq).2.1).symm
  obtain rfl : j = i := by omega
  obtain ⟨written, hwritten, rfl⟩ := getElem?_lines_dropMarks.1 hl
  obtain rfl := Option.some.inj (hwritten.symm.trans hline)
  exact hread

/-- A run finds an identifier on a line that shows text if it is found among the pieces. -/
theorem reports_iff {ps : List Piece} (hps : piecesIn? (readAs i line) = some ps) {identifier : Text} :
    Reports story ⟨some root, ((1 + i : Nat) : Int)⟩ identifier ↔ 0 < visible.ofPieces ps ∧ identifier ∈ foundIn ps := by
  have hgathered := LineGroup.gathered_ofCandidates (Candidate.ofTree story.root)
  have hl := getElem?_lines_dropMarks.2 ⟨line, hline, rfl⟩
  have hfeed : .char '\n' ∉ ps :=
    lineFeed_not_mem_of_piecesIn? hps (lineFeed_not_mem_of_mem_lines (List.mem_of_getElem? hline))
  have hsource : SourceText library root t root t := by rw [SourceText, if_pos rfl]
  have hgroup : ∀ g ∈ LineGroup.ofCandidates (Candidate.ofTree story.root),
      g.first.place = ⟨some root, ((1 + i : Nat) : Int)⟩ →
        0 < visible.ofPieces ps ∧ (identifier ∈ g.identifiers ↔ identifier ∈ foundIn ps) := by
    intro g hg hplace
    obtain ⟨qs, hstands⟩ := standsOn_of_place h hline (hgathered.mem g hg g.first List.mem_cons_self) hplace
    obtain rfl := Option.some.inj (hstands.pieces.symm.trans hps)
    exact ⟨(exists_text_iff _ _).1 ⟨_, hstands.text, hstands.dark⟩,
      StandsOn.mem_identifiers_iff h hg hsource hl hstands hfeed⟩
  constructor
  · rintro ⟨g, hg, hplace, hmem⟩
    obtain ⟨hvisible, hiff⟩ := hgroup g hg hplace
    exact ⟨hvisible, hiff.1 hmem⟩
  · rintro ⟨hvisible, hmem⟩
    obtain ⟨role, state, body, hform, hpieces⟩ := piecesIn?_eq_some_iff.1 hps
    obtain ⟨s, htext, hblank⟩ := (exists_text_iff ⟨none, 0⟩ ps).2 hvisible
    obtain ⟨c, hc, hplace⟩ := exists_candidate_of_shown h hl hform hpieces htext hblank
    obtain ⟨g, hg, hmember⟩ := hgathered.covers c hc
    have hfirst : g.first.place = _ := (hgathered.place g hg c hmember).symm.trans hplace
    exact ⟨g, hg, hfirst, (hgroup g hg hfirst).2.2 hmem⟩

end

theorem Sighting.mem_iff {identifier body : Text} {state : BracketState} {bracket : Option Text} {old new : List Piece}
    (h : Sighting identifier state body bracket old new) :
    identifier ∈ idsOf new ↔ ¬IsEnclosed state body bracket ∨ identifier ∈ idsOf old := by
  obtain ⟨houtside, hshows⟩ | ⟨hinside, hsame⟩ := h.tag
  · exact iff_of_true hshows.mem (.inl houtside)
  · rw [hsame]
    exact ⟨.inr, fun hor => hor.resolve_left fun hnot => hnot hinside⟩

/-- Text is left exactly if some is in front of a tag that takes the rest. -/
theorem Sighting.visible_iff {identifier body : Text} {state : BracketState} {bracket : Option Text} {old new : List Piece}
    (h : Sighting identifier state body bracket old new) (hold : piecesOf state body = .ok old)
    (hvisible : 0 < visible.ofPieces old) :
    0 < visible.ofPieces new ↔ ∀ ps, TakesAlong state body bracket ps → 0 < visible.ofPieces ps := by
  obtain ⟨ps, htakes, htext⟩ | ⟨hnone, htext⟩ := h.text
  · rw [htext]
    exact ⟨fun hleft qs hqs => hqs.eq htakes hold ▸ hleft, fun hall => hall ps htakes⟩
  · rw [htext]
    exact iff_of_true hvisible fun ps hps => absurd hps (hnone ps)

section

variable {i : Nat} {line body : Text} {role : Role} {state : BracketState}
  (hform : (ofCode (strip (codeOf (readAs i line)))).narrative? = some (role, state, body))

include hform

theorem hasNoCode_of_narrative? : hasNoCode (readAs i line) = false := by
  cases hblank : hasNoCode (readAs i line) with
  | false => rfl
  | true =>
    rw [strip, stripStart_of_isBlankText hblank] at hform
    cases hform

theorem losesTag_iff : LosesTag i line ↔ IsEnclosed state body (bracketOf line) := by
  constructor
  · rintro ⟨role', state', body', hform', henclosed⟩
    obtain ⟨-, heq⟩ := Prod.mk.inj (Option.some.inj (hform'.symm.trans hform))
    obtain ⟨rfl, rfl⟩ := Prod.mk.inj heq
    exact henclosed
  · exact fun henclosed => ⟨role, state, body, hform, henclosed⟩

theorem keepsText_iff : KeepsText i line ↔ ∀ ps, TakesAlong state body (bracketOf line) ps → 0 < visible.ofPieces ps := by
  constructor
  · exact fun hkeeps => hkeeps role state body hform
  · intro hall role' state' body' hform'
    obtain ⟨-, heq⟩ := Prod.mk.inj (Option.some.inj (hform'.symm.trans hform))
    obtain ⟨rfl, rfl⟩ := Prod.mk.inj heq
    exact hall

/-- A line that shows text, with a tag, if it is narrative still. -/
theorem sighting_of_insertTag {identifier : Text} (hid : isIdentifier identifier) {old new : List Piece}
    (hold : piecesOf state body = .ok old) (hvisible : 0 < visible.ofPieces old)
    (hnew : piecesIn? (readAs i (insertTag line identifier)) = some new) :
    Sighting identifier state body (bracketOf line) old new := by
  have hbody : body ≠ [] := by
    rintro rfl
    rw [piecesOf_nil] at hold
    split at hold
    · cases hold
    · obtain rfl := Except.ok.inj hold
      exact absurd hvisible (Nat.lt_irrefl 0)
  obtain ⟨role', state', body', hform', hnew⟩ := piecesIn?_eq_some_iff.1 hnew
  have hplaced := placed_readAs (isWord_of_isIdentifier hid) i (hasNoCode_of_narrative? hform)
  exact hplaced.sighting hid hform hbody hold hform' hnew

end

/-- A new tag is among the nodes of its line unless it goes into an interpolation. If there was no identifier before, a run finds it exactly if moreover the line still shows text. -/
theorem reports_insertTag_iff {library library' : Library} {root root' t t' : Text} {story story' : Story}
    (h : Story.parse library root t = .ok story) (h' : Story.parse library' root' t' = .ok story') {i : Nat}
    {line identifier : Text} (hid : isIdentifier identifier) (hline : (lines t)[i]? = some line)
    (hline' : (lines t')[i]? = some (insertTag line identifier))
    (hcandidate : ∃ c ∈ Candidate.ofTree story.root, c.place = ⟨some root, ((1 + i : Nat) : Int)⟩)
    {role : Role} {content content' : List Node}
    (hbranch : .branch role (some ⟨some root, ((1 + i : Nat) : Int)⟩) content ∈ lineBranches story.root)
    (hbranch' : .branch role (some ⟨some root', ((1 + i : Nat) : Int)⟩) content' ∈ lineBranches story'.root) :
    (identifier ∈ identifiersIn content' ↔ ¬LosesTag i line ∨ identifier ∈ identifiersIn content) ∧
    (identifiersIn content = [] → (Reports story' ⟨some root', ((1 + i : Nat) : Int)⟩ identifier ↔
      ¬LosesTag i line ∧ KeepsText i line)) := by
  obtain ⟨c, hc, hplace⟩ := hcandidate
  obtain ⟨old, hstands⟩ := standsOn_of_place h hline hc hplace
  obtain ⟨role₀, state, body, hform, hold⟩ := piecesIn?_eq_some_iff.1 hstands.pieces
  have hvisible : 0 < visible.ofPieces old := (exists_text_iff _ _).1 ⟨_, hstands.text, hstands.dark⟩
  have hread := lineBranch?_of_mem h hline hbranch
  rw [StoryReader.lineBranch?_of_ok root (1 + i) hform hold] at hread
  obtain ⟨rfl, -, rfl⟩ := Node.branch.inj (Option.some.inj hread)
  -- the line with the tag is narrative too, as its branch has the same role
  obtain ⟨role', state', body', new, hform', hnew, heq⟩ | ⟨name, value, -, heq⟩ :=
    StoryReader.lineBranch?_cases (lineBranch?_of_mem h' hline' hbranch')
  · obtain ⟨rfl, -, rfl⟩ := Node.branch.inj heq
    have hpieces := piecesIn?_eq_some_iff.2 ⟨_, state', body', hform', hnew⟩
    have hsighting := sighting_of_insertTag hform hid hold hvisible hpieces
    rw [identifiersIn_nodesOf, identifiersIn_nodesOf, losesTag_iff hform, keepsText_iff hform,
      ← hsighting.visible_iff hold hvisible]
    refine ⟨hsighting.mem_iff, fun hnone => ?_⟩
    rw [reports_iff h' hline' hpieces]
    constructor
    · rintro ⟨hleft, hfound⟩
      have hmem := hsighting.mem_iff.1 (foundIn_subset new hfound)
      refine ⟨hmem.resolve_right ?_, hleft⟩
      rw [show idsOf old = [] from hnone]
      exact List.not_mem_nil
    · rintro ⟨houtside, hleft⟩
      obtain ⟨-, hshows⟩ | ⟨hinside, -⟩ := hsighting.tag
      · exact ⟨hleft, hshows.mem_foundIn hnone⟩
      · exact absurd hinside houtside
  · obtain ⟨hrole, -⟩ := Node.branch.inj heq
    have hlogic := (StoryReader.role_of_narrative? hform).1
    rw [hrole] at hlogic
    cases hlogic

/-- A line of a story from outside: its branch with the identifiers on it, whether it has candidates, and whether a run finds some identifier there. -/
structure LineView where
  role : Role
  place : Option Place
  identifiers : List Text
  shown : Bool
  found : Bool
  deriving DecidableEq

/-- The branches of the lines of a story, seen with an eye to one place and one identifier. -/
def lineViews (place : Place) (identifier : Text) (story : Story) : List LineView :=
  (lineBranches story.root).filterMap fun
    | .branch role p content => some ⟨role, p, identifiersIn content,
        decide (∃ c ∈ Candidate.ofTree story.root, c.place = place), decide (Reports story place identifier)⟩
    | _ => none

theorem exists_line_of_view {t identifier : Text} {place : Place} {role : Role} {ids : List Text} {shown found : Bool}
    (h : (Story.parse {} mainFile t).toOption.map (lineViews place identifier) = some [⟨role, some place, ids, shown, found⟩]) :
    ∃ story content, Story.parse {} mainFile t = .ok story ∧ .branch role (some place) content ∈ lineBranches story.root ∧
      identifiersIn content = ids ∧ decide (∃ c ∈ Candidate.ofTree story.root, c.place = place) = shown ∧
      decide (Reports story place identifier) = found := by
  obtain ⟨story, hparse, hviews⟩ := exists_parse_of_map h
  obtain ⟨n, hn, hview⟩ := List.mem_filterMap.1 (hviews ▸ List.mem_singleton_self _)
  cases n with
  | text s p => cases hview
  | tag s p => cases hview
  | branch role' p content =>
    cases hview
    exact ⟨story, content, hparse, hn, rfl, rfl, rfl⟩

/-- The bracket that is searched for is the one behind the interpolation. -/
def bracedChoice : Text := "* \x7ba\x7d b [c] d".toList

theorem reports_insertTag_iff_bracedChoice : ∃ story story' content content',
    Story.parse {} mainFile bracedChoice = .ok story ∧
    Story.parse {} mainFile (insertTag bracedChoice "AAAA".toList) = .ok story' ∧
    .branch .choice (some ⟨some mainFile, 1⟩) content ∈ lineBranches story.root ∧
    .branch .choice (some ⟨some mainFile, 1⟩) content' ∈ lineBranches story'.root ∧
    isIdentifier "AAAA".toList ∧ (lines bracedChoice)[0]? = some bracedChoice ∧
    (lines (insertTag bracedChoice "AAAA".toList))[0]? = some (insertTag bracedChoice "AAAA".toList) ∧
    (∃ c ∈ Candidate.ofTree story.root, c.place = ⟨some mainFile, 1⟩) ∧
    "AAAA".toList ∈ identifiersIn content' ∧ Reports story' ⟨some mainFile, 1⟩ "AAAA".toList ∧
    ¬LosesTag 0 bracedChoice ∧ KeepsText 0 bracedChoice := by
  have hview : (Story.parse {} mainFile bracedChoice).toOption.map (lineViews ⟨some mainFile, 1⟩ "AAAA".toList) =
      some [⟨.choice, some ⟨some mainFile, 1⟩, [], true, false⟩] := by decide +kernel
  have hview' : (Story.parse {} mainFile (insertTag bracedChoice "AAAA".toList)).toOption.map
      (lineViews ⟨some mainFile, 1⟩ "AAAA".toList) =
      some [⟨.choice, some ⟨some mainFile, 1⟩, ["AAAA".toList], true, true⟩] := by decide +kernel
  obtain ⟨story, content, hparse, hbranch, hids, hshown, -⟩ := exists_line_of_view hview
  obtain ⟨story', content', hparse', hbranch', hids', -, hfound⟩ := exists_line_of_view hview'
  have hid : isIdentifier "AAAA".toList := by decide
  have hlines : (lines bracedChoice)[0]? = some bracedChoice := by decide +kernel
  have hlines' : (lines (insertTag bracedChoice "AAAA".toList))[0]? = some (insertTag bracedChoice "AAAA".toList) := by
    decide +kernel
  obtain ⟨hmem, hreports⟩ :=
    reports_insertTag_iff hparse hparse' hid hlines hlines' (of_decide_eq_true hshown) hbranch hbranch'
  obtain ⟨hseen, hkept⟩ := (hreports hids).1 (of_decide_eq_true hfound)
  exact ⟨story, story', content, content', hparse, hparse', hbranch, hbranch', hid, hlines, hlines',
    of_decide_eq_true hshown, hmem.2 (.inl hseen), of_decide_eq_true hfound, hseen, hkept⟩

/-- The escaped brace opens none for the search, which finds the bracket inside the interpolation. -/
def escapedBrace : Text := "* \x7ba\\\x7bb\x7d[x]\x7d y".toList

theorem not_reports_insertTag_escapedBrace : ∃ story story' content content',
    Story.parse {} mainFile escapedBrace = .ok story ∧
    Story.parse {} mainFile (insertTag escapedBrace "AAAA".toList) = .ok story' ∧
    hasNoCode escapedBrace = false ∧ codeTag? escapedBrace = none ∧ isIdentifier "AAAA".toList ∧
    lines escapedBrace = [escapedBrace] ∧ (∃ c ∈ Candidate.ofTree story.root, c.place = ⟨some mainFile, 1⟩) ∧
    .branch .choice (some ⟨some mainFile, 1⟩) content ∈ lineBranches story.root ∧
    .branch .choice (some ⟨some mainFile, 1⟩) content' ∈ lineBranches story'.root ∧
    identifiersIn content' = [] ∧ ¬Reports story' ⟨some mainFile, 1⟩ "AAAA".toList := by
  have hview : (Story.parse {} mainFile escapedBrace).toOption.map (lineViews ⟨some mainFile, 1⟩ "AAAA".toList) =
      some [⟨.choice, some ⟨some mainFile, 1⟩, [], true, false⟩] := by decide +kernel
  have hview' : (Story.parse {} mainFile (insertTag escapedBrace "AAAA".toList)).toOption.map
      (lineViews ⟨some mainFile, 1⟩ "AAAA".toList) =
      some [⟨.choice, some ⟨some mainFile, 1⟩, [], true, false⟩] := by decide +kernel
  obtain ⟨story, content, hparse, hbranch, -, hshown, -⟩ := exists_line_of_view hview
  obtain ⟨story', content', hparse', hbranch', hids', -, hfound⟩ := exists_line_of_view hview'
  exact ⟨story, story', content, content', hparse, hparse', by decide, by decide, by decide, by decide +kernel,
    of_decide_eq_true hshown, hbranch, hbranch', hids', of_decide_eq_false hfound⟩

end LineTags
