import LineTags.Proofs.Minting.LineGroups
import LineTags.Proofs.Script.RoundTrip
import LineTags.Proofs.Story.Provenance
import LineTags.Proofs.Story.TaggedLine

/-!
# Files with new tags

Identifiers are minted from a story, and their tags are put into the lines of its root file. Here each edit is traced back to its line and to what was read from it (`Edited`), and the text with the tags is taken apart into its lines. The reader sees the first line without the byte order marks that the file may start with.
-/

namespace LineTags

open Text LineForm StoryReader

/-! ### Lines with tags -/

/-- A line with the tag of the first edit that is for it. -/
def tagLine (edits : List IdEdit) (i : Nat) (line : Text) : Text :=
  match edits.find? (·.line == (i : Int) + 1) with
  | some e => insertTag line e.identifier
  | none => line

/-- The text of a file with the tag of each edit on its line. -/
def insertTags (t : Text) (edits : List IdEdit) : Text := unlines ((lines t).mapIdx (tagLine edits))

/-- A line as it is read. -/
def readAs (i : Nat) (line : Text) : Text := if i = 0 then dropMarks line else line

theorem lines_dropMarks (t : Text) : lines (dropMarks t) = (lines t).mapIdx readAs := by
  have hrest : ∀ ls : List Text, ls.mapIdx (fun i => readAs (i + 1)) = ls := fun ls => by
    apply List.ext_getElem?
    intro i
    rw [List.getElem?_mapIdx]
    exact Option.map_id'
  induction t with
  | nil => rfl
  | cons c t ih =>
    by_cases hmark : c = '\uFEFF'
    · obtain ⟨first, rest, hlines⟩ := List.exists_cons_of_ne_nil (lines_ne_nil t)
      have hcons : lines (c :: t) = (c :: first) :: rest := by
        rw [lines, split, if_neg (by rw [hmark]; decide), show split '\n' t = first :: rest from hlines]
      have hdrop : ∀ s, dropMarks (c :: s) = dropMarks s := fun s => by rw [hmark]; rfl
      rw [hdrop, ih, hlines, hcons, List.mapIdx_cons, List.mapIdx_cons, hrest]
      show _ = dropMarks (c :: first) :: rest
      rw [hdrop]
      rfl
    · have hkeep : ∀ s, dropMarks (c :: s) = c :: s := fun s =>
        dropMarks_of_head? fun h => hmark (Option.some.inj h)
      obtain ⟨first, rest, hlines⟩ := List.exists_cons_of_ne_nil (lines_ne_nil (c :: t))
      have hfirst : dropMarks first = first := by
        rw [lines, split] at hlines
        split at hlines
        · rw [← (List.cons.inj hlines).1]
          rfl
        · split at hlines
          · rw [← (List.cons.inj hlines).1, hkeep]
          · rw [← (List.cons.inj hlines).1, hkeep]
      rw [hkeep, hlines, List.mapIdx_cons, hrest]
      show _ = dropMarks first :: rest
      rw [hfirst]

theorem lines_insertTags {t : Text} {edits : List IdEdit} (hid : ∀ e ∈ edits, isIdentifier e.identifier = true) :
    lines (insertTags t edits) = (lines t).mapIdx (tagLine edits) := by
  refine lines_unlines ?_ fun l hl => ?_
  · intro hnil
    exact lines_ne_nil t (List.mapIdx_eq_nil_iff.1 hnil)
  · obtain ⟨i, hi, rfl⟩ := List.mem_mapIdx.1 hl
    have hline := lineFeed_not_mem_of_mem_lines (List.getElem_mem hi)
    unfold tagLine
    split
    · next e hfind => exact lineFeed_not_mem_insertTag hline (isWord_of_isIdentifier (hid e (List.mem_of_find?_eq_some hfind)))
    · exact hline

/-- The lines of a file as they are read. -/
theorem getElem?_lines_dropMarks {t l : Text} {i : Nat} :
    (lines (dropMarks t))[i]? = some l ↔ ∃ line, (lines t)[i]? = some line ∧ readAs i line = l := by
  rw [lines_dropMarks, List.getElem?_mapIdx, Option.map_eq_some_iff]

theorem getElem?_lines_insertTags {t line : Text} {edits : List IdEdit}
    (hid : ∀ e ∈ edits, isIdentifier e.identifier = true) {i : Nat} (h : (lines t)[i]? = some line) :
    (lines (dropMarks (insertTags t edits)))[i]? = some (readAs i (tagLine edits i line)) := by
  rw [lines_dropMarks, lines_insertTags hid, List.getElem?_mapIdx, List.getElem?_mapIdx, h]
  rfl

theorem length_lines_insertTags {t : Text} {edits : List IdEdit}
    (hid : ∀ e ∈ edits, isIdentifier e.identifier = true) :
    (lines (dropMarks (insertTags t edits))).length = (lines (dropMarks t)).length := by
  rw [lines_dropMarks, lines_dropMarks, lines_insertTags hid, List.length_mapIdx, List.length_mapIdx, List.length_mapIdx]

theorem placed_readAs {identifier line : Text} (hword : IsWord identifier) (i : Nat)
    (hcode : hasNoCode (readAs i line) = false) :
    Placed identifier (bracketOf line) (strip (codeOf (readAs i line)))
      (strip (codeOf (readAs i (insertTag line identifier)))) := by
  unfold readAs at hcode ⊢
  split at hcode
  · next hzero =>
    rw [if_pos hzero, if_pos hzero]
    exact placed_insertTag_dropMarks hword hcode
  · next hzero =>
    rw [if_neg hzero, if_neg hzero]
    exact placed_insertTag hword hcode

/-! ### Tags among nodes -/

/-- The identifiers of the tags among some nodes. -/
def identifiersIn (ns : List Node) : List Text :=
  ns.filterMap fun
    | .tag t _ => Candidate.identifierOfTag? t
    | _ => none

def Piece.identifier? : Piece → Option Text
  | .tag t => Candidate.identifierOfTag? t
  | _ => none

section

variable {f : Node → Option Text} {place : Place} (htext : ∀ t p, f (.text t p) = none)
  (hbranch : ∀ role p content, f (.branch role p content) = none)
  (htag : ∀ t, f (.tag t (some place)) = Candidate.identifierOfTag? t)

include htext hbranch htag

theorem filterMap_nodesOf (ps : List Piece) : (nodesOf place ps).filterMap f = ps.filterMap Piece.identifier? := by
  have htextNode : ∀ t, (textNode place t).filterMap f = [] := fun t => by
    unfold textNode
    split
    · rfl
    · rw [List.filterMap_cons, htext, List.filterMap_nil]
  have hcons : ∀ (n : Node) (t : Text) (ns : List Node),
      (n :: (textNode place t ++ ns)).filterMap f = (f n).toList ++ ns.filterMap f := fun n t ns => by
    rw [List.filterMap_cons, List.filterMap_append, htextNode, List.nil_append]
    cases f n <;> rfl
  have hfrom : (nodesFrom place ps).2.filterMap f = ps.filterMap Piece.identifier? := by
    induction ps with
    | nil =>
      show [Node.text ['\n'] (some place)].filterMap f = []
      rw [List.filterMap_cons, htext, List.filterMap_nil]
    | cons p ps ih =>
      cases p with
      | char c => exact ih
      | bracket =>
        show (textNode place _ ++ _).filterMap f = _
        rw [List.filterMap_append, htextNode]
        exact ih
      | interpolation body =>
        refine (hcons _ _ _).trans ?_
        rw [hbranch]
        exact ih
      | divert target =>
        refine (hcons _ _ _).trans ?_
        rw [hbranch]
        exact ih
      | tag t =>
        refine (hcons _ _ _).trans ?_
        rw [htag, ih, List.filterMap_cons, Piece.identifier?]
        cases Candidate.identifierOfTag? t <;> rfl
  unfold nodesOf
  dsimp only
  rw [List.filterMap_append, htextNode, hfrom, List.nil_append]

end

theorem identifiersIn_nodesOf (place : Place) (ps : List Piece) :
    identifiersIn (nodesOf place ps) = ps.filterMap Piece.identifier? :=
  filterMap_nodesOf (fun _ _ => rfl) (fun _ _ _ => rfl) (fun _ => rfl) ps

theorem lineIdentifiers_of_siblings {c : Candidate} {ps : List Piece} (h : c.siblings = nodesOf c.place ps) :
    c.lineIdentifiers = ps.filterMap Piece.identifier? := by
  rw [Candidate.lineIdentifiers, h]
  exact filterMap_nodesOf (fun _ _ => rfl) (fun _ _ _ => rfl) (fun _ => if_pos rfl) ps

theorem identifierOfTag?_tagText {identifier : Text} (hid : isIdentifier identifier) :
    Candidate.identifierOfTag? (tagText identifier) = some identifier := by
  have hstart := tagAtStart?_formatTag hid startsIn_nil
  rw [List.append_nil, formatTag_eq] at hstart
  rw [Candidate.identifierOfTag?, firstTag?, findTags, tagsFrom, hstart]
  rfl

/-- A tag that is added to pieces without identifiers brings the only one. -/
theorem filterMap_identifier?_of_tagAdded {identifier : Text} {old new : List Piece} (hid : isIdentifier identifier)
    (h : TagAdded (tagText identifier) old new) (hfree : ∀ s, .tag s ∈ old → Candidate.identifierOfTag? s = none) :
    new.filterMap Piece.identifier? = [identifier] := by
  obtain ⟨ps, qs, w, w', -, -, -, rfl, rfl⟩ := h
  have hnone : ∀ rs : List Piece, (∀ p ∈ rs, p ∈ ps ++ w.map Piece.char ++ qs) → rs.filterMap Piece.identifier? = [] := by
    intro rs hrs
    rw [List.filterMap_eq_nil_iff]
    intro p hp
    cases p with
    | tag s => exact hfree s (hrs _ hp)
    | char c | bracket | interpolation body | divert target => rfl
  have hblank : (w'.map Piece.char).filterMap Piece.identifier? = [] := by
    rw [List.filterMap_map, List.filterMap_eq_nil_iff]
    exact fun c _ => rfl
  rw [List.filterMap_append, List.filterMap_append, hblank, hnone ps fun p hp => by simp [hp], List.filterMap_cons,
    hnone qs fun p hp => by simp [hp]]
  rw [Piece.identifier?, identifierOfTag?_tagText hid]
  rfl

/-! ### Edits and their lines -/

/-- What is known of the line that an edit is for. It has text, and no identifier was read from it. -/
structure Edited (file t : Text) (e : IdEdit) (i : Nat) (line : Text) (role : Role) (state : BracketState) (body : Text)
    (ps : List Piece) : Prop where
  place : e.place = ⟨some file, ((1 + i : Nat) : Int)⟩
  written : (lines t)[i]? = some line
  form : (ofCode (strip (codeOf (readAs i line)))).narrative? = some (role, state, body)
  nonempty : body ≠ []
  pieces : piecesOf state body = .ok ps
  free : ∀ s, .tag s ∈ ps → Candidate.identifierOfTag? s = none
  identifier : isIdentifier e.identifier = true

theorem exists_edited {library : Library} {file t : Text} {story : Story} (hparse : Story.parse library file t = .ok story)
    {g : Generator} (hlength : g.length = codeLength) {existing : List Text} {e : IdEdit}
    (he : e ∈ (g.run existing story.root).1.editsFor (some file)) :
    ∃ i line role state body ps, Edited file t e i line role state body ps := by
  obtain ⟨hrun, hfile⟩ := List.mem_filter.1 he
  obtain ⟨-, hmade⟩ := g.run_edits existing story.root
  obtain ⟨group, hfirst, hnone, hplace, code, hid, hcodeLength, hcode⟩ := hmade e hrun
  have hplaced : group.first.place.file = some file := by
    rw [← hplace]
    exact eq_of_beq hfile
  obtain ⟨i, l, role, state, body, ps, hl, hform, hpieces, hne, hat, hsiblings, hnames⟩ :=
    exists_line_of_candidate hparse hfirst hplaced
  obtain ⟨line, hwritten, rfl⟩ := getElem?_lines_dropMarks.1 hl
  refine ⟨i, line, role, state, body, ps, hplace.trans hat, hwritten, hform, ?_, hpieces, fun s hs => ?_, ?_⟩
  · rintro rfl
    rw [piecesOf_nil] at hpieces
    split at hpieces
    · cases hpieces
    · exact hne (Except.ok.inj hpieces).symm
  · rw [lineIdentifiers_of_siblings hsiblings, List.filterMap_eq_nil_iff] at hnone
    exact hnone (.tag s) hs
  · rw [hid]
    refine isIdentifier_stem hnames ?_ hcode
    rw [hcodeLength, hlength]
    rfl

namespace Edited

variable {file t line body : Text} {e : IdEdit} {i : Nat} {role : Role} {state : BracketState} {ps : List Piece}

theorem hasNoCode (h : Edited file t e i line role state body ps) : hasNoCode (readAs i line) = false := by
  cases hblank : LineTags.hasNoCode (readAs i line) with
  | false => rfl
  | true =>
    have hform := h.form
    rw [strip, stripStart_of_isBlankText hblank] at hform
    cases hform

/-- The tag either fits or makes something else of the line. -/
theorem cases (h : Edited file t e i line role state body ps) :
    (Fits state (strip (codeOf (readAs i line))) body (bracketOf line) ∧
      ∃ body' ps', (ofCode (strip (codeOf (readAs i (insertTag line e.identifier))))).narrative? =
        some (role, state, body') ∧ piecesOf state body' = .ok ps' ∧ TagAdded (tagText e.identifier) ps ps') ∨
    (¬Fits state (strip (codeOf (readAs i line))) body (bracketOf line) ∧
      ∀ body' ps', (ofCode (strip (codeOf (readAs i (insertTag line e.identifier))))).narrative? =
        some (role, state, body') → piecesOf state body' = .ok ps' → Differ (tagText e.identifier) ps ps') :=
  (placed_readAs (isWord_of_isIdentifier h.identifier) i h.hasNoCode).cases h.identifier h.form h.nonempty h.pieces h.free

end Edited

end LineTags
