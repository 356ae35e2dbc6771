import LineTags.Proofs.Story.Sources
import LineTags.Proofs.Story.TaggedFile

/-!
# Two ways to find the tags of a line

The tags of a script are looked for in two ways. The codec searches the code of a line for `#id:` and an identifier, whatever stands around it. The reader takes the line apart and knows escapes and braces; it takes each `#` that is left for the start of a tag and drops the blanks around the text of the tag before it looks for an identifier there. Where there is no backslash and no brace, and no blank behind a `#`, both find the same.
-/

namespace LineTags

open Text CommentedLine LineForm

/-! ### The part of a line that is read -/

/-- A text ends in another one, and no `#` stands before that. -/
def EndsIn (t u : Text) : Prop := ∃ pre, t = pre ++ u ∧ '#' ∉ pre

namespace EndsIn

variable {t u v : Text}

theorem refl (t : Text) : EndsIn t t := ⟨[], rfl, List.not_mem_nil⟩

theorem trans (h : EndsIn t u) (h' : EndsIn u v) : EndsIn t v := by
  obtain ⟨pre, rfl, hpre⟩ := h
  obtain ⟨pre', rfl, hpre'⟩ := h'
  refine ⟨pre ++ pre', by rw [List.append_assoc], fun hmem => ?_⟩
  rcases List.mem_append.1 hmem with hmem | hmem
  · exact hpre hmem
  · exact hpre' hmem

theorem subset (h : EndsIn t u) : u ⊆ t := by
  obtain ⟨pre, rfl, -⟩ := h
  exact List.subset_append_right _ _

theorem cons {c : Char} (hc : c ≠ '#') (h : EndsIn t u) : EndsIn (c :: t) u :=
  trans ⟨[c], rfl, fun hmem => hc (List.mem_singleton.1 hmem).symm⟩ h

theorem dropWhile {p : Char → Bool} (hp : p '#' = false) (t : Text) : EndsIn t (t.dropWhile p) := by
  refine ⟨t.takeWhile p, List.takeWhile_append_dropWhile.symm, fun hmem => ?_⟩
  have := List.mem_takeWhile_imp hmem
  rw [hp] at this
  cases this

theorem stripStart (t : Text) : EndsIn t (stripStart t) := dropWhile (by decide) t

theorem cutAtTarget (t : Text) : EndsIn t (cutAtTarget t).2 := by
  unfold LineTags.cutAtTarget
  dsimp only
  split
  · exact refl t
  · exact (stripStart t).trans (dropWhile (by decide +kernel) _)

/-- Marks and the blanks among them are no tags. -/
theorem not_mem_take_marksLength {isMark : Char → Bool} (hmark : isMark '#' = false) (t : Text) :
    '#' ∉ t.take (marksLength isMark t) := by
  induction t with
  | nil => exact List.not_mem_nil
  | cons c t ih =>
    rw [marksLength]
    split
    · next hc =>
      rw [List.take_succ_cons, List.mem_cons, not_or]
      refine ⟨?_, ih⟩
      rintro rfl
      rw [hmark] at hc
      cases hc
    split
    · next hblank =>
      split
      · exact List.not_mem_nil
      · next n hn =>
        rw [hn] at ih
        rw [List.take_succ_cons, List.mem_cons, not_or]
        refine ⟨?_, ih⟩
        rintro rfl
        exact absurd hblank (by decide)
    · exact List.not_mem_nil

theorem drop_marksLength {isMark : Char → Bool} (hmark : isMark '#' = false) (t : Text) :
    EndsIn t (t.drop (marksLength isMark t)) :=
  ⟨t.take (marksLength isMark t), (List.take_append_drop _ _).symm, not_mem_take_marksLength hmark t⟩

/-- What is counted as marks ends in a mark. -/
theorem exists_mark_before {isMark : Char → Bool} {t : Text} (h : marksLength isMark t ≠ 0) :
    ∃ pre c, isMark c ∧ t = pre ++ c :: t.drop (marksLength isMark t) := by
  induction t with
  | nil => exact absurd rfl h
  | cons c t ih =>
    have hbehind (hrest : marksLength isMark t ≠ 0) :
        ∃ pre d, isMark d ∧ c :: t = pre ++ d :: t.drop (marksLength isMark t) := by
      obtain ⟨pre, d, hd, heq⟩ := ih hrest
      exact ⟨c :: pre, d, hd, by rw [List.cons_append, ← heq]⟩
    rw [marksLength] at h ⊢
    split
    · next hc =>
      rw [List.drop_succ_cons]
      by_cases hrest : marksLength isMark t = 0
      · exact ⟨[], c, hc, by rw [hrest]; rfl⟩
      · exact hbehind hrest
    · next hc =>
      rw [if_neg hc] at h
      split
      · next hblank =>
        rw [if_pos hblank] at h
        cases hn : marksLength isMark t with
        | zero =>
          rw [hn] at h
          exact absurd rfl h
        | succ n =>
          rw [hn] at hbehind
          exact hbehind (Nat.succ_ne_zero n)
      · next hblank =>
        rw [if_neg hblank] at h
        exact absurd rfl h

/-- A label holds a word only. -/
theorem dropLabel (t : Text) : EndsIn t (dropLabel t) := by
  cases t with
  | nil => exact refl []
  | cons c r =>
    by_cases hc : c = '('
    · subst hc
      rw [dropLabel_paren]
      obtain ⟨s, hs, -, heq⟩ | ⟨-, heq⟩ := behindLabel_cases ('(' :: r) ((Text.stripStart r).takeWhile isWordChar)
        (Text.stripStart ((Text.stripStart r).dropWhile isWordChar))
      · have hword : EndsIn (Text.stripStart r) ((Text.stripStart r).dropWhile isWordChar) := dropWhile (by decide +kernel) _
        have hclose : EndsIn (Text.stripStart ((Text.stripStart r).dropWhile isWordChar)) s := by
          rw [hs]
          exact cons (by decide) (refl s)
        rw [heq]
        exact cons (by decide) ((((stripStart r).trans hword).trans (stripStart _)).trans (hclose.trans (stripStart s)))
      · rw [heq]
        exact refl _
    · have hsame : LineForm.dropLabel (c :: r) = c :: r := by
        unfold LineForm.dropLabel
        split
        · next heq => exact absurd (List.cons.inj heq).1 hc
        · rfl
      rw [hsame]
      exact refl _

/-- The dash of an arrow behind the marks was counted with them. -/
theorem afterGatherMarks {t : Text} (h : marksLength isGatherMark t ≠ 0) : EndsIn t (afterGatherMarks t) := by
  unfold LineForm.afterGatherMarks
  dsimp only
  split
  · obtain ⟨pre, c, hc, heq⟩ := exists_mark_before h
    obtain rfl : c = '-' := eq_of_beq hc
    refine ⟨pre, heq, fun hmem => not_mem_take_marksLength (by decide : isGatherMark '#' = false) t ?_⟩
    have hall : (pre ++ ['-']) ++ t.drop (marksLength isGatherMark t) =
        t.take (marksLength isGatherMark t) ++ t.drop (marksLength isGatherMark t) := by
      rw [List.take_append_drop, List.append_assoc]
      exact heq.symm
    rw [← List.append_cancel_right hall]
    exact List.mem_append_left _ hmem
  · exact (drop_marksLength (by decide) t).trans (stripStart _)

theorem narrative? {code body : Text} {role : Role} {state : BracketState}
    (h : (ofCode code).narrative? = some (role, state, body)) : EndsIn code body := by
  rw [ofCode_of_isNarrative (isNarrative_of_narrative? h)] at h
  unfold ofNarrative at h
  split at h
  · obtain rfl := (Prod.mk.inj (Prod.mk.inj (Option.some.inj h)).2).2
    exact refl code
  split at h
  · obtain rfl := (Prod.mk.inj (Prod.mk.inj (Option.some.inj h)).2).2
    exact ((drop_marksLength (by decide) code).trans (stripStart _)).trans (dropLabel _)
  split at h
  · next hmarks =>
    obtain rfl := (Prod.mk.inj (Prod.mk.inj (Option.some.inj h)).2).2
    exact (afterGatherMarks hmarks).trans (dropLabel _)
  · obtain rfl := (Prod.mk.inj (Prod.mk.inj (Option.some.inj h)).2).2
    exact refl code

end EndsIn

/-- The code of a line is what is read of it, behind a part without `#` and before blanks. -/
theorem exists_around_body {i : Nat} {line body : Text} {role : Role} {state : BracketState}
    (h : (ofCode (strip (codeOf (readAs i line)))).narrative? = some (role, state, body)) :
    ∃ pre post, codeOf line = pre ++ (body ++ post) ∧ '#' ∉ pre ∧ ∀ c ∈ post, isBlank c := by
  have hmarks : EndsIn (codeOf line) (codeOf (readAs i line)) := by
    unfold readAs
    split
    · obtain ⟨marks, read, rfl, hmarks, -, hdrop⟩ := exists_marks_append line
      rw [hdrop]
      refine ⟨marks, codeOf_append_of_isPlain (fun c hc => isPlain_of_mark (hmarks c hc)) read, fun hmem => ?_⟩
      exact absurd (hmarks _ hmem) (by decide)
    · exact .refl _
  obtain ⟨pre, hpre, hhash⟩ := hmarks.trans (.stripStart _)
  obtain ⟨post, hpost, hsplit⟩ := exists_blanks_stripEnd (stripStart (codeOf (readAs i line)))
  obtain ⟨pre', hpre', hhash'⟩ := EndsIn.narrative? h
  refine ⟨pre ++ pre', post, ?_, fun hmem => ?_, hpost⟩
  · rw [hpre, hsplit, show stripEnd (stripStart (codeOf (readAs i line))) = pre' ++ body from hpre']
    simp only [List.append_assoc]
  · rcases List.mem_append.1 hmem with hmem | hmem
    · exact hhash hmem
    · exact hhash' hmem

/-! ### Plain tags -/

/-- Whether a text has neither backslashes nor opening braces, and no `#` with a blank behind it. -/
def hasPlainTags : Text → Bool
  | [] => true
  | c :: r => c != '\\' && c != '\x7b' && !(c == '#' && r.head?.any isBlank) && hasPlainTags r

section

variable {s t r : Text} {c : Char}

theorem hasPlainTags_cons : hasPlainTags (c :: r) = true ↔
    c ≠ '\\' ∧ c ≠ '\x7b' ∧ (c = '#' → StartsIn (isBlank · = false) r) ∧ hasPlainTags r = true := by
  have hhead : (!(c == '#' && r.head?.any isBlank)) = true ↔ (c = '#' → StartsIn (isBlank · = false) r) := by
    cases r with
    | nil => simp [startsIn_nil]
    | cons d r => simp [startsIn_cons, imp_iff_not_or]
  rw [hasPlainTags, Bool.and_eq_true, Bool.and_eq_true, Bool.and_eq_true, bne_iff_ne, bne_iff_ne, hhead, and_assoc, and_assoc]

theorem hasPlainTags_of_append (h : hasPlainTags (s ++ t) = true) : hasPlainTags s = true ∧ hasPlainTags t = true := by
  induction s with
  | nil => exact ⟨rfl, h⟩
  | cons c s ih =>
    obtain ⟨hescape, hbrace, hhash, hrest⟩ := hasPlainTags_cons.1 h
    obtain ⟨hs, ht⟩ := ih hrest
    refine ⟨hasPlainTags_cons.2 ⟨hescape, hbrace, fun hc => ?_, hs⟩, ht⟩
    intro d hd
    refine hhash hc d ?_
    show d ∈ (s ++ t).head?
    rw [List.head?_append, hd]
    rfl

end

theorem EndsIn.map_identifier_tagsFrom {t u : Text} (h : EndsIn t u) (column other : Nat) :
    (tagsFrom column t).map TagMatch.identifier = (tagsFrom other u).map TagMatch.identifier := by
  obtain ⟨pre, rfl, hpre⟩ := h
  rw [tagsFrom_append_of_not_mem column hpre]
  exact LineTags.map_identifier_tagsFrom _ _ u

theorem EndsIn.hasPlainTags {t u : Text} (h : EndsIn t u) (hplain : hasPlainTags t = true) : hasPlainTags u = true := by
  obtain ⟨pre, rfl, -⟩ := h
  exact (hasPlainTags_of_append hplain).2

/-- The identifier of a tag as the reader takes it is that of the tag at this place. -/
theorem identifierOfTag?_strip {body r : Text} (hhash : '#' ∉ body) (hhead : StartsIn (isBlank · = false) body)
    (hr : StartsIn EndsRun r) : Candidate.identifierOfTag? (strip body) = tagAtStart? ('#' :: (body ++ r)) := by
  have hstart : stripStart body = body := by
    cases body with
    | nil => rfl
    | cons c body =>
      refine List.dropWhile_cons_of_neg ?_
      rw [startsIn_cons.1 hhead]
      exact Bool.false_ne_true
  obtain ⟨w, hw, hsplit⟩ := exists_blanks_stripEnd body
  have hstrip : strip body = stripEnd body := by rw [strip, hstart]
  have hw' : StartsIn EndsRun w := by
    cases w with
    | nil => exact startsIn_nil
    | cons c w => exact startsIn_cons.2 (EndsTag.of_isBlank (hw c List.mem_cons_self)).endsRun
  have hnone : tagsFrom 1 (strip body) = [] := by
    have hsub : '#' ∉ strip body := by
      rw [hstrip]
      intro hmem
      rw [hsplit] at hhash
      exact hhash (List.mem_append_left _ hmem)
    exact tagsFrom_of_not_mem 1 hsub
  have hfirst : Candidate.identifierOfTag? (strip body) = tagAtStart? ('#' :: strip body) := by
    rw [Candidate.identifierOfTag?, firstTag?, findTags, tagsFrom, hnone]
    cases tagAtStart? ('#' :: strip body) <;> rfl
  calc Candidate.identifierOfTag? (strip body)
      = tagAtStart? ('#' :: stripEnd body) := by rw [hfirst, hstrip]
    _ = tagAtStart? ('#' :: stripEnd body ++ w) := (tagAtStart?_append (List.cons_ne_nil _ _) hw').symm
    _ = tagAtStart? ('#' :: body) := by rw [List.cons_append, ← hsplit]
    _ = tagAtStart? ('#' :: (body ++ r)) := (tagAtStart?_append (s := '#' :: body) (List.cons_ne_nil _ _) hr).symm

theorem startsIn_dropWhile_goesOnTag (state : BracketState) (r : Text) : StartsIn EndsRun (r.dropWhile (goesOnTag state)) := by
  refine (startsIn_dropWhile (goesOnTag state) r).mono fun c hstop => ?_
  rw [goesOnTag, Bool.and_eq_false_iff, Bool.not_eq_false', Bool.and_eq_true, bne_eq_false_iff_eq, beq_iff_eq,
    beq_iff_eq] at hstop
  rcases hstop with rfl | ⟨-, rfl⟩
  · exact ⟨by decide, by decide⟩
  · exact ⟨by decide, by decide⟩

theorem not_mem_takeWhile_goesOnTag (state : BracketState) (r : Text) : '#' ∉ r.takeWhile (goesOnTag state) := by
  intro hmem
  have hgoes := List.mem_takeWhile_imp hmem
  rw [goesOnTag] at hgoes
  cases hgoes

section

variable {state state' : BracketState} {t r : Text} {p : Piece} {ps : List Piece}

/-- Of a text with plain tags one piece takes its tag, if it is one, and no other. -/
theorem map_identifier_of_nextPiece? (h : nextPiece? state t = some (p, state', r)) (hplain : hasPlainTags t = true)
    (column other : Nat) : hasPlainTags r = true ∧
      (tagsFrom column t).map TagMatch.identifier =
        p.identifier?.toList ++ (tagsFrom other r).map TagMatch.identifier := by
  have hskip (hends : EndsIn t r) (hnone : p.identifier? = none) : hasPlainTags r = true ∧
      (tagsFrom column t).map TagMatch.identifier =
        p.identifier?.toList ++ (tagsFrom other r).map TagMatch.identifier := by
    rw [hnone]
    exact ⟨hends.hasPlainTags hplain, hends.map_identifier_tagsFrom column other⟩
  fun_cases nextPiece? state t with
  | case1 => cases h
  | case2 c s => exact absurd rfl (hasPlainTags_cons.1 hplain).1
  | case3 s => exact absurd rfl (hasPlainTags_cons.1 hplain).2.1
  | case4 s =>
    obtain ⟨rfl, hrest⟩ := Prod.mk.inj (Option.some.inj h)
    obtain ⟨-, rfl⟩ := Prod.mk.inj hrest
    obtain ⟨-, -, hhead, hs⟩ := hasPlainTags_cons.1 hplain
    have hhash := not_mem_takeWhile_goesOnTag state s
    have hends : EndsIn s (s.dropWhile (goesOnTag state)) := ⟨_, List.takeWhile_append_dropWhile.symm, hhash⟩
    have hstart : StartsIn (isBlank · = false) (s.takeWhile (goesOnTag state)) := by
      intro c hc
      refine hhead rfl c ?_
      rw [← List.takeWhile_append_dropWhile (p := goesOnTag state) (l := s), List.head?_append, hc]
      rfl
    have htag := identifierOfTag?_strip hhash hstart (startsIn_dropWhile_goesOnTag state s)
    rw [List.takeWhile_append_dropWhile] at htag
    refine ⟨hends.hasPlainTags hs, ?_⟩
    rw [Piece.identifier?, htag, tagsFrom, ← hends.map_identifier_tagsFrom (column + 1) other]
    cases tagAtStart? ('#' :: s) <;> rfl
  | case5 s =>
    obtain ⟨rfl, hrest⟩ := Prod.mk.inj (Option.some.inj h)
    obtain ⟨-, rfl⟩ := Prod.mk.inj hrest
    exact hskip (.cons (by decide) (.cons (by decide) (.cutAtTarget s))) rfl
  | case6 c s hescape hbrace hhash harrow hopen =>
    rw [nextPiece?, if_pos hopen] at h
    · obtain ⟨rfl, hrest⟩ := Prod.mk.inj (Option.some.inj h)
      obtain ⟨-, rfl⟩ := Prod.mk.inj hrest
      exact hskip (.cons hhash (.refl _)) rfl
    all_goals assumption
  | case7 c s hescape hbrace hhash harrow hopen hclose =>
    rw [nextPiece?, if_neg hopen, if_pos hclose] at h
    · obtain ⟨rfl, hrest⟩ := Prod.mk.inj (Option.some.inj h)
      obtain ⟨-, rfl⟩ := Prod.mk.inj hrest
      exact hskip (.cons hhash (.refl _)) rfl
    all_goals assumption
  | case8 c s hescape hbrace hhash harrow hopen hclose =>
    rw [nextPiece?, if_neg hopen, if_neg hclose] at h
    · obtain ⟨rfl, hrest⟩ := Prod.mk.inj (Option.some.inj h)
      obtain ⟨-, rfl⟩ := Prod.mk.inj hrest
      exact hskip (.cons hhash (.refl _)) rfl
    all_goals assumption

/-- Of a text with plain tags the reader reads the tags that are found in it. -/
theorem identifiers_of_piecesOf (h : piecesOf state t = .ok ps) (hplain : hasPlainTags t = true) (column : Nat) :
    ps.filterMap Piece.identifier? = (tagsFrom column t).map TagMatch.identifier := by
  obtain ⟨state', hreads, -⟩ := piecesOf_eq_ok_iff.1 h
  clear h
  generalize hend : ([] : Text) = rest at hreads
  induction hreads generalizing column with
  | stop state t =>
    rw [← hend]
    rfl
  | piece hpiece _ ih =>
    obtain ⟨hrest, htags⟩ := map_identifier_of_nextPiece? hpiece hplain column 0
    rw [htags, List.filterMap_cons, ih hrest 0 hend]
    cases Piece.identifier? _ <;> rfl

end

/-! ### Characters -/

section

variable {state state' : BracketState} {t r : Text} {c : Char} {ps : List Piece}

theorem mem_of_nextPiece? (h : nextPiece? state t = some (.char c, state', r)) : c ∈ t := by
  fun_cases nextPiece? state t with
  | case1 => cases h
  | case2 d s =>
    obtain rfl := Piece.char.inj (Prod.mk.inj (Option.some.inj h)).1
    exact List.mem_cons_of_mem _ List.mem_cons_self
  | case3 s =>
    obtain ⟨q, -, heq⟩ := Option.map_eq_some_iff.1 h
    cases (Prod.mk.inj heq).1
  | case4 s => cases (Prod.mk.inj (Option.some.inj h)).1
  | case5 s => cases (Prod.mk.inj (Option.some.inj h)).1
  | case6 d s hescape hbrace hhash harrow hopen =>
    rw [nextPiece?, if_pos hopen] at h
    · cases (Prod.mk.inj (Option.some.inj h)).1
    all_goals assumption
  | case7 d s hescape hbrace hhash harrow hopen hclose =>
    rw [nextPiece?, if_neg hopen, if_pos hclose] at h
    · cases (Prod.mk.inj (Option.some.inj h)).1
    all_goals assumption
  | case8 d s hescape hbrace hhash harrow hopen hclose =>
    rw [nextPiece?, if_neg hopen, if_neg hclose] at h
    · obtain rfl := Piece.char.inj (Prod.mk.inj (Option.some.inj h)).1
      exact List.mem_cons_self
    all_goals assumption

/-- A character that is read stands in the text. -/
theorem mem_of_char_mem (h : piecesOf state t = .ok ps) (hc : .char c ∈ ps) : c ∈ t := by
  obtain ⟨state', hreads, -⟩ := piecesOf_eq_ok_iff.1 h
  clear h
  generalize hend : ([] : Text) = rest at hreads
  induction hreads with
  | stop state t => cases hc
  | piece hpiece _ ih =>
    rcases List.mem_cons.1 hc with rfl | hc
    · exact mem_of_nextPiece? hpiece
    · obtain ⟨s, rfl, -⟩ := exists_taken hpiece
      exact List.mem_append_right _ (ih hc hend)

end

/-! ### The pieces of a line -/

section

variable {i : Nat} {line : Text} {ps : List Piece}

/-- Nothing that is read of a line is a line break. -/
theorem lineFeed_not_mem_of_piecesIn? (h : piecesIn? (readAs i line) = some ps) (hline : '\n' ∉ line) :
    .char '\n' ∉ ps := by
  obtain ⟨role, state, body, hform, hpieces⟩ := piecesIn?_eq_some_iff.1 h
  obtain ⟨pre, post, hcode, -, -⟩ := exists_around_body hform
  intro hmem
  refine hline ?_
  rw [← codeOf_append_commentOf line, hcode]
  exact List.mem_append_left _ (List.mem_append_right _ (List.mem_append_left _ (mem_of_char_mem hpieces hmem)))

/-- The tags that are read of a line with plain tags are those that are found in its code. -/
theorem identifiers_of_piecesIn? (h : piecesIn? (readAs i line) = some ps) (hplain : hasPlainTags (codeOf line) = true) :
    ps.filterMap Piece.identifier? = (findTags (codeOf line)).map TagMatch.identifier := by
  obtain ⟨role, state, body, hform, hpieces⟩ := piecesIn?_eq_some_iff.1 h
  obtain ⟨pre, post, hcode, hpre, hpost⟩ := exists_around_body hform
  have hends : EndsIn (codeOf line) (body ++ post) := ⟨pre, hcode, hpre⟩
  obtain ⟨hbody, -⟩ := hasPlainTags_of_append (hends.hasPlainTags hplain)
  have hblank : StartsIn EndsRun post := by
    cases post with
    | nil => exact startsIn_nil
    | cons c post => exact startsIn_cons.2 (EndsTag.of_isBlank (hpost c List.mem_cons_self)).endsRun
  have hnone : '#' ∉ post := fun hmem => absurd (hpost _ hmem) (by decide)
  have hrest : tagsFrom (0 + body.length) post = [] := tagsFrom_of_not_mem _ hnone
  calc ps.filterMap Piece.identifier?
      = (tagsFrom 0 body).map TagMatch.identifier := identifiers_of_piecesOf hpieces hbody 0
    _ = (tagsFrom 0 (body ++ post)).map TagMatch.identifier := by
      rw [tagsFrom_append 0 body hblank, hrest, List.append_nil]
    _ = (findTags (codeOf line)).map TagMatch.identifier := (hends.map_identifier_tagsFrom 0 0).symm

end

end LineTags
