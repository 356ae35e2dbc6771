import LineTags.Proofs.Tag.CommentCut
import LineTags.Proofs.Tag.Grammar
import LineTags.Tag.Erase
import LineTags.Tag.Insert

/-!
# A tag put into a line

Wherever the tag goes, to the end of the code or before the bracket of a choice, the line is cut into the part before the tag, a part behind it that is empty or starts with a blank or the bracket, and the comment. All that has to be known about the search for the place is this cut, `exists_cut`. The line with the tag then has the same comment, one more tag in its code, and is the old line again when that tag is erased.
-/

namespace LineTags

open Text CommentedLine

/-- What can stand right behind the place of a tag. -/
def FollowsTag (c : Char) : Prop := isBlank c ∨ c = ']'

theorem FollowsTag.endsTag {c : Char} (hc : FollowsTag c) : EndsTag c := by
  rcases hc with hc | rfl
  · exact EndsTag.of_isBlank hc
  · exact ⟨by decide, by decide, by decide⟩

theorem FollowsTag.isPlain {c : Char} (hc : FollowsTag c) : IsPlain c := by
  rcases hc with hc | rfl
  · refine ⟨?_, ?_, ?_⟩ <;> rintro rfl <;> exact absurd hc (by decide)
  · exact ⟨by decide, by decide, by decide⟩

theorem isPlain_of_isIdentifierChar {c : Char} (hc : isIdentifierChar c) : IsPlain c :=
  ⟨ne_of_isIdentifierChar hc (by decide), ne_of_isIdentifierChar hc (by decide), ne_of_isIdentifierChar hc (by decide)⟩

theorem isPlain_of_mem_spacedTag {word : Text} (hword : IsWord word) :
    ∀ c ∈ ' ' :: formatTag word, IsPlain c := by
  intro c hc
  simp only [formatTag, tagMark, List.cons_append, List.nil_append, List.mem_cons] at hc
  rcases hc with rfl | rfl | rfl | rfl | rfl | hc
  · exact ⟨by decide, by decide, by decide⟩
  · exact ⟨by decide, by decide, by decide⟩
  · exact ⟨by decide, by decide, by decide⟩
  · exact ⟨by decide, by decide, by decide⟩
  · exact ⟨by decide, by decide, by decide⟩
  · exact isPlain_of_isIdentifierChar (hword c hc)

/-! ### The place of the tag -/

theorem drop_of_closingBracket? {depth : Nat} {opened : Bool} {t : Text} {k : Nat}
    (h : closingBracket? depth opened t = some k) : ∃ r, t.drop k = ']' :: r := by
  fun_induction closingBracket? depth opened t generalizing k with
  | case1 => simp at h
  | case2 depth opened c r ih =>
    obtain ⟨j, hj, rfl⟩ := Option.map_eq_some_iff.1 h
    exact ih hj
  | case3 depth opened r ih =>
    obtain ⟨j, hj, rfl⟩ := Option.map_eq_some_iff.1 h
    exact ih hj
  | case4 opened c r _ _ depth ih =>
    obtain ⟨j, hj, rfl⟩ := Option.map_eq_some_iff.1 h
    exact ih hj
  | case5 opened c r _ _ hc =>
    obtain rfl : 0 = k := Option.some.inj h
    exact ⟨r, by rw [hc.1, List.drop_zero]⟩
  | case6 opened c r _ _ _ ih =>
    obtain ⟨j, hj, rfl⟩ := Option.map_eq_some_iff.1 h
    exact ih hj

theorem eq_append_of_beforeChoiceBracket? {code b : Text} (h : beforeChoiceBracket? code = some b) :
    ∃ r, code = b ++ ']' :: r := by
  unfold beforeChoiceBracket? at h
  split at h
  · simp at h
  · obtain ⟨k, hk, rfl⟩ := Option.map_eq_some_iff.1 h
    obtain ⟨r, hr⟩ := drop_of_closingBracket? hk
    refine ⟨r, ?_⟩
    rw [← hr, List.drop_drop, List.take_append_drop]

/-- The cut of a code at the place of its tag. -/
theorem exists_cut (code : Text) :
    ∃ before behind, code = before ++ behind ∧ before.length = tagColumn code ∧ EndsDark before ∧
      StartsIn FollowsTag behind := by
  have hblanks : ∀ (t w : Text), (∀ c ∈ w, isBlank c) → StartsIn FollowsTag t → StartsIn FollowsTag (w ++ t) := by
    intro t w hw ht
    cases w with
    | nil => exact ht
    | cons c w => exact startsIn_cons.2 (Or.inl (hw c List.mem_cons_self))
  cases hb : beforeChoiceBracket? code with
  | none =>
    obtain ⟨w, hw, hcode⟩ := exists_blanks_stripEnd code
    refine ⟨stripEnd code, w, hcode, ?_, stripEnd_endsDark code, ?_⟩
    · rw [tagColumn, hb, Option.getD_none]
    · simpa using hblanks [] w hw startsIn_nil
  | some b =>
    obtain ⟨r, hr⟩ := eq_append_of_beforeChoiceBracket? hb
    obtain ⟨w, hw, hbw⟩ := exists_blanks_stripEnd b
    refine ⟨stripEnd b, w ++ ']' :: r, ?_, ?_, stripEnd_endsDark b, ?_⟩
    · rw [← List.append_assoc, ← hbw, hr]
    · rw [tagColumn, hb, Option.getD_some]
    · exact hblanks _ w hw (startsIn_cons.2 (Or.inr rfl))

/-- The line with a tag, by the cut of its code. -/
theorem exists_insertTag_eq {line : Text} (hcode : hasNoCode line = false) (identifier : Text) :
    ∃ before behind, codeOf line = before ++ behind ∧ EndsDark before ∧ StartsIn FollowsTag behind ∧
      before.length = tagColumn (codeOf line) ∧
      insertTag line identifier = before ++ (' ' :: formatTag identifier ++ behind ++ commentOf line) := by
  obtain ⟨before, behind, hcut, hlength, hdark, hbehind⟩ := exists_cut (codeOf line)
  refine ⟨before, behind, hcut, hdark, hbehind, hlength, ?_⟩
  have hline : line = before ++ (behind ++ commentOf line) := by
    rw [← List.append_assoc, ← hcut, codeOf_append_commentOf]
  have htake : line.take (tagColumn (codeOf line)) = before := by
    have := congrArg (List.take before.length) hline
    rwa [List.take_left, hlength] at this
  have hdrop : line.drop (tagColumn (codeOf line)) = behind ++ commentOf line := by
    have := congrArg (List.drop before.length) hline
    rwa [List.drop_left, hlength] at this
  unfold insertTag
  dsimp only
  rw [if_neg, htake, hdrop]
  · simp
  · rw [hasNoCode] at hcode
    simp [hcode]

/-! ### What the line with the tag is made of -/

variable {line identifier : Text}

/-- A tag at a cut of the code becomes part of the code. -/
theorem ofLine_of_cut {before behind : Text} (hcut : codeOf line = before ++ behind) (hbehind : StartsIn FollowsTag behind)
    (hword : IsWord identifier) :
    ofLine (before ++ (' ' :: formatTag identifier ++ behind ++ commentOf line)) =
      ⟨before ++ (' ' :: formatTag identifier ++ behind), commentOf line⟩ := by
  have hold : ofLine (before ++ (behind ++ commentOf line)) = ⟨before ++ behind, commentOf line⟩ := by
    rw [← List.append_assoc, ← hcut, codeOf_append_commentOf]
    rfl
  exact ofLine_insert (isPlain_of_mem_spacedTag hword) (hbehind.mono fun _ hc => hc.isPlain) hold

theorem codeOf_insertTag (hcode : hasNoCode line = false) (hword : IsWord identifier) :
    ∃ before behind, codeOf line = before ++ behind ∧ EndsDark before ∧ StartsIn FollowsTag behind ∧
      codeOf (insertTag line identifier) = before ++ (' ' :: formatTag identifier ++ behind) ∧
      commentOf (insertTag line identifier) = commentOf line := by
  obtain ⟨before, behind, hcut, hdark, hbehind, -, hinsert⟩ := exists_insertTag_eq hcode identifier
  have hnew := ofLine_of_cut hcut hbehind hword
  refine ⟨before, behind, hcut, hdark, hbehind, ?_, ?_⟩
  · rw [codeOf, hinsert, hnew]
  · rw [commentOf, hinsert, hnew]

theorem findTags_codeOf_eq_nil_iff : findTags (codeOf line) = [] ↔ codeTag? line = none := by
  rw [codeTag?, firstTag?, List.head?_eq_none_iff]

/-- A word that was put into a line without a tag is its only tag, or no tag if it is no identifier, and erasing it gives the line back. -/
theorem findTags_codeOf_insertTag_of_isWord (hcode : hasNoCode line = false) (htag : codeTag? line = none)
    (hword : IsWord identifier) :
    ∃ m, findTags (codeOf (insertTag line identifier)) = (if isIdentifier identifier then [m] else []) ∧
      m.identifier = identifier ∧ m.eraseFrom (insertTag line identifier) = line := by
  obtain ⟨before, behind, hcut, -, hbehind, hnew, hcomment⟩ := codeOf_insertTag hcode hword
  have hends : StartsIn EndsTag behind := hbehind.mono fun _ hc => hc.endsTag
  have hnone : findTags (before ++ behind) = [] := hcut ▸ findTags_codeOf_eq_nil_iff.2 htag
  rw [findTags, tagsFrom_append 0 before (hends.mono fun _ hc => hc.endsRun), List.append_eq_nil_iff, Nat.zero_add] at hnone
  let stop := before.length + 1 + tagMark.length + identifier.length
  have hbehindNone : tagsFrom stop behind = [] := (tagsFrom_eq_nil_iff _ _ behind).1 hnone.2
  refine ⟨⟨identifier, before.length + 1, stop⟩, ?_, rfl, ?_⟩
  · rw [hnew, ← List.append_assoc, findTags_insert_of_isWord before hword hends, hbehindNone, findTags, hnone.1,
      List.nil_append, List.append_nil]
  · have hline : insertTag line identifier = before ++ [' '] ++ formatTag identifier ++ (behind ++ commentOf line) := by
      rw [← codeOf_append_commentOf (insertTag line identifier), hnew, hcomment]
      simp
    have htake : (insertTag line identifier).take (before.length + 1) = before ++ [' '] := by
      rw [hline, List.append_assoc]
      exact List.take_left' (by simp)
    have hdrop : (insertTag line identifier).drop stop = behind ++ commentOf line := by
      rw [hline]
      exact List.drop_left' (by simp [stop, formatTag]; omega)
    rw [TagMatch.eraseFrom]
    dsimp only
    rw [htake, hdrop, List.getLast?_concat, if_pos rfl, List.dropLast_concat, ← List.append_assoc, ← hcut,
      codeOf_append_commentOf]

theorem findTags_codeOf_insertTag (hcode : hasNoCode line = false) (htag : codeTag? line = none)
    (hid : isIdentifier identifier) :
    ∃ m, findTags (codeOf (insertTag line identifier)) = [m] ∧ m.identifier = identifier ∧
      m.eraseFrom (insertTag line identifier) = line := by
  obtain ⟨m, hm, hsame, herase⟩ := findTags_codeOf_insertTag_of_isWord hcode htag (isWord_of_isIdentifier hid)
  rw [if_pos hid] at hm
  exact ⟨m, hm, hsame, herase⟩

theorem identifier_of_codeTag?_insertTag (hcode : hasNoCode line = false) (htag : codeTag? line = none)
    (hword : IsWord identifier) {m : TagMatch} (hm : codeTag? (insertTag line identifier) = some m) :
    m.identifier = identifier := by
  obtain ⟨n, hn, hsame, -⟩ := findTags_codeOf_insertTag_of_isWord hcode htag hword
  rw [codeTag?, firstTag?, hn] at hm
  by_cases hid : isIdentifier identifier
  · rw [if_pos hid, List.head?_cons] at hm
    rw [← Option.some.inj hm, hsame]
  · rw [if_neg hid] at hm
    cases hm

/-- A tag put into a line of code without a tag is the one tag of the new code. It is found there, hiding it gives the line back, and the comment is the old one. -/
theorem hideTag_insertTag (hcode : hasNoCode line = false) (htag : codeTag? line = none) (hid : isIdentifier identifier) :
    ∃ m, findTags (codeOf (insertTag line identifier)) = [m] ∧ m.identifier = identifier ∧
      codeTag? (insertTag line identifier) = some m ∧ hideTag (insertTag line identifier) = line ∧
      commentOf (insertTag line identifier) = commentOf line := by
  obtain ⟨m, hm, hsame, herase⟩ := findTags_codeOf_insertTag hcode htag hid
  obtain ⟨_, _, -, -, -, -, hcomment⟩ := codeOf_insertTag hcode (isWord_of_isIdentifier hid)
  have hfound : codeTag? (insertTag line identifier) = some m := by
    rw [codeTag?, firstTag?, hm, List.head?_cons]
  refine ⟨m, hm, hsame, hfound, ?_, hcomment⟩
  rw [hideTag, eraseTag, hfound]
  exact herase

/-- The bracket is the one behind the interpolation. Half a tag stands before it, and a quote that is left open before the comment. -/
theorem hideTag_insertTag_bracket :
    ∃ m, findTags (codeOf (insertTag "* \x7ba|[b]\x7d \\[c #id: [d] \"e // f".toList "AAAA".toList)) = [m] ∧
      m.identifier = "AAAA".toList ∧
      codeTag? (insertTag "* \x7ba|[b]\x7d \\[c #id: [d] \"e // f".toList "AAAA".toList) = some m ∧
      hideTag (insertTag "* \x7ba|[b]\x7d \\[c #id: [d] \"e // f".toList "AAAA".toList) =
        "* \x7ba|[b]\x7d \\[c #id: [d] \"e // f".toList ∧
      commentOf (insertTag "* \x7ba|[b]\x7d \\[c #id: [d] \"e // f".toList "AAAA".toList) =
        commentOf "* \x7ba|[b]\x7d \\[c #id: [d] \"e // f".toList :=
  hideTag_insertTag (by decide) (by decide) (by decide)

end LineTags
