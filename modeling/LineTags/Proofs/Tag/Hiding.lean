import LineTags.Proofs.Script.Survival
import LineTags.Proofs.Tag.CommentColumns
import LineTags.Proofs.Tag.Pattern

/-!
# Hidden tags and the comment

A tag that is hidden leaves the characters on its two sides next to each other. Two slashes that come together in this way open a comment in what was code. A backslash that escaped the first character of the hidden piece, which changed nothing, escapes the character behind it instead, and if this is a slash of the comment's mark or a quote, the comment can start elsewhere or be gone. Hiding changes the comment in these two ways only.
-/

namespace LineTags

open Text CommentedLine

variable {line : Text} {m : TagMatch}

/-! ## The hidden piece -/

/-- What stands before a tag and the space that is hidden with it. -/
def TagMatch.keptBefore (m : TagMatch) (line : Text) : Text :=
  let before := line.take m.start
  if before.getLast? = some ' ' then before.dropLast else before

theorem hideTag_eq (hm : codeTag? line = some m) : hideTag line = m.keptBefore line ++ line.drop m.stop := by
  rw [hideTag, eraseTag, hm]
  rfl

theorem exists_codeOf_eq (hm : codeTag? line = some m) :
    ∃ hidden behind, IsSpacedTag hidden ∧ codeOf line = m.keptBefore line ++ hidden ++ behind ∧
      m.stop = (m.keptBefore line ++ hidden).length := by
  have hmem : m ∈ tagsFrom 0 (codeOf line) := List.mem_of_mem_head? hm
  obtain ⟨i, htag, hstart, hstop⟩ := mem_tagsFrom_iff.1 hmem
  rw [Nat.zero_add] at hstart
  subst hstart
  obtain ⟨behind, hdrop, hid, -⟩ := tagAtStart?_eq_some_iff.1 htag
  have hle : m.start ≤ (codeOf line).length := by
    by_contra hgt
    rw [List.drop_eq_nil_of_le (by omega)] at hdrop
    exact List.cons_ne_nil _ _ hdrop.symm
  have htake : (codeOf line).take m.start = line.take m.start := by
    conv => rhs; rw [← codeOf_append_commentOf line]
    exact (List.take_append_of_le_length hle).symm
  have hcode : codeOf line = line.take m.start ++ (formatTag m.identifier ++ behind) := by
    rw [← hdrop, ← htake, List.take_append_drop]
  have hlength : (line.take m.start).length = m.start := by
    rw [← htake, List.length_take_of_le hle]
  have hformat : (formatTag m.identifier).length = tagMark.length + m.identifier.length := List.length_append
  rw [TagMatch.keptBefore]
  split
  · next hspace =>
    obtain ⟨kept, hkept⟩ := List.getLast?_eq_some_iff.1 hspace
    rw [hkept] at hcode hlength ⊢
    rw [List.dropLast_concat]
    refine ⟨' ' :: formatTag m.identifier, behind, ⟨_, hid, .inr rfl⟩, ?_, ?_⟩
    · rw [hcode, List.append_assoc, List.append_assoc]
      rfl
    · rw [List.length_append, List.length_singleton] at hlength
      rw [List.length_append, List.length_cons, hformat]
      omega
  · refine ⟨formatTag m.identifier, behind, ⟨_, hid, .inl rfl⟩, ?_, ?_⟩
    · rw [hcode, List.append_assoc]
    · rw [List.length_append, hlength, hformat]
      omega

/-- A line is what stands before the hidden piece, this piece, and what stands behind the tag; the comment is in this last part. -/
theorem exists_hidden (hm : codeTag? line = some m) :
    ∃ hidden, IsSpacedTag hidden ∧ line = m.keptBefore line ++ hidden ++ line.drop m.stop ∧
      m.stop = (m.keptBefore line ++ hidden).length ∧ (commentOf line).length ≤ (line.drop m.stop).length := by
  obtain ⟨hidden, behind, hspaced, hcode, hstop⟩ := exists_codeOf_eq hm
  have hline : line = m.keptBefore line ++ hidden ++ (behind ++ commentOf line) := by
    rw [← List.append_assoc, ← hcode, codeOf_append_commentOf]
  have hdrop : line.drop m.stop = behind ++ commentOf line := by
    have := congrArg (List.drop m.stop) hline
    rwa [hstop, List.drop_left, ← hstop] at this
  refine ⟨hidden, hspaced, hdrop ▸ hline, hstop, ?_⟩
  rw [hdrop, List.length_append]
  exact Nat.le_add_left _ _

/-! ## The two ways in which the comment can change -/

/-- The tag has an unescaped slash in front that lies between no two paired quotes, and a slash behind. -/
def JoinsSlashes (t : Text) (m : TagMatch) : Prop :=
  ∃ i, i + 1 = (m.keptBefore t).length ∧ (i, '/') ∈ unescapedFrom 0 t ∧ ¬IsQuoted (quotesFrom 0 t) i ∧ t[m.stop]? = some '/'

section

variable {u hidden rest : Text}

/-- A stretch without marks goes in behind a text that escapes nothing. -/
theorem exchanges_of_not_pending (hplain : ∀ c ∈ hidden, IsPlain c) (hne : hidden ≠ []) (hu : endsPending false u = false) :
    Exchanges u (u ++ hidden) rest where
  length := by
    rw [List.length_append]
    exact Nat.le_add_right _ _
  marks := by
    rw [marksOf_append fun h => Bool.noConfusion (hu.symm.trans h), marksOf_of_isPlain hplain]
    exact List.append_nil _
  first := fun h => Bool.noConfusion (hu.symm.trans h)
  second := fun h => Bool.noConfusion
    ((endsPending_append_of_ne false u hne fun hmem => (hplain _ hmem).1 rfl).symm.trans h)

/-- The last mark stands before the backslash that is pending, as it escapes the character behind it. -/
theorem exists_marksOf_of_pending (hu : endsPending false u = true) :
    ∃ marks, (∀ x : Text, (∀ c ∈ x.tail, IsPlain c) → marksOf (u ++ x) = marks) ∧ ∀ y ∈ marks, y.1 + 1 < u.length := by
  obtain ⟨s, rfl, hs⟩ := exists_backslash_of_endsPending hu
  refine ⟨marksOf s, fun x hx => ?_, fun y hy => ?_⟩
  · have hbackslash : marksOf ('\\' :: x) = [] := marksOf_backslash hx
    rw [List.append_assoc, List.singleton_append, marksOf_append fun h => Bool.noConfusion (hs.symm.trans h), hbackslash]
    exact List.append_nil _
  · rw [List.length_append, List.length_singleton]
    exact Nat.succ_lt_succ (lt_of_mem_marksOf hy)

theorem isPlain_of_mem_tail_take_one : ∀ c ∈ (rest.take 1).tail, IsPlain c := by
  cases rest <;> exact fun c hc => absurd hc List.not_mem_nil

/-- Behind a backslash that escapes one character, it makes no difference to the marks which one that is. -/
theorem exchanges_of_pending (hplain : ∀ c ∈ hidden, IsPlain c) (hne : hidden ≠ []) (hu : endsPending false u = true) :
    Exchanges (u ++ rest.take 1) (u ++ hidden) rest.tail where
  length := by
    have hlength : (rest.take 1).length ≤ hidden.length := (List.length_take_le 1 rest).trans (List.length_pos_iff.2 hne)
    rw [List.length_append, List.length_append]
    exact Nat.add_le_add_left hlength _
  marks := by
    obtain ⟨marks, hmarks, -⟩ := exists_marksOf_of_pending hu
    rw [hmarks _ isPlain_of_mem_tail_take_one, hmarks _ fun c hc => hplain c (List.mem_of_mem_tail hc)]
  first := fun h => by
    cases rest with
    | nil => rfl
    | cons c rest =>
      rw [endsPending_append, hu] at h
      exact Bool.noConfusion ((Bool.and_false _).symm.trans h)
  second := fun h => Bool.noConfusion
    ((endsPending_append_of_ne false u hne fun hmem => (hplain _ hmem).1 rfl).symm.trans h)

/-- Behind a text that escapes nothing, hiding changes the comment exactly if one starts at the last character before the seam. -/
theorem commentOf_append_eq_iff (hplain : ∀ c ∈ hidden, IsPlain c) (hne : hidden ≠ []) (hu : endsPending false u = false)
    (hcomment : (commentOf (u ++ hidden ++ rest)).length ≤ rest.length) :
    commentOf (u ++ rest) = commentOf (u ++ hidden ++ rest) ↔ ∀ i, i + 1 = u.length → ¬MayStart (u ++ rest) i := by
  constructor
  · intro heq i hi hstart
    have hlength := length_le_of_mayStart hstart
    rw [heq, List.length_append] at hlength
    omega
  · intro hseam
    obtain heq | ⟨i, hi, -, hdrop⟩ := (exchanges_of_not_pending hplain hne hu).commentOf_eq_or hseam
    · exact heq.symm
    · rw [hdrop, List.length_drop, List.length_append, List.length_append] at hcomment
      omega

/-- What there is at the seam can be read off the line before the piece was hidden. -/
theorem mayStart_seam_iff (hplain : ∀ c ∈ hidden, IsPlain c) (hne : hidden ≠ []) (hu : endsPending false u = false) {i : Nat}
    (hi : i + 1 = u.length) :
    MayStart (u ++ rest) i ↔ (i, '/') ∈ unescapedFrom 0 (u ++ hidden ++ rest) ∧
      ¬IsQuoted (quotesFrom 0 (u ++ hidden ++ rest)) i ∧ rest.head? = some '/' := by
  have hexchanges : Exchanges u (u ++ hidden) rest := exchanges_of_not_pending hplain hne hu
  have hmoved := hexchanges.moved
  have hcolumn : moveColumn u.length (u ++ hidden).length i = i := if_pos (by omega)
  have hmem : (i, '/') ∈ marksOf (u ++ hidden ++ rest) ↔ (i, '/') ∈ marksOf (u ++ rest) := by
    conv => lhs; rw [← hcolumn]
    exact hmoved.mem
  have hquoted : IsQuoted (quotesFrom 0 (u ++ hidden ++ rest)) i ↔ IsQuoted (quotesFrom 0 (u ++ rest)) i := by
    conv => lhs; rw [← hcolumn]
    exact hmoved.isQuoted i
  have hnext : (u ++ rest)[i + 1 - 0]? = rest.head? := by
    rw [Nat.sub_zero, hi, List.getElem?_append_right (Nat.le_refl _), Nat.sub_self, List.head?_eq_getElem?]
  rw [MayStart, IsSlashPair, hnext, ← hquoted, ← mem_marksOf (by rfl), ← hmem, mem_marksOf (by rfl), and_assoc]
  exact and_congr_right fun _ => and_comm

/-- Behind a pending backslash, the line reads as if the character behind the tag, which is escaped now, were not there. -/
theorem commentOf_append_eq_iff_of_pending (hplain : ∀ c ∈ hidden, IsPlain c) (hne : hidden ≠ [])
    (hu : endsPending false u = true) (hcomment : (commentOf (u ++ hidden ++ rest)).length ≤ rest.length) :
    commentOf (u ++ rest) = commentOf (u ++ hidden ++ rest) ↔
      commentOf (u ++ hidden ++ rest.tail) = commentOf (u ++ hidden ++ rest) := by
  have hexchanges : Exchanges (u ++ rest.take 1) (u ++ hidden) rest.tail := exchanges_of_pending hplain hne hu
  have hseam : ∀ i, i + 1 = (u ++ rest.take 1).length → ¬MayStart (u ++ rest.take 1 ++ rest.tail) i := by
    intro i hi hstart
    obtain ⟨marks, hmarks, hlt⟩ := exists_marksOf_of_pending hu
    have hmem := mem_marksOf_of_append hexchanges.first (CommentedLine.mayStart_iff.1 hstart).1 (by dsimp only; omega)
    rw [hmarks _ isPlain_of_mem_tail_take_one] at hmem
    have := hlt _ hmem
    rw [List.length_append] at hi
    dsimp only at this
    omega
  have hsplit : u ++ rest.take 1 ++ rest.tail = u ++ rest := by
    rw [List.append_assoc, ← List.drop_one, List.take_append_drop]
  have hlength : (rest.take 1).length + rest.tail.length = rest.length := by
    rw [← List.length_append, ← List.drop_one, List.take_append_drop]
  have htake : (rest.take 1).length ≤ 1 := List.length_take_le 1 rest
  obtain heq | ⟨i, hi, hfirst, hsecond⟩ := hexchanges.commentOf_eq_or hseam
  · rw [heq, hsplit]
  · rw [hsplit] at hfirst
    rw [List.length_append] at hi
    -- both comments start before the seam, and are longer than that of the line
    refine iff_of_false (fun heq => ?_) fun heq => ?_
    · rw [← heq, hfirst, List.length_drop, List.length_append] at hcomment
      omega
    · rw [← heq, hsecond, List.length_drop, List.length_append, List.length_append] at hcomment
      have := hexchanges.length
      rw [List.length_append, List.length_append] at this
      omega

end

/-! ## Hiding a tag -/

theorem getLast?_of_mem_unescapedFrom {u t : Text} {i : Nat} {c : Char} (hi : i + 1 = u.length)
    (h : (i, c) ∈ unescapedFrom 0 (u ++ t)) : u.getLast? = some c := by
  have hcolumn : (u ++ t)[i]? = some c := getElem?_of_mem_unescapedFrom h
  rw [List.getElem?_append_left (by omega)] at hcolumn
  rw [List.getLast?_eq_getElem?, ← hi, Nat.add_sub_cancel]
  exact hcolumn

theorem JoinsSlashes.getLast? (hm : codeTag? line = some m) (h : JoinsSlashes line m) :
    (m.keptBefore line).getLast? = some '/' := by
  obtain ⟨hidden, -, hline, -⟩ := exists_hidden hm
  obtain ⟨i, hi, hmem, -⟩ := h
  rw [hline, List.append_assoc] at hmem
  exact getLast?_of_mem_unescapedFrom hi hmem

theorem getLast?_of_endsPending {t : Text} (h : endsPending false t = true) : t.getLast? = some '\\' := by
  obtain ⟨s, rfl, -⟩ := exists_backslash_of_endsPending h
  exact List.getLast?_concat

/-- Two slashes come together exactly where a comment may start at the seam. -/
theorem joinsSlashes_iff (hm : codeTag? line = some m) (hu : endsPending false (m.keptBefore line) = false) :
    JoinsSlashes line m ↔ ∃ i, i + 1 = (m.keptBefore line).length ∧ MayStart (m.keptBefore line ++ line.drop m.stop) i := by
  obtain ⟨hidden, hspaced, hline, -⟩ := exists_hidden hm
  have hne : hidden ≠ [] := (hspaced.startsIn []).1
  refine exists_congr fun i => and_congr_right fun hi => ?_
  rw [mayStart_seam_iff hspaced.isPlain hne hu hi, ← hline, List.head?_drop]

theorem hideTag_keeps_comment_iff (hm : codeTag? line = some m) :
    commentOf (hideTag line) = commentOf line ↔
      ¬JoinsSlashes line m ∧
        (endsPending false (m.keptBefore line) = true → commentOf (line.eraseIdx m.stop) = commentOf line) := by
  obtain ⟨hidden, hspaced, hline, hstop, hcomment⟩ := exists_hidden hm
  have hne : hidden ≠ [] := (hspaced.startsIn []).1
  rw [hideTag_eq hm]
  cases hu : endsPending false (m.keptBefore line) with
  | false =>
    have hseam := commentOf_append_eq_iff hspaced.isPlain hne hu (by rwa [← hline])
    rw [← hline] at hseam
    rw [hseam, joinsSlashes_iff hm hu, and_iff_left (fun h => Bool.noConfusion h), not_exists]
    exact forall_congr' fun i => not_and.symm
  | true =>
    have hjoins : ¬JoinsSlashes line m := fun h => by
      have hlast := h.getLast? hm
      rw [getLast?_of_endsPending hu] at hlast
      exact absurd hlast (by decide)
    have herase : line.eraseIdx m.stop = m.keptBefore line ++ hidden ++ (line.drop m.stop).tail := by
      have htake : line.take m.stop = m.keptBefore line ++ hidden := by
        have := congrArg (List.take m.stop) hline
        rwa [hstop, List.take_left, ← hstop] at this
      rw [List.eraseIdx_eq_take_drop_succ, htake, List.tail_drop]
    have hpending := commentOf_append_eq_iff_of_pending hspaced.isPlain hne hu (by rwa [← hline])
    rw [← hline, ← herase] at hpending
    rw [hpending, and_iff_right hjoins]
    exact ⟨fun h _ => h, fun h => h rfl⟩

/-- Hiding the tag of a line keeps its comment exactly if no two slashes of the code come together and, where a backslash escaped the start of the hidden piece, the comment does not depend on the character behind it, which is escaped then. In particular, it does so behind any other character than a backslash or a slash. In a script that is taken apart every tagged line is hidden in this way. -/
theorem commentOf_hideTag (hm : codeTag? line = some m) :
    (commentOf (hideTag line) = commentOf line ↔
      ¬JoinsSlashes line m ∧
        (endsPending false (m.keptBefore line) = true → commentOf (line.eraseIdx m.stop) = commentOf line)) ∧
    ((m.keptBefore line).getLast? ≠ some '\\' → (m.keptBefore line).getLast? ≠ some '/' →
      commentOf (hideTag line) = commentOf line) ∧
    ∀ (script : Text) (i : Nat), (lines script)[i]? = some line → (lines (extract script).clean)[i]? = some (hideTag line) := by
  refine ⟨hideTag_keeps_comment_iff hm, fun hbackslash hslash => ?_, fun script i hline => ?_⟩
  · refine (hideTag_keeps_comment_iff hm).2 ⟨fun h => hslash (h.getLast? hm), fun h => ?_⟩
    exact absurd (getLast?_of_endsPending h) hbackslash
  · have hparts : (partsOf line).1 = hideTag line := by
      rw [partsOf, hideTag, eraseTag, hm]
      rfl
    rw [lines_clean_extract, List.getElem?_map, hline, Option.map_some, hparts]

/-- The slashes before and behind the tag are not next to it, and the backslash escapes another one. -/
theorem commentOf_hideTag_slashes :
    let line := "/\\\\ #id:AAAA /b // #id:BBBB".toList
    let m : TagMatch := ⟨"AAAA".toList, 4, 12⟩
    codeTag? line = some m ∧ commentOf (hideTag line) = commentOf line := by
  intro line m
  have hm : codeTag? line = some m := by decide
  refine ⟨hm, (commentOf_hideTag hm).1.2 ⟨?_, fun h => absurd h (by decide)⟩⟩
  rintro ⟨i, -, -, -, hnext⟩
  exact absurd hnext (by decide)

/-- In the first line the slash of the code and the one behind the tag open a comment. In the second the backslash comes to escape the first slash of the comment, which becomes code together with its tag. -/
theorem not_commentOf_hideTag :
    (codeTag? "a/ #id:AAAA/b".toList ≠ none ∧ commentOf "a/ #id:AAAA/b".toList = [] ∧
      commentOf (hideTag "a/ #id:AAAA/b".toList) = "//b".toList) ∧
    (codeTag? "\\ #id:AAAA//#id:BBBB".toList ≠ none ∧ commentOf "\\ #id:AAAA//#id:BBBB".toList = "//#id:BBBB".toList ∧
      commentOf (hideTag "\\ #id:AAAA//#id:BBBB".toList) = [] ∧
      (codeTag? (hideTag "\\ #id:AAAA//#id:BBBB".toList)).map TagMatch.identifier = some "BBBB".toList) := by
  decide

end LineTags
