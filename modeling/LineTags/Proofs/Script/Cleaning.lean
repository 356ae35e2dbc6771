import LineTags.Proofs.Story.Reading
import LineTags.Proofs.Tag.Gaps
import Mathlib.Data.List.Forall2

/-!
# Pasted texts

A pasted text is cleaned line by line: the tags of the code are taken out, and the comment stays. Two things can leave a tag in the code all the same. What stood on the two sides of a tag can be a tag together. And if a tag that stood behind a backslash is taken out, the backslash escapes what comes next, a quote or the first slash of the comment, so that the comment starts later or not at all, and a tag in it is one of the code.

Nothing else can: a line is clean exactly when neither has happened, and without a tag behind a backslash the new comment starts no later than the old one.
-/

namespace LineTags

open Text CommentedLine

variable {line t code kept comment : Text}

/-! ## Lines without a tag -/

theorem startsIn_comment_of_ofUnquoted (t : Text) : StartsIn (· = '/') (ofUnquoted t).comment := by
  fun_induction ofUnquoted t with
  | case1 => exact startsIn_nil
  | case2 c r ih => exact ih
  | case3 r => exact startsIn_cons.2 rfl
  | case4 c r _ _ ih => exact ih

theorem startsIn_comment_of_scan {inside : Bool} {l : CommentedLine} (h : scan inside t = some l) : StartsIn (· = '/') l.comment := by
  fun_induction scan inside t generalizing l with
  | case1 => cases h
  | case2 =>
    cases h
    exact startsIn_nil
  | case3 inside c r ih =>
    obtain ⟨m, hm, rfl⟩ := Option.map_eq_some_iff.1 h
    exact ih (l := m) hm
  | case4 r ih =>
    obtain ⟨m, hm, rfl⟩ := Option.map_eq_some_iff.1 h
    exact ih (l := m) hm
  | case5 r ih =>
    cases hs : scan true r with
    | none =>
      rw [hs] at h
      cases h
      exact startsIn_comment_of_ofUnquoted r
    | some m =>
      rw [hs] at h
      cases h
      exact ih (l := m) hs
  | case6 r =>
    cases h
    exact startsIn_cons.2 rfl
  | case7 inside c r _ _ _ _ ih =>
    obtain ⟨m, hm, rfl⟩ := Option.map_eq_some_iff.1 h
    exact ih (l := m) hm

theorem startsIn_commentOf (line : Text) : StartsIn EndsRun (commentOf line) := by
  refine (startsIn_comment_of_scan (ofLine_eq_iff.1 rfl)).mono ?_
  rintro c rfl
  exact ⟨by decide, by decide⟩

/-- A tag of the code can be looked for in the whole line. -/
theorem tagAtStart?_drop_codeOf {i : Nat} (hi : i < (codeOf line).length) :
    tagAtStart? ((codeOf line).drop i) = tagAtStart? (line.drop i) := by
  conv => rhs; rw [← codeOf_append_commentOf line]
  exact (tagAtStart?_drop_append hi (startsIn_commentOf line)).symm

theorem tagsFrom_eq_nil_iff_forall {column : Nat} : tagsFrom column t = [] ↔ ∀ i, tagAtStart? (t.drop i) = none := by
  induction t generalizing column with
  | nil => exact ⟨fun _ i => by rw [List.drop_nil]; rfl, fun _ => rfl⟩
  | cons c r ih =>
    rw [tagsFrom]
    constructor
    · intro h i
      split at h
      · cases h
      · next hnone =>
        cases i with
        | zero => exact hnone
        | succ i => exact ih.1 h i
    · intro h
      have hnone : tagAtStart? (c :: r) = none := h 0
      rw [hnone]
      exact ih.2 fun i => h (i + 1)

theorem codeTag?_eq_none_iff : codeTag? line = none ↔ ∀ i < (codeOf line).length, tagAtStart? (line.drop i) = none := by
  rw [← findTags_codeOf_eq_nil_iff, findTags, tagsFrom_eq_nil_iff_forall]
  constructor
  · intro h i hi
    rw [← tagAtStart?_drop_codeOf hi]
    exact h i
  · intro h i
    by_cases hi : i < (codeOf line).length
    · rw [tagAtStart?_drop_codeOf hi]
      exact h i hi
    · rw [List.drop_eq_nil_of_le (Nat.le_of_not_lt hi)]
      rfl

/-- A gap is left by a tag. -/
theorem Gap.exists_tag {before after : Text} (h : Gap t before after) : ∃ i, tagAtStart? (t.drop i) ≠ none := by
  obtain ⟨s, ⟨identifier, hid, hs⟩, rfl, hafter, -⟩ := h
  have htag : tagAtStart? (formatTag identifier ++ after) ≠ none := by
    rw [tagAtStart?_eq_some_iff.2 ⟨after, rfl, hid, hafter⟩]
    exact Option.some_ne_none _
  rcases hs with rfl | rfl
  · refine ⟨before.length, ?_⟩
    rwa [List.drop_left]
  · refine ⟨before.length + 1, ?_⟩
    rwa [← List.drop_drop, List.drop_left]

theorem withoutTags_eq_self_iff : withoutTags t = t ↔ ∀ i, tagAtStart? (t.drop i) = none := by
  constructor
  · intro h i
    by_contra hsome
    obtain ⟨identifier, htag⟩ := Option.ne_none_iff_exists'.1 hsome
    rw [← h] at htag
    obtain ⟨before, after, hgap, -⟩ := exists_joins htag
    exact absurd hgap.length_lt (by rw [h]; exact Nat.lt_irrefl _)
  · intro h
    rcases withoutTags_eq_self_or_gap t with hsame | ⟨before, after, hgap, -⟩
    · exact hsame
    · obtain ⟨i, hi⟩ := hgap.exists_tag
      exact absurd (h i) hi

theorem eraseCodeTags_eq (line : Text) : eraseCodeTags line = withoutTags (codeOf line) ++ commentOf line := rfl

/-- Lines without a tag in their code, and no others, are left as they are. -/
theorem eraseCodeTags_eq_self_iff : eraseCodeTags line = line ↔ codeTag? line = none := by
  rw [← findTags_codeOf_eq_nil_iff, findTags, tagsFrom_eq_nil_iff_forall, ← withoutTags_eq_self_iff, eraseCodeTags_eq]
  conv => lhs; rhs; rw [← codeOf_append_commentOf line]
  exact ⟨List.append_cancel_right, congrArg (· ++ commentOf line)⟩

/-! ## Tags left in a cleaned line -/

/-- What stood on the two sides of a tag is a tag of the cleaned line. -/
def JoinsTag (line : Text) : Prop :=
  ∃ before after i, Gap (codeOf line) before after ∧ Joins (withoutTags before) (withoutTags after) i ∧
    i < (codeOf (eraseCodeTags line)).length

/-- A tag of the comment stands in the code of the cleaned line. -/
def UncoversTag (line : Text) : Prop :=
  ∃ i identifier, tagAtStart? ((commentOf line).drop i) = some identifier ∧
    (withoutTags (codeOf line)).length + i < (codeOf (eraseCodeTags line)).length

/-- A tag stands behind a backslash that escapes its first character. -/
def EscapesTag (line : Text) : Prop := ∃ before after, Gap (codeOf line) before after ∧ endsPending false before = true

theorem codeTag?_eraseCodeTags_eq_none_iff : codeTag? (eraseCodeTags line) = none ↔ ¬JoinsTag line ∧ ¬UncoversTag line := by
  rw [codeTag?_eq_none_iff]
  constructor
  · refine fun h => ⟨?_, ?_⟩
    · rintro ⟨before, after, i, hgap, hjoins, hi⟩
      obtain ⟨hlt, identifier, htag⟩ := tagAtStart?_of_joins hgap hjoins
      have hnone := h i hi
      rw [eraseCodeTags_eq, tagAtStart?_drop_append hlt (startsIn_commentOf line), htag] at hnone
      cases hnone
    · rintro ⟨i, identifier, htag, hi⟩
      have hnone := h _ hi
      rw [eraseCodeTags_eq, ← List.drop_drop, List.drop_left, htag] at hnone
      cases hnone
  · rintro ⟨hjoins, huncovers⟩ i hi
    by_contra hsome
    obtain ⟨identifier, htag⟩ := Option.ne_none_iff_exists'.1 hsome
    rw [eraseCodeTags_eq] at htag
    by_cases hlt : i < (withoutTags (codeOf line)).length
    · rw [tagAtStart?_drop_append hlt (startsIn_commentOf line)] at htag
      obtain ⟨before, after, hgap, hjoin⟩ := exists_joins htag
      exact hjoins ⟨before, after, i, hgap, hjoin, hi⟩
    · refine huncovers ⟨i - (withoutTags (codeOf line)).length, identifier, ?_, by omega⟩
      rwa [List.drop_append, List.drop_eq_nil_of_le (Nat.le_of_not_lt hlt), List.nil_append] at htag

/-! ## Where the comment of a cleaned line starts -/

/-- The second text is the first without some characters that neither are escaped nor mean anything to the search for a comment. -/
inductive Sheds : Text → Text → Prop
  | nil : Sheds [] []
  | lone : Sheds ['\\'] ['\\']
  | escape (c : Char) {code kept : Text} (h : Sheds code kept) : Sheds ('\\' :: c :: code) ('\\' :: c :: kept)
  | keep {c : Char} {code kept : Text} (hc : c ≠ '\\') (h : Sheds code kept) : Sheds (c :: code) (c :: kept)
  | drop {c : Char} {code kept : Text} (hc : IsPlain c) (h : Sheds code kept) : Sheds (c :: code) kept

namespace Sheds

theorem append {s : Text} (hs : ∀ c ∈ s, IsPlain c) (h : Sheds code kept) : Sheds (s ++ code) kept := by
  induction s with
  | nil => exact h
  | cons c s ih => exact .drop (hs c List.mem_cons_self) (ih fun d hd => hs d (List.mem_cons_of_mem c hd))

theorem length_ofUnquoted_le (h : Sheds code kept) (hcut : ofUnquoted (code ++ comment) = ⟨code, comment⟩) :
    (ofUnquoted (kept ++ comment)).code.length ≤ kept.length := by
  induction h with
  | nil => rw [hcut]
  | lone => rw [hcut]
  | escape c h ih =>
    rw [List.cons_append, List.cons_append, ofUnquoted_escape] at hcut ⊢
    exact Nat.succ_le_succ (Nat.succ_le_succ (ih (prepend_eq_iff.1 (prepend_eq_iff.1 hcut))))
  | @keep c code kept hc h ih =>
    rw [List.cons_append] at hcut ⊢
    rw [ofUnquoted_skip (fun h => absurd h hc) (head?_ne_slash_of_ofUnquoted hcut)] at hcut
    by_cases hslash : c = '/' ∧ (kept ++ comment).head? = some '/'
    · -- the two slashes have come together, and the comment starts here
      obtain ⟨rfl, hhead⟩ := hslash
      obtain ⟨r, hr⟩ := List.head?_eq_some_iff.1 hhead
      rw [hr, ofUnquoted]
      exact Nat.zero_le _
    · rw [ofUnquoted_skip (fun h => absurd h hc) fun heq hhead => hslash ⟨heq, hhead⟩]
      exact Nat.succ_le_succ (ih (prepend_eq_iff.1 hcut))
  | drop hc h ih =>
    rw [List.cons_append, ofUnquoted_plain hc] at hcut
    exact ih (prepend_eq_iff.1 hcut)

/-- A quote that is never closed stays unclosed. -/
theorem scan_eq_none (h : Sheds code kept) (hcut : ofUnquoted (code ++ comment) = ⟨code, comment⟩)
    (hnone : scan true (code ++ comment) = none) : scan true (kept ++ comment) = none := by
  induction h with
  | nil => exact hnone
  | lone => exact hnone
  | escape c h ih =>
    rw [List.cons_append, List.cons_append] at hcut hnone ⊢
    rw [scan_escape, Option.map_eq_none_iff] at hnone
    rw [scan_escape, ih (prepend_eq_iff.1 (prepend_eq_iff.1 hcut)) hnone, Option.map_none]
  | @keep c code kept hc h ih =>
    rw [List.cons_append] at hcut hnone ⊢
    have hquote : c ≠ '"' := by
      rintro rfl
      have hsome := isSome_scan_false (code ++ comment)
      rw [scan_true_quote, Option.map_eq_none_iff] at hnone
      rw [hnone] at hsome
      exact Bool.noConfusion hsome
    rw [ofUnquoted_skip (fun h => absurd h hc) (head?_ne_slash_of_ofUnquoted hcut)] at hcut
    rw [scan_skip (fun h => absurd h hc) hquote (fun _ h => Bool.noConfusion h), Option.map_eq_none_iff] at hnone
    rw [scan_skip (fun h => absurd h hc) hquote (fun _ h => Bool.noConfusion h), ih (prepend_eq_iff.1 hcut) hnone,
      Option.map_none]
  | drop hc h ih =>
    rw [List.cons_append] at hcut hnone
    rw [ofUnquoted_plain hc] at hcut
    rw [scan_plain hc, Option.map_eq_none_iff] at hnone
    exact ih (prepend_eq_iff.1 hcut) hnone

theorem exists_scan_eq_some {inside : Bool} (h : Sheds code kept) (hcut : scan inside (code ++ comment) = some ⟨code, comment⟩) :
    ∃ l, scan inside (kept ++ comment) = some l ∧ l.code.length ≤ kept.length := by
  induction h generalizing inside with
  | nil => exact ⟨_, hcut, Nat.le_refl _⟩
  | lone => exact ⟨_, hcut, Nat.le_refl _⟩
  | escape c h ih =>
    rw [List.cons_append, List.cons_append, scan_escape] at hcut ⊢
    obtain ⟨m, hm, heq⟩ := Option.map_eq_some_iff.1 hcut
    rw [prepend_eq_iff.1 (prepend_eq_iff.1 heq)] at hm
    obtain ⟨l, hl, hlength⟩ := ih hm
    exact ⟨(l.prepend c).prepend '\\', by rw [hl, Option.map_some], Nat.succ_le_succ (Nat.succ_le_succ hlength)⟩
  | @keep c code kept hc h ih =>
    rw [List.cons_append] at hcut ⊢
    by_cases hquote : c = '"'
    · subst hquote
      cases inside with
      | true =>
        rw [scan_true_quote] at hcut ⊢
        obtain ⟨m, hm, heq⟩ := Option.map_eq_some_iff.1 hcut
        rw [prepend_eq_iff.1 heq] at hm
        obtain ⟨l, hl, hlength⟩ := ih hm
        exact ⟨l.prepend '"', by rw [hl, Option.map_some], Nat.succ_le_succ hlength⟩
      | false =>
        rw [scan_false_quote] at hcut ⊢
        have heq := prepend_eq_iff.1 (Option.some.inj hcut)
        refine ⟨_, rfl, Nat.succ_le_succ ?_⟩
        cases hs : scan true (code ++ comment) with
        | none =>
          rw [hs, Option.getD_none] at heq
          rw [h.scan_eq_none heq hs, Option.getD_none]
          exact h.length_ofUnquoted_le heq
        | some m =>
          rw [hs, Option.getD_some] at heq
          rw [heq] at hs
          obtain ⟨l, hl, hlength⟩ := ih hs
          rwa [hl, Option.getD_some]
    · have hopen : c = '/' → inside = false → (code ++ comment).head? ≠ some '/' := by
        rintro hc rfl
        exact head?_ne_slash_of_scan hcut hc
      rw [scan_skip (fun h => absurd h hc) hquote hopen] at hcut
      obtain ⟨m, hm, heq⟩ := Option.map_eq_some_iff.1 hcut
      rw [prepend_eq_iff.1 heq] at hm
      by_cases hslash : c = '/' ∧ inside = false ∧ (kept ++ comment).head? = some '/'
      · obtain ⟨rfl, rfl, hhead⟩ := hslash
        obtain ⟨r, hr⟩ := List.head?_eq_some_iff.1 hhead
        exact ⟨⟨[], '/' :: '/' :: r⟩, by rw [hr, scan], Nat.zero_le _⟩
      · obtain ⟨l, hl, hlength⟩ := ih hm
        refine ⟨l.prepend c, ?_, Nat.succ_le_succ hlength⟩
        rw [scan_skip (fun h => absurd h hc) hquote fun heq hinside hhead => hslash ⟨heq, hinside, hhead⟩, hl, Option.map_some]
  | drop hc h ih =>
    rw [List.cons_append, scan_plain hc] at hcut
    obtain ⟨m, hm, heq⟩ := Option.map_eq_some_iff.1 hcut
    rw [prepend_eq_iff.1 heq] at hm
    exact ih hm

end Sheds

/-- No tag of the text stands behind a backslash that escapes its first character, where one may be pending at the start. -/
def EscapesNone (pending : Bool) (t : Text) : Prop := ∀ before after, Gap t before after → endsPending pending before = false

/-- The pass stands before a character that is escaped, or before one that is not. -/
theorem sheds_withoutTags (t : Text) :
    (EscapesNone false t → Sheds t (withoutTags t)) ∧ (EscapesNone true t → Sheds ('\\' :: t) ('\\' :: withoutTags t)) := by
  induction t using tagInduction with
  | nil => exact ⟨fun _ => .nil, fun _ => .lone⟩
  | tag s after hs hafter ih =>
    refine ⟨fun h => ?_, fun h => Bool.noConfusion (h [] after (gap_nil hs hafter))⟩
    rw [withoutTags_tag hs hafter]
    refine Sheds.append hs.isPlain (ih.1 fun before after' hgap => ?_)
    have hbackslash : '\\' ∉ s := fun hmem => (hs.isPlain _ hmem).1 rfl
    have hpending := h _ _ (hgap.append_tag hs)
    have hs' := endsPending_append_of_ne false [] (hs.startsIn []).1 hbackslash
    rwa [endsPending_append, ← List.nil_append s, hs'] at hpending
  | other c r hnone ih =>
    have hrest : ∀ {pending}, EscapesNone pending (c :: r) → EscapesNone (c == '\\' && !pending) r :=
      fun h before after hgap => h _ _ (hgap.cons hnone)
    rw [withoutTags_cons hnone]
    refine ⟨fun h => ?_, fun h => .escape c (ih.1 ?_)⟩
    · by_cases hc : c = '\\'
      · subst hc
        exact ih.2 (hrest h)
      · refine .keep hc (ih.1 ?_)
        have := hrest h
        rwa [beq_false_of_ne hc, Bool.false_and] at this
    · have := hrest h
      rwa [Bool.not_true, Bool.and_false] at this

/-- Only a tag behind a backslash, when it is taken out, moves the start of the comment to the right. -/
theorem length_codeOf_eraseCodeTags_le (h : ¬EscapesTag line) :
    (codeOf (eraseCodeTags line)).length ≤ (withoutTags (codeOf line)).length := by
  have hnone : EscapesNone false (codeOf line) :=
    fun before after hgap => Bool.of_not_eq_true fun hpending => h ⟨before, after, hgap, hpending⟩
  have hcut : scan false (codeOf line ++ commentOf line) = some ⟨codeOf line, commentOf line⟩ := by
    rw [codeOf_append_commentOf]
    exact ofLine_eq_iff.1 rfl
  obtain ⟨l, hl, hlength⟩ := ((sheds_withoutTags _).1 hnone).exists_scan_eq_some hcut
  rwa [eraseCodeTags_eq, codeOf, ofLine_eq_iff.2 hl]

theorem UncoversTag.escapesTag (h : UncoversTag line) : EscapesTag line := by
  obtain ⟨i, identifier, -, hi⟩ := h
  by_contra hescapes
  have := length_codeOf_eraseCodeTags_le hescapes
  omega

/-- Without a mark beside those of the tags there is nothing to join. -/
theorem not_joinsTag_of_not_mem (h : '#' ∉ withoutTags (codeOf line)) : ¬JoinsTag line := by
  rintro ⟨before, after, i, hgap, ⟨identifier, htag, -⟩, -⟩
  rw [← hgap.withoutTags_eq] at htag
  obtain ⟨rest, heq, -⟩ := tagAtStart?_eq_some_iff.1 htag
  have hmem : '#' ∈ (withoutTags (codeOf line)).drop i := by
    rw [heq]
    exact List.mem_cons_self
  exact h (List.mem_of_mem_drop hmem)

theorem not_escapesTag_of_not_mem (h : '\\' ∉ codeOf line) : ¬EscapesTag line := by
  rintro ⟨before, after, ⟨s, -, heq, -⟩, hpending⟩
  cases before with
  | nil => cases hpending
  | cons c before =>
    rw [heq] at h
    have hbackslash : '\\' ∉ c :: before := fun hmem => h (List.mem_append_left _ hmem)
    have hnone := endsPending_append_of_ne false [] (List.cons_ne_nil c before) hbackslash
    exact Bool.noConfusion (hnone.symm.trans hpending)

/-! ## Cleaned texts -/

theorem lines_eraseTags (t : Text) : lines (eraseTags t) = (lines t).map eraseCodeTags := by
  refine lines_unlines (fun hnil => lines_ne_nil t (List.map_eq_nil_iff.1 hnil)) fun line hline hmem => ?_
  obtain ⟨old, hold, rfl⟩ := List.mem_map.1 hline
  refine lineFeed_not_mem_of_mem_lines hold ?_
  rw [← codeOf_append_commentOf old]
  rcases List.mem_append.1 hmem with hcode | hcomment
  · exact List.mem_append_left _ (mem_of_mem_withoutTags hcode)
  · exact List.mem_append_right _ hcomment

theorem eraseTags_eq_self_iff : eraseTags t = t ↔ ∀ line ∈ lines t, codeTag? line = none := by
  have hlines : eraseTags t = t ↔ (lines t).map eraseCodeTags = (lines t).map id := by
    rw [List.map_id]
    constructor
    · intro h
      rw [← lines_eraseTags, h]
    · intro h
      rw [eraseTags, h, unlines_lines]
  rw [hlines, List.map_inj_left]
  exact forall₂_congr fun line _ => eraseCodeTags_eq_self_iff

/-- A text keeps its lines when it is cleaned. A line of it has a tag in its code afterwards exactly when what stood on the two sides of a tag joins into one, or when the cut uncovers a tag of the comment, for which a tag behind a backslash is needed; if no line has one, and only then, there is nothing to clean a second time. Neither happens to a line whose code has no backslash and no `#` beside those of its tags. -/
theorem codeTag?_lines_eraseTags (t : Text) :
    (lines (eraseTags t)).length = (lines t).length ∧
    List.Forall₂ (fun line cleaned => codeTag? cleaned = none ↔ ¬JoinsTag line ∧ ¬UncoversTag line) (lines t) (lines (eraseTags t)) ∧
    (eraseTags (eraseTags t) = eraseTags t ↔ ∀ line ∈ lines t, ¬JoinsTag line ∧ ¬UncoversTag line) ∧
    (∀ line ∈ lines t, UncoversTag line → EscapesTag line) ∧
    (∀ line ∈ lines t, '#' ∉ withoutTags (codeOf line) → '\\' ∉ codeOf line → ¬JoinsTag line ∧ ¬UncoversTag line) := by
  refine ⟨?_, ?_, ?_, fun line _ h => h.escapesTag, fun line _ hmark hbackslash => ?_⟩
  · rw [lines_eraseTags, List.length_map]
  · rw [lines_eraseTags, List.forall₂_map_right_iff]
    exact List.forall₂_same.2 fun line _ => codeTag?_eraseCodeTags_eq_none_iff
  · rw [eraseTags_eq_self_iff, lines_eraseTags, List.forall_mem_map]
    exact forall₂_congr fun line _ => codeTag?_eraseCodeTags_eq_none_iff
  · exact ⟨not_joinsTag_of_not_mem hmark, fun h => not_escapesTag_of_not_mem hbackslash h.escapesTag⟩

/-- The first text is left with the tag of `BBBB` that was joined. In the second, the backslash escapes the first slash of the comment, so that its tag becomes one of the code. Both would change once more. -/
theorem not_clean_eraseTags :
    (∃ line ∈ lines (eraseTags "#id #id:AAAA:BBBB".toList), codeTag? line ≠ none) ∧
    eraseTags (eraseTags "#id #id:AAAA:BBBB".toList) ≠ eraseTags "#id #id:AAAA:BBBB".toList ∧
    (∃ line ∈ lines (eraseTags "\\ #id:AAAA//#id:BBBB".toList), codeTag? line ≠ none) ∧
    eraseTags (eraseTags "\\ #id:AAAA//#id:BBBB".toList) ≠ eraseTags "\\ #id:AAAA//#id:BBBB".toList := by
  decide

end LineTags
