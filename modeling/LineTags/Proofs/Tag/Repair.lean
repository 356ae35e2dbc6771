import LineTags.Proofs.Tag.Gaps
import LineTags.Proofs.Tag.Spacing

/-!
# What the spacing repair adds

The repair goes over a line twice, and each time it puts single spaces between characters that are no blanks. The second pass finds a blank wherever the first has put a space, so no place gets two, and a piece of the repaired line without a space in it was a piece of the line before.

What the second pass does is said by one equation, `spaceRuns_formatTag`: it takes a mark with the whole word behind it, puts at most one space into this word or behind it, and goes on where the word ends. A word that is an identifier is never cut, which is why no tag is lost.
-/

namespace LineTags

open Text

variable {s t w word rest : Text}

/-! ## Spaces between characters that are no blanks -/

/-- The second text is the first with single spaces put in, each between two characters that are no blanks. -/
inductive SetApart : Text → Text → Prop
  | nil : SetApart [] []
  | keep (c : Char) {s t : Text} (h : SetApart s t) : SetApart (c :: s) (c :: t)
  | space {c d : Char} {s t : Text} (hc : isBlank c = false) (hd : isBlank d = false) (h : SetApart (d :: s) (d :: t)) :
      SetApart (c :: d :: s) (c :: ' ' :: d :: t)

namespace SetApart

theorem refl (t : Text) : SetApart t t := by
  induction t with
  | nil => exact .nil
  | cons c r ih => exact .keep c ih

theorem head?_eq (h : SetApart s t) : t.head? = s.head? := by
  cases h <;> rfl

theorem append_left (w : Text) (h : SetApart s t) : SetApart (w ++ s) (w ++ t) := by
  induction w with
  | nil => exact h
  | cons c w ih => exact .keep c ih

/-- A space is put in where neither side has a blank. -/
theorem append_space {c d : Char} (w : Text) (hc : isBlank c = false) (hd : isBlank d = false) (h : SetApart (d :: s) t) :
    SetApart (w ++ c :: d :: s) (w ++ c :: ' ' :: t) := by
  obtain ⟨t', rfl⟩ : ∃ t', t = d :: t' := List.head?_eq_some_iff.1 h.head?_eq
  apply append_left
  exact .space hc hd h

/-- Where a space was put in there is a blank on one side, so that no second one follows. -/
theorem trans {u : Text} (h : SetApart s t) (h' : SetApart t u) : SetApart s u := by
  induction h generalizing u with
  | nil => exact h'
  | keep c h ih =>
    cases h' with
    | keep c h' => exact .keep c (ih h')
    | @space c d s' u hc hd h' =>
      obtain ⟨s, rfl⟩ := List.head?_eq_some_iff.1 (h.head?_eq.symm.trans rfl : _ = some d)
      exact .space hc hd (ih h')
  | @space c d s t hc hd h ih =>
    cases h' with
    | keep c h' =>
      cases h' with
      | keep _ h' =>
        obtain ⟨u, rfl⟩ := List.head?_eq_some_iff.1 (h'.head?_eq.trans rfl : _ = some d)
        exact .space hc hd (ih h')
      | space hblank => exact absurd hblank (by decide)
    | space _ hblank => exact absurd hblank (by decide)

theorem length_le (h : SetApart s t) : s.length ≤ t.length := by
  induction h with
  | nil => exact Nat.le_refl _
  | keep c h ih => exact Nat.succ_le_succ ih
  | space hc hd h ih =>
    simp only [List.length_cons] at ih ⊢
    omega

/-- Nothing was put in if the text is not longer. -/
theorem eq_of_length_le (h : SetApart s t) (hle : t.length ≤ s.length) : t = s := by
  induction h with
  | nil => rfl
  | keep c h ih => exact congrArg (c :: ·) (ih (Nat.le_of_succ_le_succ hle))
  | space hc hd h ih =>
    have hlength := h.length_le
    simp only [List.length_cons] at hle hlength
    omega

/-- A beginning without a space is one of both texts. -/
theorem isPrefix (h : SetApart s t) (hw : ' ' ∉ w) (ht : w <+: t) : w <+: s := by
  induction h generalizing w with
  | nil => exact ht
  | keep c h ih =>
    cases w with
    | nil => exact List.nil_prefix
    | cons x w =>
      obtain ⟨rfl, hrest⟩ := List.cons_prefix_cons.1 ht
      exact List.cons_prefix_cons.2 ⟨rfl, ih (fun hmem => hw (List.mem_cons_of_mem x hmem)) hrest⟩
  | space hc hd h ih =>
    cases w with
    | nil => exact List.nil_prefix
    | cons x w =>
      obtain ⟨rfl, hrest⟩ := List.cons_prefix_cons.1 ht
      cases w with
      | nil => exact List.cons_prefix_cons.2 ⟨rfl, List.nil_prefix⟩
      | cons y w =>
        obtain ⟨rfl, -⟩ := List.cons_prefix_cons.1 hrest
        simp at hw

/-- What has no space in it was not put together by the spaces. -/
theorem isInfix (h : SetApart s t) (hw : ' ' ∉ w) (ht : w <:+: t) : w <:+: s := by
  induction h with
  | nil => exact ht
  | keep c h ih =>
    rcases List.infix_cons_iff.1 ht with ht | ht
    · exact ((SetApart.keep c h).isPrefix hw ht).isInfix
    · exact List.infix_cons_iff.2 (.inr (ih ht))
  | @space c d s t hc hd h ih =>
    rcases List.infix_cons_iff.1 ht with ht | ht
    · exact ((SetApart.space hc hd h).isPrefix hw ht).isInfix
    apply List.infix_cons_iff.2
    rcases List.infix_cons_iff.1 ht with ht | ht
    · cases w with
      | nil => exact .inl List.nil_prefix
      | cons x w =>
        obtain ⟨rfl, -⟩ := List.cons_prefix_cons.1 ht
        simp at hw
    · exact .inr (ih ht)

/-- The first text is cut into pieces, and the second has one space between two pieces. -/
theorem exists_pieces (h : SetApart s t) :
    ∃ pieces : List Text, (∀ piece ∈ pieces, piece ≠ []) ∧ pieces.flatten = s ∧ join [' '] pieces = t := by
  induction h with
  | nil => exact ⟨[], by simp, rfl, rfl⟩
  | keep c h ih =>
    obtain ⟨pieces, hne, rfl, rfl⟩ := ih
    cases pieces with
    | nil => exact ⟨[[c]], by simp, rfl, rfl⟩
    | cons piece pieces =>
      refine ⟨(c :: piece) :: pieces, ?_, rfl, ?_⟩
      · simp only [List.mem_cons, forall_eq_or_imp] at hne ⊢
        exact ⟨List.cons_ne_nil c piece, hne.2⟩
      · cases pieces <;> simp only [join, List.cons_append]
  | @space c d s t hc hd h ih =>
    obtain ⟨pieces, hne, hs, ht⟩ := ih
    refine ⟨[c] :: pieces, ?_, ?_, ?_⟩
    · simp only [List.mem_cons, forall_eq_or_imp]
      exact ⟨List.cons_ne_nil c [], hne⟩
    · rw [List.flatten_cons, hs, List.singleton_append]
    · cases pieces with
      | nil => exact absurd hs (by simp)
      | cons piece pieces =>
        rw [join, ht]
        · simp
        · simp

end SetApart

/-! ## The spaces before marks -/

theorem setApart_spaceMarks (t : Text) : SetApart t (spaceMarks t) := by
  fun_induction spaceMarks t with
  | case1 => exact .nil
  | case2 c r hblank ih => exact .keep c ih
  | case3 c r hblank ih =>
    apply SetApart.space
    · exact Bool.eq_false_iff.2 hblank
    · decide
    · exact .keep '#' (.keep 'i' (.keep 'd' (.keep ':' ih)))
  | case4 c r hnot ih => exact .keep c ih

/-! ## Marks and the words behind them -/

theorem afterMark?_eq_none_iff : afterMark? t = none ↔ ¬tagMark <+: t := by
  constructor
  · intro hnone hmark
    obtain ⟨r, rfl⟩ := hmark
    simp [afterMark?, tagMark] at hnone
  · intro hnot
    by_contra hsome
    obtain ⟨r, hr⟩ := Option.ne_none_iff_exists'.1 hsome
    exact hnot ⟨r, (afterMark?_eq_some hr).symm⟩

/-- Behind a mark stands the longest word that can be read there, and what does not belong to it. -/
theorem exists_formatTag_append (h : tagMark <+: t) : ∃ word rest, t = formatTag word ++ rest ∧ IsWord word ∧ EndsIdentifier rest := by
  obtain ⟨u, rfl⟩ := h
  refine ⟨u.takeWhile isIdentifierChar, u.dropWhile isIdentifierChar, ?_, ?_, startsIn_dropWhile isIdentifierChar u⟩
  · rw [formatTag, List.append_assoc, List.takeWhile_append_dropWhile]
  · exact fun c hc => List.mem_takeWhile_imp hc

/-- Induction on a text that is read mark by mark, each with the whole word behind it. -/
theorem markInduction {motive : Text → Prop} (nil : motive [])
    (mark : ∀ word rest, IsWord word → EndsIdentifier rest → motive rest → motive (formatTag word ++ rest))
    (other : ∀ c r, ¬tagMark <+: c :: r → motive r → motive (c :: r)) (t : Text) : motive t := by
  induction hn : t.length using Nat.strong_induction_on generalizing t with
  | _ n ih =>
    subst hn
    cases t with
    | nil => exact nil
    | cons c r =>
      by_cases hmark : tagMark <+: c :: r
      · obtain ⟨word, rest, heq, hword, hrest⟩ := exists_formatTag_append hmark
        have hlt : rest.length < (c :: r).length := by
          simp only [heq, formatTag, tagMark, List.length_append, List.length_cons]
          omega
        rw [heq]
        apply mark word rest hword hrest
        exact ih rest.length hlt rest rfl
      · apply other c r hmark
        exact ih r.length (Nat.lt_succ_self _) r rfl

/-! ## Where a word is cut -/

theorem lastCodeEnd?_of_not_mem (h : '_' ∉ t) : lastCodeEnd? t = none := by
  induction t with
  | nil => rfl
  | cons c r ih =>
    simp only [List.mem_cons, not_or] at h
    simp [lastCodeEnd?, ih h.2, Ne.symm h.1]

/-- The code whose end is found is the last one of the text up to there, too. -/
theorem lastCodeEnd?_take {n : Nat} (h : lastCodeEnd? t = some n) : codeLength < n ∧ lastCodeEnd? (t.take n) = some n := by
  induction t generalizing n with
  | nil => cases h
  | cons c r ih =>
    rw [lastCodeEnd?] at h
    cases hr : lastCodeEnd? r with
    | some m =>
      rw [hr] at h
      obtain rfl := Option.some.inj h
      obtain ⟨hlt, htake⟩ := ih hr
      refine ⟨by omega, ?_⟩
      rw [List.take_succ_cons, lastCodeEnd?, htake]
    | none =>
      simp only [hr, Option.ite_none_right_eq_some, Option.some.injEq] at h
      obtain ⟨⟨rfl, hcode⟩, rfl⟩ := h
      have hstarts : r.take codeLength <+: r.takeWhile Char.isAlphanum :=
        List.prefix_of_prefix_length_le (List.take_prefix _ r) (List.takeWhile_prefix _)
          (Nat.le_trans (List.length_take_le _ r) hcode)
      have halnum : ∀ d ∈ r.take codeLength, d.isAlphanum = true := fun d hd => List.mem_takeWhile_imp (hstarts.subset hd)
      have hnone : lastCodeEnd? (r.take codeLength) = none :=
        lastCodeEnd?_of_not_mem fun hmem => absurd (halnum '_' hmem) (by decide)
      have hlength : codeLength ≤ ((r.take codeLength).takeWhile Char.isAlphanum).length := by
        have hwhole := hstarts.length_le
        have hle := (List.takeWhile_prefix Char.isAlphanum (l := r)).length_le
        rw [List.takeWhile_eq_self_iff.2 halnum, List.length_take]
        omega
      refine ⟨Nat.lt_succ_self _, ?_⟩
      rw [List.take_succ_cons, lastCodeEnd?, hnone]
      exact if_pos ⟨rfl, hlength⟩

/-- Where a word that is no identifier is cut, if it is. -/
def cutInside? (word : Text) : Option Nat :=
  let shift := if '_' ∈ word then 0 else 1
  (lastCodeEnd? (List.replicate shift '_' ++ word)).bind fun stop => if stop - shift < word.length then some (stop - shift) else none

theorem cutInside?_of_mem (h : '_' ∈ word) :
    cutInside? word = (lastCodeEnd? word).bind fun stop => if stop < word.length then some stop else none := by
  simp only [cutInside?, if_pos h, List.replicate_zero, List.nil_append, Nat.sub_zero]

theorem cutInside?_of_not_mem (h : '_' ∉ word) :
    cutInside? word = (lastCodeEnd? ('_' :: word)).bind fun stop => if stop - 1 < word.length then some (stop - 1) else none := by
  simp only [cutInside?, if_neg h, List.replicate_one, List.singleton_append]

/-- The part in front of a cut ends in the code at which the word was cut, so it is not cut again. -/
theorem cutInside?_take {n : Nat} (h : cutInside? word = some n) :
    0 < n ∧ n < word.length ∧ cutInside? (word.take n) = none := by
  by_cases hmem : '_' ∈ word
  · rw [cutInside?_of_mem hmem] at h
    obtain ⟨stop, hstop, h⟩ := Option.bind_eq_some_iff.1 h
    obtain ⟨hlt, h⟩ := Option.ite_none_right_eq_some.1 h
    obtain rfl := Option.some.inj h
    obtain ⟨hcode, htake⟩ := lastCodeEnd?_take hstop
    have hmem' : '_' ∈ word.take stop := by
      by_contra hnot
      rw [lastCodeEnd?_of_not_mem hnot] at htake
      cases htake
    refine ⟨by omega, hlt, ?_⟩
    rw [cutInside?_of_mem hmem', htake, Option.bind_some, if_neg]
    rw [List.length_take]
    omega
  · rw [cutInside?_of_not_mem hmem] at h
    obtain ⟨stop, hstop, h⟩ := Option.bind_eq_some_iff.1 h
    obtain ⟨hlt, h⟩ := Option.ite_none_right_eq_some.1 h
    obtain rfl := Option.some.inj h
    obtain ⟨hcode, htake⟩ := lastCodeEnd?_take hstop
    obtain ⟨n, rfl⟩ : ∃ n, stop = n + 1 := ⟨stop - 1, by omega⟩
    have hmem' : '_' ∉ word.take n := fun hmem' => hmem (List.mem_of_mem_take hmem')
    simp only [codeLength, Nat.add_sub_cancel] at hcode hlt ⊢
    refine ⟨by omega, hlt, ?_⟩
    rw [List.take_succ_cons] at htake
    rw [cutInside?_of_not_mem hmem', htake, Option.bind_some, if_neg]
    rw [List.length_take]
    omega

theorem runCut?_of_not_isIdentifier (h : isIdentifier word = false) (rest : Text) : runCut? word rest = cutInside? word := by
  simp only [runCut?, h, Bool.false_eq_true, if_false, cutInside?]

/-- An identifier is cut at its end, before what is no blank. -/
theorem eq_of_runCut? {n : Nat} (hid : isIdentifier word = true) (h : runCut? word rest = some n) :
    n = word.length ∧ ∃ c r, rest = c :: r ∧ isBlank c = false := by
  simp only [runCut?, hid, if_true] at h
  split at h
  · cases h
  · next c r =>
    simp only [Option.ite_none_left_eq_some, Bool.or_eq_true, not_or, Option.some.injEq] at h
    exact ⟨h.2.symm, c, r, rfl, Bool.eq_false_iff.2 h.1.1.1⟩

/-- What stands in front of the space of a word gets no other. -/
theorem runCut?_take {n : Nat} (h : runCut? word rest = some n) (r : Text) : runCut? (word.take n) (' ' :: r) = none := by
  cases hid : isIdentifier (word.take n) with
  | true => simp [runCut?, hid, show isBlank ' ' = true by decide]
  | false =>
    rw [runCut?_of_not_isIdentifier hid]
    cases hword : isIdentifier word with
    | true =>
      obtain ⟨rfl, -⟩ := eq_of_runCut? hword h
      rw [List.take_length, hword] at hid
      cases hid
    | false =>
      rw [runCut?_of_not_isIdentifier hword] at h
      exact (cutInside?_take h).2.2

theorem isBlank_of_isIdentifierChar {c : Char} (hc : isIdentifierChar c = true) : isBlank c = false := by
  by_contra hblank
  rw [(EndsTag.of_isBlank (Bool.of_not_eq_false hblank)).1] at hc
  cases hc

/-- A word is cut between two characters that are no blanks. -/
theorem exists_of_runCut? {n : Nat} (hword : IsWord word) (h : runCut? word rest = some n) :
    ∃ front c d back, word.take n = front ++ [c] ∧ word.drop n ++ rest = d :: back ∧ isBlank c = false ∧ isBlank d = false := by
  have hdark : ∀ c ∈ word, isBlank c = false := fun c hc => isBlank_of_isIdentifierChar (hword c hc)
  have hfront : 0 < n ∧ ∃ d back, word.drop n ++ rest = d :: back ∧ isBlank d = false := by
    cases hid : isIdentifier word with
    | true =>
      obtain ⟨rfl, d, back, rfl, hd⟩ := eq_of_runCut? hid h
      refine ⟨List.length_pos_iff.2 ?_, d, back, by simp, hd⟩
      rintro rfl
      cases hid
    | false =>
      rw [runCut?_of_not_isIdentifier hid] at h
      obtain ⟨hpos, hlt, -⟩ := cutInside?_take h
      obtain ⟨d, back, hback⟩ := List.exists_cons_of_ne_nil (List.drop_eq_nil_iff.not.2 (Nat.not_le.2 hlt))
      have hd : d ∈ word := List.mem_of_mem_drop (hback ▸ List.mem_cons_self)
      exact ⟨hpos, d, back ++ rest, by rw [hback, List.cons_append], hdark d hd⟩
  obtain ⟨hpos, d, back, hback, hd⟩ := hfront
  rcases List.eq_nil_or_concat (word.take n) with hnil | ⟨front, c, hfront⟩
  · have hle := runCut?_le h
    have hlength := congrArg List.length hnil
    simp only [List.length_take, List.length_nil] at hlength
    omega
  · rw [List.concat_eq_append] at hfront
    have hc : c ∈ word := List.mem_of_mem_take (hfront ▸ List.mem_append_right front List.mem_cons_self)
    exact ⟨front, c, d, back, hfront, hback, hdark c hc, hd⟩

/-! ## The spaces behind runs -/

theorem spaceRuns_cons {c : Char} {r : Text} (h : ¬tagMark <+: c :: r) : spaceRuns 0 (c :: r) = c :: spaceRuns 0 r := by
  rw [spaceRuns, spaceAhead?, afterMark?_eq_none_iff.2 h]
  rfl

theorem spaceRuns_append (h : '#' ∉ s) (t : Text) : spaceRuns 0 (s ++ t) = s ++ spaceRuns 0 t := by
  induction s with
  | nil => rfl
  | cons c s ih =>
    simp only [List.mem_cons, not_or] at h
    rw [List.cons_append, spaceRuns_cons, ih h.2, List.cons_append]
    exact fun hmark => h.1 (List.cons_prefix_cons.1 hmark).1

/-- A space is put behind as many characters as it is due behind. -/
theorem spaceRuns_due (hs : s ≠ []) (t : Text) : spaceRuns s.length (s ++ t) = s ++ ' ' :: spaceRuns 0 t := by
  induction s with
  | nil => exact absurd rfl hs
  | cons c s ih =>
    cases s with
    | nil => rfl
    | cons d s => exact congrArg (c :: ·) (ih (List.cons_ne_nil d s))

/-- A word with the space that is due in it or behind it. -/
def spacedWord (word rest : Text) : Text :=
  match runCut? word rest with
  | some n => word.take n ++ ' ' :: word.drop n
  | none => word

theorem spaceRuns_formatTag (hword : IsWord word) (hrest : EndsIdentifier rest) :
    spaceRuns 0 (formatTag word ++ rest) = formatTag (spacedWord word rest) ++ spaceRuns 0 rest := by
  have hrun : (word ++ rest).takeWhile isIdentifierChar = word := by
    rw [takeWhile_append word hrest, List.takeWhile_eq_self_iff.2 hword]
  have hbehind : (word ++ rest).dropWhile isIdentifierChar = rest := by
    rw [dropWhile_append word hrest, List.dropWhile_eq_nil_iff.2 hword, List.nil_append]
  have hahead : spaceAhead? (formatTag word ++ rest) = (runCut? word rest).map (· + 3) := by
    rw [spaceAhead?, show afterMark? (formatTag word ++ rest) = some (word ++ rest) from rfl, Option.bind_some, hrun, hbehind]
    rfl
  have hhash : '#' ∉ word := hword.not_mem (by decide)
  have hcons : formatTag word ++ rest = '#' :: (['i', 'd', ':'] ++ word ++ rest) := rfl
  rw [hcons] at hahead ⊢
  rw [spaceRuns, hahead, spacedWord]
  cases hcut : runCut? word rest with
  | none =>
    rw [Option.map_none, Option.getD_none, spaceRuns_append (by simp [hhash])]
    rfl
  | some n =>
    have hlength : (['i', 'd', ':'] ++ word.take n).length = n + 3 := by
      simp only [List.length_append, List.length_take, List.length_cons, List.length_nil, Nat.min_eq_left (runCut?_le hcut)]
      omega
    have hsplit : ['i', 'd', ':'] ++ word ++ rest = (['i', 'd', ':'] ++ word.take n) ++ (word.drop n ++ rest) := by
      rw [List.append_assoc, List.append_assoc, ← List.append_assoc (word.take n), List.take_append_drop]
    rw [Option.map_some, Option.getD_some, hsplit, ← hlength, spaceRuns_due (by simp), spaceRuns_append]
    · simp [formatTag, tagMark]
    · exact fun hmem => hhash (List.mem_of_mem_drop hmem)

theorem setApart_spaceRuns (t : Text) : SetApart t (spaceRuns 0 t) := by
  induction t using markInduction with
  | nil => exact .nil
  | other c r hnone ih =>
    rw [spaceRuns_cons hnone]
    exact .keep c ih
  | mark word rest hword hrest ih =>
    rw [spaceRuns_formatTag hword hrest, spacedWord]
    cases hcut : runCut? word rest with
    | none => exact ih.append_left _
    | some n =>
      obtain ⟨front, c, d, back, hfront, hback, hc, hd⟩ := exists_of_runCut? hword hcut
      have hbehind : SetApart (d :: back) (word.drop n ++ spaceRuns 0 rest) := hback ▸ ih.append_left (word.drop n)
      have hbefore : formatTag word ++ rest = (tagMark ++ front) ++ c :: d :: back := by
        rw [formatTag, ← List.take_append_drop n word, hfront, List.append_assoc, List.append_assoc, List.append_assoc]
        simp [hback]
      have hafter : formatTag (word.take n ++ ' ' :: word.drop n) ++ spaceRuns 0 rest =
          (tagMark ++ front) ++ c :: ' ' :: (word.drop n ++ spaceRuns 0 rest) := by
        simp [formatTag, hfront]
      rw [hbefore]
      dsimp only
      rw [hafter]
      exact hbehind.append_space _ hc hd

theorem setApart_repairSpacing (t : Text) : SetApart t (repairSpacing t) :=
  (setApart_spaceMarks t).trans (setApart_spaceRuns (spaceMarks t))

/-! ## The tags of the repaired text -/

theorem map_identifier_append (s : Text) (ht : StartsIn EndsRun t) :
    (findTags (s ++ t)).map TagMatch.identifier = (findTags s).map TagMatch.identifier ++ (findTags t).map TagMatch.identifier := by
  rw [findTags, tagsFrom_append 0 s ht, List.map_append, map_identifier_tagsFrom (0 + s.length) 0, findTags, findTags]

theorem map_identifier_append_of_not_mem (hs : '#' ∉ s) (t : Text) :
    (findTags (s ++ t)).map TagMatch.identifier = (findTags t).map TagMatch.identifier := by
  rw [findTags, tagsFrom_append_of_not_mem 0 hs, map_identifier_tagsFrom _ 0, findTags]

theorem map_identifier_formatTag (hword : IsWord word) (hrest : EndsIdentifier rest) :
    (findTags (formatTag word ++ rest)).map TagMatch.identifier =
      (if isIdentifier word then [word] else []) ++ (findTags rest).map TagMatch.identifier := by
  rw [findTags, tagsFrom_formatTag 0 hword hrest, List.map_append, map_identifier_tagsFrom _ 0, findTags]
  split <;> rfl

theorem sublist_map_identifier_cons (c : Char) (r : Text) :
    ((findTags r).map TagMatch.identifier).Sublist ((findTags (c :: r)).map TagMatch.identifier) := by
  rw [findTags, findTags, tagsFrom, map_identifier_tagsFrom 0 1]
  split
  · exact List.sublist_cons_self _ _
  · exact List.Sublist.refl _

/-- A space before a mark makes no tag and takes none away. -/
theorem map_identifier_space (s t : Text) :
    (findTags (s ++ ' ' :: '#' :: t)).map TagMatch.identifier = (findTags (s ++ '#' :: t)).map TagMatch.identifier := by
  have hmark : StartsIn EndsRun ('#' :: t) := startsIn_cons.2 ⟨by decide, by decide⟩
  have hspace : StartsIn EndsRun (' ' :: '#' :: t) := startsIn_cons.2 ⟨by decide, by decide⟩
  have hskip := map_identifier_append_of_not_mem (s := [' ']) (by decide) ('#' :: t)
  rw [List.singleton_append] at hskip
  rw [map_identifier_append s hspace, map_identifier_append s hmark, hskip]

theorem map_identifier_spaceMarks (done t : Text) :
    (findTags (done ++ spaceMarks t)).map TagMatch.identifier = (findTags (done ++ t)).map TagMatch.identifier := by
  fun_induction spaceMarks t generalizing done with
  | case1 => rfl
  | case2 c r hblank ih => simpa using ih (done ++ [c])
  | case3 c r hblank ih =>
    have hspace := map_identifier_space (done ++ [c]) ('i' :: 'd' :: ':' :: spaceMarks r)
    have hrest := ih (done ++ [c, '#', 'i', 'd', ':'])
    simp only [List.append_assoc, List.cons_append, List.nil_append] at hspace hrest
    rw [hspace, hrest]
  | case4 c r hnot ih => simpa using ih (done ++ [c])

/-- A cut of a word may make a tag. As an identifier is not cut, it takes none away. -/
theorem sublist_spaceRuns (t : Text) :
    ((findTags t).map TagMatch.identifier).Sublist ((findTags (spaceRuns 0 t)).map TagMatch.identifier) := by
  induction t using markInduction with
  | nil => exact List.Sublist.refl _
  | other c r hnone ih =>
    have hstart : tagAtStart? (c :: r) = none := by rw [tagAtStart?, afterMark?_eq_none_iff.2 hnone, Option.bind_none]
    have hsame : (findTags (c :: r)).map TagMatch.identifier = (findTags r).map TagMatch.identifier := by
      rw [findTags, tagsFrom, hstart]
      exact map_identifier_tagsFrom _ _ r
    rw [spaceRuns_cons hnone, hsame]
    exact ih.trans (sublist_map_identifier_cons c _)
  | mark word rest hword hrest ih =>
    have hrest' : EndsIdentifier (spaceRuns 0 rest) := by
      unfold EndsIdentifier StartsIn
      rwa [(setApart_spaceRuns rest).head?_eq]
    rw [spaceRuns_formatTag hword hrest, map_identifier_formatTag hword hrest, spacedWord]
    cases hcut : runCut? word rest with
    | none =>
      dsimp only
      rw [map_identifier_formatTag hword hrest']
      exact List.Sublist.append_left ih _
    | some n =>
      have hfront : IsWord (word.take n) := fun c hc => hword c (List.mem_of_mem_take hc)
      have hspace : EndsIdentifier (' ' :: word.drop n ++ spaceRuns 0 rest) := startsIn_cons.2 (by decide)
      have hback : '#' ∉ ' ' :: word.drop n := by
        simp only [List.mem_cons, not_or]
        exact ⟨by decide, fun hmem => hword.not_mem (by decide) (List.mem_of_mem_drop hmem)⟩
      have hafter : formatTag (word.take n ++ ' ' :: word.drop n) ++ spaceRuns 0 rest =
          formatTag (word.take n) ++ (' ' :: word.drop n ++ spaceRuns 0 rest) := by
        simp [formatTag]
      dsimp only
      rw [hafter, map_identifier_formatTag hfront hspace, map_identifier_append_of_not_mem hback]
      apply List.Sublist.append _ ih
      by_cases hid : isIdentifier word = true
      · obtain ⟨rfl, -⟩ := eq_of_runCut? hid hcut
        rw [List.take_length]
      · rw [if_neg hid]
        exact List.nil_sublist _

/-- The repaired line is the line with single spaces between some of its pieces. It has all identifiers that the line has, in the same order. The repair of a code leaves the comment behind it what it is. -/
theorem repairSpacing_onlySpaces (line : Text) :
    (∃ pieces : List Text, (∀ piece ∈ pieces, piece ≠ []) ∧ pieces.flatten = line ∧ join [' '] pieces = repairSpacing line) ∧
    ((findTags line).map TagMatch.identifier).Sublist ((findTags (repairSpacing line)).map TagMatch.identifier) ∧
    CommentedLine.ofLine (repairSpacing (codeOf line) ++ commentOf line) = ⟨repairSpacing (codeOf line), commentOf line⟩ := by
  refine ⟨(setApart_repairSpacing line).exists_pieces, ?_, ofLine_repairSpacing line⟩
  have hmarks := map_identifier_spaceMarks [] line
  rw [List.nil_append, List.nil_append] at hmarks
  rw [repairSpacing, ← hmarks]
  exact sublist_spaceRuns (spaceMarks line)

/-- The first run is no identifier and is cut behind its last code, which makes a tag; the second is one, and what follows is set apart from it. -/
example : repairSpacing "a#id:x_12345 b#id:ABCDé#id:EFGH/".toList = "a #id:x_1234 5 b #id:ABCD é #id:EFGH/".toList := by
  decide

end LineTags
