import LineTags.Proofs.Text.Blanks
import LineTags.Proofs.Text.Lines
import LineTags.Tag.Basic

/-!
# Where managed tags end

Reading a tag looks ahead no further than the first character that no tag can hold. Blanks, closing brackets and slashes are such characters, so the tags of a text that is cut before one of them are the tags of its two parts, and a tag that is put there is found as it was written.
-/

namespace LineTags

open Text

theorem bounds_of_isIdentifierChar {c : Char} (hc : isIdentifierChar c) : 48 ≤ c.toNat ∧ c.toNat ≤ 122 := by
  delta isIdentifierChar Char.isAlphanum Char.isAlpha Char.isUpper Char.isLower Char.isDigit at hc
  simp only [Bool.or_eq_true, Bool.and_eq_true, decide_eq_true_eq, beq_iff_eq, ge_iff_le, UInt32.le_iff_toNat_le,
    Char.reduceVal, UInt32.reduceToNat] at hc
  unfold Char.toNat
  rcases hc with ((hc | hc) | hc) | rfl
  · omega
  · omega
  · omega
  · decide

theorem bounds_of_isBlank {c : Char} (hc : isBlank c) : c.toNat ≤ 32 ∨ 133 ≤ c.toNat := by
  simp only [isBlank, Bool.or_eq_true, Bool.and_eq_true, decide_eq_true_eq, beq_iff_eq, UInt32.le_iff_toNat_le,
    ← UInt32.toNat_inj, UInt32.reduceToNat] at hc
  unfold Char.toNat
  omega

theorem ne_of_isIdentifierChar {c d : Char} (hc : isIdentifierChar c) (hd : isIdentifierChar d = false) : c ≠ d := by
  rintro rfl
  rw [hc] at hd
  exact Bool.noConfusion hd

/-- A character with which a tag that has begun does not go on. -/
def EndsRun (c : Char) : Prop := isIdentifierChar c = false ∧ c ≠ ':'

/-- A character that stands in no managed tag. -/
def EndsTag (c : Char) : Prop := isIdentifierChar c = false ∧ c ≠ '#' ∧ c ≠ ':'

theorem EndsTag.endsRun {c : Char} (hc : EndsTag c) : EndsRun c := ⟨hc.1, hc.2.2⟩

theorem EndsTag.of_isBlank {c : Char} (hc : isBlank c) : EndsTag c := by
  have hbounds := bounds_of_isBlank hc
  refine ⟨?_, ?_, ?_⟩
  · by_contra hid
    have := bounds_of_isIdentifierChar (Bool.of_not_eq_false hid)
    omega
  · rintro rfl
    exact absurd hc (by decide)
  · rintro rfl
    exact absurd hc (by decide)

/-- A text of nothing but letters, digits and underscores. -/
def IsWord (t : Text) : Prop := ∀ c ∈ t, isIdentifierChar c

theorem isWord_of_segments {t : Text} (h : (split '_' t).all (fun s => !s.isEmpty && s.all Char.isAlphanum) = true) :
    IsWord t := by
  intro c hc
  simp only [List.all_eq_true, Bool.and_eq_true] at h
  have hpieces : c = '_' ∨ ∃ piece ∈ split '_' t, c ∈ piece := mem_piece_of_mem hc
  rcases hpieces with rfl | ⟨piece, hpiece, hmem⟩
  · decide
  · have := (h piece hpiece).2 c hmem
    simp [isIdentifierChar, this]

theorem isWord_of_isIdentifier {t : Text} (ht : isIdentifier t) : IsWord t := by
  simp only [isIdentifier, Bool.and_eq_true] at ht
  exact isWord_of_segments ht.1

theorem isWord_append {s t : Text} (hs : IsWord s) (ht : IsWord t) : IsWord (s ++ t) :=
  List.forall_mem_append.2 ⟨hs, ht⟩

theorem IsWord.not_mem {t : Text} (ht : IsWord t) {c : Char} (hc : isIdentifierChar c = false) : c ∉ t :=
  fun hmem => ne_of_isIdentifierChar (ht c hmem) hc rfl

theorem afterMark?_eq_some {t r : Text} (h : afterMark? t = some r) : t = tagMark ++ r := by
  unfold afterMark? at h
  split at h
  · rw [← Option.some.inj h]
    rfl
  · cases h

theorem afterMark?_cons_of_ne {c : Char} (hc : c ≠ '#') (r : Text) : afterMark? (c :: r) = none := by
  unfold afterMark?
  split
  · simp_all
  · rfl

theorem tagAtStart?_cons_of_ne {c : Char} (hc : c ≠ '#') (r : Text) : tagAtStart? (c :: r) = none := by
  rw [tagAtStart?, afterMark?_cons_of_ne hc, Option.bind_none]

theorem afterMark?_append {s r : Text} (hne : s ≠ []) (hr : StartsIn EndsRun r) :
    afterMark? (s ++ r) = (afterMark? s).map (· ++ r) := by
  have hskip : ∀ c, isIdentifierChar c ∨ c = ':' → r.head? ≠ some c := by
    intro c hc hhead
    have hend := hr c hhead
    rcases hc with hc | rfl
    · exact Bool.noConfusion (hend.1.symm.trans hc)
    · exact hend.2 rfl
  have hi := hskip 'i' (Or.inl (by decide))
  have hd := hskip 'd' (Or.inl (by decide))
  have hcolon := hskip ':' (Or.inr rfl)
  rcases s with _ | ⟨a, _ | ⟨b, _ | ⟨c, _ | ⟨d, s⟩⟩⟩⟩
  · exact absurd rfl hne
  all_goals
    clear hskip hr
    unfold afterMark?
    split <;> split <;> simp_all

theorem tagAtStart?_append {s r : Text} (hne : s ≠ []) (hr : StartsIn EndsRun r) :
    tagAtStart? (s ++ r) = tagAtStart? s := by
  unfold tagAtStart?
  rw [afterMark?_append hne hr]
  cases afterMark? s with
  | none => rfl
  | some t => simp only [Option.map_some, Option.bind_some, takeWhile_append t (hr.mono fun _ hc => hc.1)]

/-- The tags of a text that is cut before a character with which no tag goes on. -/
theorem tagsFrom_append (column : Nat) (s : Text) {r : Text} (hr : StartsIn EndsRun r) :
    tagsFrom column (s ++ r) = tagsFrom column s ++ tagsFrom (column + s.length) r := by
  induction s generalizing column with
  | nil => rfl
  | cons c s ih =>
    have hhead := tagAtStart?_append (List.cons_ne_nil c s) hr
    rw [List.cons_append] at hhead ⊢
    have hcolumn : column + (c :: s).length = column + 1 + s.length := by
      rw [List.length_cons]
      omega
    rw [tagsFrom, tagsFrom, hhead, ih, hcolumn]
    split <;> rfl

theorem tagsFrom_append_of_not_mem (column : Nat) {s : Text} (hs : '#' ∉ s) (r : Text) :
    tagsFrom column (s ++ r) = tagsFrom (column + s.length) r := by
  induction s generalizing column with
  | nil => rfl
  | cons c s ih =>
    rw [List.mem_cons, not_or] at hs
    have hcolumn : column + (c :: s).length = column + 1 + s.length := by
      rw [List.length_cons]
      omega
    rw [List.cons_append, tagsFrom, tagAtStart?_cons_of_ne (Ne.symm hs.1), hcolumn]
    exact ih (column + 1) hs.2

theorem tagsFrom_of_not_mem (column : Nat) {s : Text} (hs : '#' ∉ s) : tagsFrom column s = [] := by
  have hnone := tagsFrom_append_of_not_mem column hs []
  rwa [List.append_nil] at hnone

/-- The identifiers of the tags of a text do not depend on where it stands. -/
theorem map_identifier_tagsFrom (column other : Nat) (t : Text) :
    (tagsFrom column t).map TagMatch.identifier = (tagsFrom other t).map TagMatch.identifier := by
  induction t generalizing column other with
  | nil => rfl
  | cons c t ih =>
    rw [tagsFrom, tagsFrom]
    split
    · rw [List.map_cons, List.map_cons, ih (column + 1) (other + 1)]
    · exact ih (column + 1) (other + 1)

/-- Neither does it whether there are tags. -/
theorem tagsFrom_eq_nil_iff (column other : Nat) (t : Text) : tagsFrom column t = [] ↔ tagsFrom other t = [] := by
  rw [← List.map_eq_nil_iff (f := TagMatch.identifier), map_identifier_tagsFrom column other, List.map_eq_nil_iff]

/-! ### A tag put into a text -/

/-- A word behind the mark is read as a whole. -/
theorem tagAtStart?_formatTag_of_isWord {word r : Text} (hword : IsWord word) (hr : StartsIn (isIdentifierChar · = false) r) :
    tagAtStart? (formatTag word ++ r) = if isIdentifier word then some word else none := by
  have hrun : (word ++ r).takeWhile isIdentifierChar = word := by
    rw [takeWhile_append word hr, List.takeWhile_eq_self_iff.2 hword]
  have hmark : afterMark? (formatTag word ++ r) = some (word ++ r) := rfl
  rw [tagAtStart?, hmark, Option.bind_some]
  simp only [hrun]

theorem tagAtStart?_formatTag {identifier r : Text} (hid : isIdentifier identifier) (hr : StartsIn EndsTag r) :
    tagAtStart? (formatTag identifier ++ r) = some identifier := by
  rw [tagAtStart?_formatTag_of_isWord (isWord_of_isIdentifier hid) (hr.mono fun _ hc => hc.1), if_pos hid]

/-- None of the characters of a tag behind its first one starts a tag. -/
theorem tagsFrom_tail_formatTag (column : Nat) {word : Text} (hword : IsWord word) (after : Text) :
    tagsFrom (column + 1) ((formatTag word).tail ++ after) = tagsFrom (column + (formatTag word).length) after := by
  have hrest : '#' ∉ 'i' :: 'd' :: ':' :: word := by
    simp [hword.not_mem (c := '#') (by decide)]
  have hlength : column + (formatTag word).length = column + 1 + ('i' :: 'd' :: ':' :: word).length := by
    simp only [formatTag, tagMark, List.length_append, List.length_cons, List.length_nil]
    omega
  rw [hlength]
  exact tagsFrom_append_of_not_mem (column + 1) hrest after

theorem tagsFrom_of_tagAtStart? (column : Nat) {identifier after : Text} (hid : isIdentifier identifier)
    (h : tagAtStart? (formatTag identifier ++ after) = some identifier) :
    tagsFrom column (formatTag identifier ++ after) =
      ⟨identifier, column, column + (formatTag identifier).length⟩ :: tagsFrom (column + (formatTag identifier).length) after := by
  have hcons : formatTag identifier ++ after = '#' :: ((formatTag identifier).tail ++ after) := rfl
  have hlength : (formatTag identifier).length = tagMark.length + identifier.length := List.length_append
  rw [hcons] at h ⊢
  rw [tagsFrom, h, tagsFrom_tail_formatTag column (isWord_of_isIdentifier hid), hlength, ← Nat.add_assoc]

/-- The tag of an identifier is all that is found in it. -/
theorem findTags_formatTag {identifier : Text} (hid : isIdentifier identifier) :
    findTags (formatTag identifier) = [⟨identifier, 0, (formatTag identifier).length⟩] := by
  have htags := tagsFrom_of_tagAtStart? 0 hid (tagAtStart?_formatTag hid startsIn_nil)
  rwa [List.append_nil, Nat.zero_add] at htags

/-- A word behind a mark makes a tag only if it is an identifier. -/
theorem tagsFrom_formatTag (column : Nat) {word after : Text} (hword : IsWord word)
    (hafter : StartsIn (isIdentifierChar · = false) after) :
    tagsFrom column (formatTag word ++ after) =
      (if isIdentifier word then [⟨word, column, column + tagMark.length + word.length⟩] else []) ++
        tagsFrom (column + tagMark.length + word.length) after := by
  have hstart := tagAtStart?_formatTag_of_isWord hword hafter
  have hcons : formatTag word ++ after = '#' :: ((formatTag word).tail ++ after) := rfl
  have hlength : (formatTag word).length = tagMark.length + word.length := List.length_append
  rw [hcons] at hstart ⊢
  rw [tagsFrom, hstart, tagsFrom_tail_formatTag _ hword, hlength, ← Nat.add_assoc]
  by_cases hid : isIdentifier word
  · simp only [hid, if_true, List.cons_append, List.nil_append]
  · simp only [hid, if_false, Bool.false_eq_true, List.nil_append]

/-- The tags of a text into which a word was put like an identifier, with a space before it and nothing behind it that it could go on with. -/
theorem findTags_insert_of_isWord (before : Text) {word after : Text} (hword : IsWord word) (hafter : StartsIn EndsTag after) :
    findTags (before ++ ' ' :: formatTag word ++ after) =
      findTags before ++
        ((if isIdentifier word then [⟨word, before.length + 1, before.length + 1 + tagMark.length + word.length⟩] else []) ++
          tagsFrom (before.length + 1 + tagMark.length + word.length) after) := by
  have hspace : StartsIn EndsRun (' ' :: formatTag word ++ after) :=
    startsIn_cons.2 (EndsTag.of_isBlank (by decide)).endsRun
  rw [findTags, List.append_assoc, tagsFrom_append 0 before hspace, Nat.zero_add, List.cons_append, tagsFrom,
    tagAtStart?_cons_of_ne (by decide), tagsFrom_formatTag _ hword (hafter.mono fun _ hc => hc.1), findTags]

end LineTags
