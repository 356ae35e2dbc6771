import LineTags.Proofs.Tag.Insertion

/-!
# What a text without its tags still has

Tags are taken out of a text in one pass, each with the space before it. What stood before such a tag and what stood behind it then follow each other, and can be a tag together: `#id #id:AAAA:BBBB` becomes `#id:BBBB`. The places where a tag was taken out are the gaps of the text. No tag is left but those that start before a gap and end behind it, because whatever was a tag on one side of a gap was one before and is gone.

All of it rests on one equation, `withoutTags_append`: where neither a run of letters nor a space before a mark is cut in two, the tags can be taken out of the two parts one by one.
-/

namespace LineTags

open Text

/-- What is left of a text when its tags are taken out. -/
def withoutTags (t : Text) : Text := eraseTagsAfter 0 t

/-- What is taken out at once: a tag, with a space before it or without one. -/
def IsSpacedTag (s : Text) : Prop := ∃ identifier, isIdentifier identifier ∧ (s = formatTag identifier ∨ s = ' ' :: formatTag identifier)

/-- The text goes on with nothing that could belong to an identifier before it. -/
def EndsIdentifier (t : Text) : Prop := StartsIn (isIdentifierChar · = false) t

/-- A tag of the text stands between `before` and `after`; if there is a space before it, this is not part of `before`. -/
def Gap (t before after : Text) : Prop :=
  ∃ s, IsSpacedTag s ∧ t = before ++ (s ++ after) ∧ EndsIdentifier after ∧ (before.getLast? = some ' ' → s.head? ≠ some '#')

/-- A tag starts at an offset of `u` and ends in `v`, which stands behind `u`. -/
def Joins (u v : Text) (offset : Nat) : Prop :=
  ∃ identifier, tagAtStart? ((u ++ v).drop offset) = some identifier ∧ offset < u.length ∧
    u.length < offset + (formatTag identifier).length

variable {s t r u v before after identifier : Text} {c : Char}

/-! ## Tags at the start of a text -/

theorem tagAtStart?_eq_some_iff :
    tagAtStart? t = some identifier ↔
      ∃ after, t = formatTag identifier ++ after ∧ isIdentifier identifier ∧ EndsIdentifier after := by
  constructor
  · intro h
    obtain ⟨r, hmark, hrun⟩ := Option.bind_eq_some_iff.1 h
    have ht : t = tagMark ++ r := afterMark?_eq_some hmark
    dsimp only at hrun
    split at hrun
    · next hid =>
      obtain rfl := Option.some.inj hrun
      refine ⟨r.dropWhile isIdentifierChar, ?_, hid, startsIn_dropWhile isIdentifierChar r⟩
      rw [formatTag, List.append_assoc, List.takeWhile_append_dropWhile, ht]
    · cases hrun
  · rintro ⟨after, rfl, hid, hafter⟩
    have hmark : afterMark? (formatTag identifier ++ after) = some (identifier ++ after) := rfl
    have hrun : (identifier ++ after).takeWhile isIdentifierChar = identifier := by
      rw [takeWhile_append identifier hafter, List.takeWhile_eq_self_iff.2 (isWord_of_isIdentifier hid)]
    rw [tagAtStart?, hmark, Option.bind_some]
    simp only [hrun, hid, if_true]

/-- A tag that ends in the first of two texts is one of the first text alone. -/
theorem tagAtStart?_of_append (h : tagAtStart? (u ++ v) = some identifier) (hlength : (formatTag identifier).length ≤ u.length) :
    tagAtStart? u = some identifier := by
  obtain ⟨after, heq, hid, hafter⟩ := tagAtStart?_eq_some_iff.1 h
  obtain ⟨rest, rfl⟩ : formatTag identifier <+: u :=
    List.prefix_of_prefix_length_le ⟨after, heq.symm⟩ (List.prefix_append u v) hlength
  rw [List.append_assoc, List.append_cancel_left_eq] at heq
  refine tagAtStart?_eq_some_iff.2 ⟨rest, rfl, hid, fun c hc => hafter c ?_⟩
  cases rest with
  | nil => cases hc
  | cons d rest => exact heq ▸ hc

/-- A tag that starts in the first text is found there, if the second cannot go on with it. -/
theorem tagAtStart?_drop_append {i : Nat} (hi : i < u.length) (hv : StartsIn EndsRun v) :
    tagAtStart? ((u ++ v).drop i) = tagAtStart? (u.drop i) := by
  have hne : u.drop i ≠ [] := fun hnil => absurd (List.drop_eq_nil_iff.1 hnil) (Nat.not_le.2 hi)
  rw [List.drop_append_of_le_length hi.le]
  exact tagAtStart?_append hne hv

theorem IsSpacedTag.isPlain (hs : IsSpacedTag s) : ∀ c ∈ s, CommentedLine.IsPlain c := by
  obtain ⟨identifier, hid, rfl | rfl⟩ := hs
  · exact fun c hc => isPlain_of_mem_spacedTag (isWord_of_isIdentifier hid) c (List.mem_cons_of_mem _ hc)
  · exact isPlain_of_mem_spacedTag (isWord_of_isIdentifier hid)

/-- A tag starts in a space or in its mark, and neither belongs to an identifier. -/
theorem IsSpacedTag.startsIn (hs : IsSpacedTag s) (after : Text) : s ≠ [] ∧ StartsIn EndsRun (s ++ after) := by
  obtain ⟨identifier, hid, rfl | rfl⟩ := hs
  · exact ⟨List.cons_ne_nil _ _, startsIn_cons.2 ⟨by decide, by decide⟩⟩
  · exact ⟨List.cons_ne_nil _ _, startsIn_cons.2 ⟨by decide, by decide⟩⟩

/-- It ends in its code, which is not empty. -/
theorem IsSpacedTag.getLast?_ne (hs : IsSpacedTag s) : s.getLast? ≠ some ' ' := by
  have hlast : ∀ {identifier : Text}, isIdentifier identifier → (formatTag identifier).getLast? ≠ some ' ' := by
    intro identifier hid hspace
    have hmem := List.mem_of_getLast? hspace
    rcases List.mem_append.1 hmem with hmark | hmem
    · exact absurd hmark (by decide)
    · exact absurd (isWord_of_isIdentifier hid ' ' hmem) (by decide)
  obtain ⟨identifier, hid, rfl | rfl⟩ := hs
  · exact hlast hid
  · rw [show (' ' :: formatTag identifier).getLast? = (formatTag identifier).getLast? from rfl]
    exact hlast hid

theorem spacedTagLength?_space (r : Text) :
    spacedTagLength? (' ' :: r) = (tagAtStart? r).map fun identifier => 1 + tagMark.length + identifier.length := rfl

theorem spacedTagLength?_of_ne (hc : c ≠ ' ') (r : Text) :
    spacedTagLength? (c :: r) = (tagAtStart? (c :: r)).map fun identifier => tagMark.length + identifier.length := by
  unfold spacedTagLength?
  split
  · next heq => exact absurd (List.cons.inj heq).1 hc
  · rfl

theorem spacedTagLength?_append (hs : IsSpacedTag s) (hafter : EndsIdentifier after) :
    spacedTagLength? (s ++ after) = some s.length := by
  obtain ⟨identifier, hid, hs⟩ := hs
  have htag : tagAtStart? (formatTag identifier ++ after) = some identifier :=
    tagAtStart?_eq_some_iff.2 ⟨after, rfl, hid, hafter⟩
  have hlength : (formatTag identifier).length = tagMark.length + identifier.length := List.length_append
  rcases hs with rfl | rfl
  · have hcons : formatTag identifier ++ after = '#' :: ('i' :: 'd' :: ':' :: identifier ++ after) := rfl
    rw [hcons] at htag ⊢
    rw [spacedTagLength?_of_ne (by decide), htag, Option.map_some, hlength]
  · rw [List.cons_append, spacedTagLength?_space, htag, Option.map_some, List.length_cons, hlength]
    exact congrArg some (by omega)

theorem spacedTagLength?_eq_some {n : Nat} (h : spacedTagLength? t = some n) :
    ∃ s after, t = s ++ after ∧ IsSpacedTag s ∧ s.length = n ∧ EndsIdentifier after := by
  unfold spacedTagLength? at h
  split at h
  · next r =>
    obtain ⟨identifier, htag, rfl⟩ := Option.map_eq_some_iff.1 h
    obtain ⟨after, rfl, hid, hafter⟩ := tagAtStart?_eq_some_iff.1 htag
    refine ⟨' ' :: formatTag identifier, after, rfl, ⟨identifier, hid, .inr rfl⟩, ?_, hafter⟩
    rw [List.length_cons, formatTag, List.length_append]
    omega
  · obtain ⟨identifier, htag, rfl⟩ := Option.map_eq_some_iff.1 h
    obtain ⟨after, rfl, hid, hafter⟩ := tagAtStart?_eq_some_iff.1 htag
    exact ⟨formatTag identifier, after, rfl, ⟨identifier, hid, .inl rfl⟩, List.length_append, hafter⟩

theorem spacedTagLength?_ne_none (h : tagAtStart? t = some identifier) : spacedTagLength? t ≠ none := by
  obtain ⟨after, rfl, hid, hafter⟩ := tagAtStart?_eq_some_iff.1 h
  rw [spacedTagLength?_append ⟨identifier, hid, .inl rfl⟩ hafter]
  exact Option.some_ne_none _

/-- What stands behind a text makes no difference to the tag at its start if it cannot go on with it. -/
theorem spacedTagLength?_append_of_endsRun (hs : s ≠ []) (hr : StartsIn EndsRun r) (hspace : s = [' '] → r.head? ≠ some '#') :
    spacedTagLength? (s ++ r) = spacedTagLength? s := by
  cases s with
  | nil => exact absurd rfl hs
  | cons c s =>
    by_cases hc : c = ' '
    · subst hc
      simp only [List.cons_append, spacedTagLength?]
      cases s with
      | nil =>
        cases r with
        | nil => rfl
        | cons d r =>
          have hd : d ≠ '#' := fun heq => hspace rfl (congrArg some heq)
          rw [List.nil_append, tagAtStart?_cons_of_ne hd]
          rfl
      | cons d s => rw [tagAtStart?_append (List.cons_ne_nil d s) hr]
    · rw [List.cons_append, spacedTagLength?_of_ne hc, spacedTagLength?_of_ne hc, ← List.cons_append,
        tagAtStart?_append (List.cons_ne_nil c s) hr]

/-! ## Taking the tags out -/

@[simp] theorem withoutTags_nil : withoutTags [] = [] := rfl

theorem eraseTagsAfter_eq (n : Nat) (t : Text) : eraseTagsAfter n t = withoutTags (t.drop n) := by
  induction n generalizing t with
  | zero => rfl
  | succ n ih =>
    cases t with
    | nil => rfl
    | cons c r => exact ih r

theorem withoutTags_cons (h : spacedTagLength? (c :: r) = none) : withoutTags (c :: r) = c :: withoutTags r := by
  rw [withoutTags, eraseTagsAfter, h]
  rfl

theorem withoutTags_tag (hs : IsSpacedTag s) (hafter : EndsIdentifier after) : withoutTags (s ++ after) = withoutTags after := by
  have hlength := spacedTagLength?_append hs hafter
  cases s with
  | nil => exact absurd rfl (hs.startsIn []).1
  | cons c s =>
    rw [List.cons_append] at hlength
    rw [withoutTags, List.cons_append, eraseTagsAfter, hlength]
    dsimp only
    rw [eraseTagsAfter_eq, List.length_cons, Nat.add_sub_cancel, List.drop_left]

/-- Induction along the pass that takes the tags out. -/
theorem tagInduction {motive : Text → Prop} (nil : motive [])
    (tag : ∀ s after, IsSpacedTag s → EndsIdentifier after → motive after → motive (s ++ after))
    (other : ∀ c r, spacedTagLength? (c :: r) = none → motive r → motive (c :: r)) (t : Text) : motive t := by
  induction hn : t.length using Nat.strong_induction_on generalizing t with
  | _ n ih =>
    subst hn
    cases t with
    | nil => exact nil
    | cons c r =>
      cases h : spacedTagLength? (c :: r) with
      | none => exact other c r h (ih r.length (Nat.lt_succ_self _) r rfl)
      | some n =>
        obtain ⟨s, after, heq, hs, -, hafter⟩ := spacedTagLength?_eq_some h
        have hlt : after.length < (c :: r).length := by
          have hpos := List.length_pos_iff.2 (hs.startsIn []).1
          rw [heq, List.length_append]
          omega
        rw [heq]
        exact tag s after hs hafter (ih after.length hlt after rfl)

theorem withoutTags_append (s : Text) (hr : StartsIn EndsRun r) (hspace : s.getLast? = some ' ' → r.head? ≠ some '#') :
    withoutTags (s ++ r) = withoutTags s ++ withoutTags r := by
  induction s using tagInduction with
  | nil => rfl
  | tag s after hs hafter ih =>
    have hends : EndsIdentifier (after ++ r) := by
      cases after with
      | nil => exact hr.mono fun _ hc => hc.1
      | cons c after => exact startsIn_cons.2 (startsIn_cons.1 hafter)
    rw [List.append_assoc, withoutTags_tag hs hends, withoutTags_tag hs hafter]
    refine ih fun hlast => hspace ?_
    rw [List.getLast?_append, hlast, Option.some_or]
  | other c s hnone ih =>
    have hhead : spacedTagLength? (c :: s ++ r) = none := by
      rw [spacedTagLength?_append_of_endsRun (List.cons_ne_nil c s) hr, hnone]
      exact fun heq => hspace (by rw [heq]; rfl)
    have hlast : s.getLast? = some ' ' → (c :: s).getLast? = some ' ' := by
      intro hlast
      rw [List.getLast?_cons, hlast, Option.getD_some]
    rw [List.cons_append] at hhead ⊢
    rw [withoutTags_cons hnone, withoutTags_cons hhead, ih fun h => hspace (hlast h), List.cons_append]

theorem length_withoutTags_le (t : Text) : (withoutTags t).length ≤ t.length := by
  induction t using tagInduction with
  | nil => exact Nat.le_refl _
  | tag s after hs hafter ih =>
    rw [withoutTags_tag hs hafter, List.length_append]
    omega
  | other c r hnone ih =>
    rw [withoutTags_cons hnone]
    exact Nat.succ_le_succ ih

theorem mem_of_mem_withoutTags (h : c ∈ withoutTags t) : c ∈ t := by
  induction t using tagInduction with
  | nil => exact h
  | tag s after hs hafter ih =>
    rw [withoutTags_tag hs hafter] at h
    exact List.mem_append_right s (ih h)
  | other d r hnone ih =>
    rw [withoutTags_cons hnone] at h
    rcases List.mem_cons.1 h with rfl | h
    · exact List.mem_cons_self
    · exact List.mem_cons_of_mem d (ih h)

/-! ## Gaps -/

theorem Gap.withoutTags_eq (h : Gap t before after) : withoutTags t = withoutTags before ++ withoutTags after := by
  obtain ⟨s, hs, rfl, hafter, hspace⟩ := h
  have hne : s ≠ [] := (hs.startsIn after).1
  have hhead : (s ++ after).head? = s.head? := List.head?_append_of_ne_nil s hne
  rw [withoutTags_append before (hs.startsIn after).2 (hhead ▸ hspace), withoutTags_tag hs hafter]

/-- A text that starts in a tag has a gap at its start. -/
theorem gap_nil (hs : IsSpacedTag s) (hafter : EndsIdentifier after) : Gap (s ++ after) [] after :=
  ⟨s, hs, rfl, hafter, fun hlast => nomatch hlast⟩

theorem Gap.append_tag (h : Gap t before after) (hs : IsSpacedTag s) : Gap (s ++ t) (s ++ before) after := by
  obtain ⟨s', hs', rfl, hafter, hspace⟩ := h
  refine ⟨s', hs', (List.append_assoc _ _ _).symm, hafter, fun hlast => ?_⟩
  rw [List.getLast?_append] at hlast
  cases hbefore : before.getLast? with
  | none =>
    rw [hbefore, Option.none_or] at hlast
    exact absurd hlast hs.getLast?_ne
  | some d =>
    rw [hbefore, Option.some_or] at hlast
    exact hspace (hbefore.trans hlast)

/-- A character before the text belongs to none of its tags, unless it is the space of a tag at the start. -/
theorem Gap.cons (h : Gap r before after) (hnone : spacedTagLength? (c :: r) = none) : Gap (c :: r) (c :: before) after := by
  obtain ⟨s, hs, rfl, hafter, hspace⟩ := h
  refine ⟨s, hs, rfl, hafter, fun hlast hhead => ?_⟩
  cases before with
  | nil =>
    obtain rfl : c = ' ' := Option.some.inj hlast
    obtain ⟨identifier, hid, rfl | rfl⟩ := hs
    · rw [List.nil_append, ← List.cons_append, spacedTagLength?_append ⟨identifier, hid, .inr rfl⟩ hafter] at hnone
      exact Option.some_ne_none _ hnone
    · exact absurd hhead (by simp)
  | cons d before =>
    rw [List.getLast?_cons_cons] at hlast
    exact hspace hlast hhead

/-- What comes before a gap starts in a tag only if the whole text does. -/
theorem Gap.spacedTagLength?_eq_none (h : Gap t (c :: before) after) (hnone : spacedTagLength? t = none) :
    spacedTagLength? (c :: before) = none := by
  obtain ⟨s, hs, rfl, -, hspace⟩ := h
  rwa [spacedTagLength?_append_of_endsRun (List.cons_ne_nil c before) (hs.startsIn after).2] at hnone
  intro heq
  rw [heq] at hspace
  rw [List.head?_append_of_ne_nil s (hs.startsIn after).1]
  exact hspace rfl

/-- A text has no tags, or a first one. -/
theorem withoutTags_eq_self_or_gap (t : Text) :
    withoutTags t = t ∨ ∃ before after, Gap t before after ∧ withoutTags before = before := by
  induction t using tagInduction with
  | nil => exact .inl rfl
  | tag s after hs hafter ih => exact .inr ⟨[], after, gap_nil hs hafter, rfl⟩
  | other c r hnone ih =>
    rcases ih with hsame | ⟨before, after, hgap, hsame⟩
    · exact .inl (by rw [withoutTags_cons hnone, hsame])
    · have hgap' := hgap.cons hnone
      refine .inr ⟨c :: before, after, hgap', ?_⟩
      rw [withoutTags_cons (hgap'.spacedTagLength?_eq_none hnone), hsame]

/-- A text with a tag becomes shorter. -/
theorem Gap.length_lt (h : Gap t before after) : (withoutTags t).length < t.length := by
  have hbefore := length_withoutTags_le before
  have hafter := length_withoutTags_le after
  rw [h.withoutTags_eq]
  obtain ⟨s, hs, rfl, -, -⟩ := h
  have hpos := List.length_pos_iff.2 (hs.startsIn after).1
  simp only [List.length_append]
  omega

/-! ## Tags that are left -/

/-- A tag that is left starts before a gap and ends behind it. -/
theorem exists_joins {i : Nat} (h : tagAtStart? ((withoutTags t).drop i) = some identifier) :
    ∃ before after, Gap t before after ∧ Joins (withoutTags before) (withoutTags after) i := by
  induction t using tagInduction generalizing i with
  | nil =>
    rw [withoutTags_nil, List.drop_nil] at h
    cases h
  | tag s after hs hafter ih =>
    rw [withoutTags_tag hs hafter] at h
    obtain ⟨before, after', hgap, hjoins⟩ := ih h
    refine ⟨s ++ before, after', hgap.append_tag hs, ?_⟩
    have hbefore : EndsIdentifier before := by
      obtain ⟨s', -, rfl, -, -⟩ := hgap
      cases before with
      | nil => exact startsIn_nil
      | cons c before => exact startsIn_cons.2 (startsIn_cons.1 hafter)
    rwa [withoutTags_tag hs hbefore]
  | other c r hnone ih =>
    rw [withoutTags_cons hnone] at h
    cases i with
    | succ i =>
      rw [List.drop_succ_cons] at h
      obtain ⟨before, after, hgap, identifier', htag, hstart, hend⟩ := ih h
      have hgap' := hgap.cons hnone
      refine ⟨c :: before, after, hgap', identifier', ?_⟩
      rw [withoutTags_cons (hgap'.spacedTagLength?_eq_none hnone), List.cons_append, List.drop_succ_cons, List.length_cons]
      exact ⟨htag, by omega, by omega⟩
    | zero =>
      rw [List.drop_zero] at h
      rcases withoutTags_eq_self_or_gap (c :: r) with hsame | ⟨before, after, hgap, hsame⟩
      · rw [← withoutTags_cons hnone, hsame] at h
        exact absurd hnone (spacedTagLength?_ne_none h)
      · rw [← withoutTags_cons hnone, hgap.withoutTags_eq, hsame] at h
        obtain ⟨s, hs, heq, hafter, hspace⟩ := id hgap
        have hne : before ≠ [] := by
          rintro rfl
          rw [heq, List.nil_append, spacedTagLength?_append hs hafter] at hnone
          exact Option.some_ne_none _ hnone
        refine ⟨before, after, hgap, identifier, ?_⟩
        rw [hsame, List.drop_zero]
        refine ⟨h, List.length_pos_iff.2 hne, ?_⟩
        -- a tag that ended before the gap was one of the text, at its start
        by_contra hle
        have htag := tagAtStart?_of_append h (by omega)
        rw [← tagAtStart?_append hne (hs.startsIn after).2, ← heq] at htag
        exact absurd hnone (spacedTagLength?_ne_none htag)

theorem tagAtStart?_of_joins {i : Nat} (hgap : Gap t before after) (h : Joins (withoutTags before) (withoutTags after) i) :
    i < (withoutTags t).length ∧ ∃ identifier, tagAtStart? ((withoutTags t).drop i) = some identifier := by
  obtain ⟨identifier, htag, hstart, -⟩ := h
  rw [hgap.withoutTags_eq, List.length_append]
  exact ⟨by omega, identifier, htag⟩

end LineTags
