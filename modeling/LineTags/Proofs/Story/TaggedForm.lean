import LineTags.Proofs.Story.TaggedBody
import LineTags.Proofs.Story.Words

/-!
# The form of a line with a tag

A line with narrative keeps its form when a tag is added at its end, except for a stub: a line that would be an include or a declaration if something stood behind it. The added tag is that something. A choice with a bracketed part cannot be a stub, and the tag is put behind everything that tells its form.
-/

namespace LineTags

open Text

namespace LineForm

/-- The narrative part of a line, with the role of its branch and with the brackets it may have. -/
def narrative? : LineForm → Option (Role × BracketState × Text)
  | divert body => some (.divert [], .notAllowed, body)
  | choice body => some (.choice, .awaited, body)
  | gather body => some (.gather, .notAllowed, body)
  | narrative body => some (.line, .notAllowed, body)
  | _ => none

/-- Whether a declaration ends at its equals sign. -/
def lacksValue (t : Text) : Bool :=
  !(wordAtStart t).isEmpty && stripStart (t.drop (wordAtStart t).length) == ['=']

/-- Whether a code is no narrative any more when a word comes behind it. -/
def isStub (code : Text) : Bool :=
  code == "INCLUDE".toList || declarationWords.contains code ||
    declarationWords.any fun word => (afterWord? word code).any lacksValue

/-- What tells narrative from everything else. -/
structure IsNarrative (code : Text) : Prop where
  nonempty : code.isEmpty = false
  noInclude : (afterWord? "INCLUDE".toList code).filter (!·.isEmpty) = none
  noKnot : startsWith ['=', '='] code = false
  noStitch : startsWith ['='] code = false
  noLogic : startsWith ['~'] code = false
  noDeclaration : declaration? code = none
  notBroken : (declarationWords.any fun word => startsWith (word ++ [' ']) code) = false

/-- The form of a line with narrative. -/
def ofNarrative (code : Text) : LineForm :=
  if startsWith ['-', '>'] code then divert code
  else if marksLength isChoiceMark code ≠ 0 then
    choice (dropLabel (stripStart (code.drop (marksLength isChoiceMark code))))
  else if marksLength isGatherMark code ≠ 0 then gather (dropLabel (afterGatherMarks code))
  else narrative code

variable {t u : Text}

theorem ofCode_of_isNarrative (h : IsNarrative t) : ofCode t = ofNarrative t := by
  unfold ofCode
  rw [h.nonempty, h.noInclude, h.noKnot, h.noStitch, h.noLogic, h.noDeclaration, h.notBroken]
  rfl

theorem narrative?_ofLogic (body : Text) : (ofLogic body).narrative? = none := by
  unfold ofLogic
  dsimp only
  split <;> rfl

theorem isNarrative_of_narrative? {found : Role × BracketState × Text} (h : (ofCode t).narrative? = some found) :
    IsNarrative t := by
  unfold ofCode at h
  split at h
  · cases h
  next hempty =>
  split at h
  · cases h
  next hinclude =>
  split at h
  · cases h
  next hknot =>
  split at h
  · cases h
  next hstitch =>
  split at h
  · rw [narrative?_ofLogic] at h
    cases h
  next hlogic =>
  split at h
  · cases h
  next hdeclaration =>
  split at h
  · cases h
  next hbroken =>
  exact ⟨Bool.of_not_eq_true hempty, hinclude, Bool.of_not_eq_true hknot, Bool.of_not_eq_true hstitch,
    Bool.of_not_eq_true hlogic, hdeclaration, Bool.of_not_eq_true hbroken⟩

/-! ### Declarations -/

theorem wordAtStart_append (t u : Text) : wordAtStart (t ++ ' ' :: u) = wordAtStart t :=
  takeWhile_append t (startsIn_cons.2 (by decide +kernel))

theorem length_wordAtStart_le (t : Text) : (wordAtStart t).length ≤ t.length := List.takeWhile_prefix _ |>.length_le

theorem endsDark_drop (ht : EndsDark t) (n : Nat) : EndsDark (t.drop n) := by
  rw [← List.take_append_drop n t] at ht
  exact endsDark_of_append ht

/-- What is assigned, if something is, once the tag stands behind it. -/
theorem assignment?_append (ht : EndsDark t) :
    (assignment? (after? ['=']) (t ++ ' ' :: '#' :: u)).isSome =
      ((assignment? (after? ['=']) t).isSome || lacksValue t) := by
  have hdark := endsDark_drop ht (wordAtStart t).length
  unfold assignment? lacksValue
  dsimp only
  rw [wordAtStart_append, List.drop_append_of_le_length (length_wordAtStart_le t), stripStart_append_tag hdark]
  split
  · next hnil =>
    rw [hnil]
    show false = (false || (_ && false))
    rw [Bool.and_false, Bool.or_false]
  · next hne =>
    rw [after?_append (by decide)]
    cases hafter : after? ['='] (stripStart (t.drop (wordAtStart t).length)) with
    | none =>
      have hne : stripStart (t.drop (wordAtStart t).length) ≠ ['='] := by
        intro heq
        rw [heq] at hafter
        cases hafter
      rw [beq_false_of_ne hne, Bool.and_false]
      rfl
    | some r =>
      have hsplit := eq_append_of_after? hafter
      have hr : EndsDark r := endsDark_of_append (hsplit ▸ endsDark_stripStart hdark)
      have hvalue : (strip (r ++ ' ' :: '#' :: u)).isEmpty = false := by
        have hmem : '#' ∈ strip (r ++ ' ' :: '#' :: u) := mem_strip (by simp) (by decide)
        rw [List.isEmpty_eq_false_iff]
        exact List.ne_nil_of_mem hmem
      rw [Option.map_some, Option.bind_some, Option.bind_some, hvalue, hsplit, Bool.or_false]
      cases hname : (wordAtStart t).isEmpty with
      | true => rfl
      | false =>
        rcases r with _ | ⟨c, r⟩
        · rfl
        · have hstrip : (strip (c :: r)).isEmpty = false := by
            rw [List.isEmpty_eq_false_iff, strip, stripEnd_of_endsDark (endsDark_stripStart hr)]
            exact stripStart_ne_nil (isBlankText_eq_false hr (List.cons_ne_nil _ _))
          rw [hstrip]
          rfl

theorem isSome_declaration? (t : Text) :
    (declaration? t).isSome =
      declarationWords.any fun word => ((afterWord? word t).bind (assignment? (after? ['=']))).isSome := by
  unfold declaration?
  induction declarationWords with
  | nil => rfl
  | cons word words ih =>
    rw [List.findSome?_cons, List.any_cons]
    cases h : (afterWord? word t).bind (assignment? (after? ['='])) with
    | none => exact ih
    | some found => rfl

theorem space_not_mem_declarationWords : ∀ word ∈ declarationWords, ' ' ∉ word := by decide

theorem after?_append_word (word last t : Text) : after? (word ++ last) t = (after? word t).bind (after? last) := by
  induction word generalizing t with
  | nil => rfl
  | cons a word ih =>
    cases t with
    | nil => rfl
    | cons c t =>
      rw [List.cons_append, after?_cons, after?_cons]
      split
      · exact ih t
      · rfl

/-- A word with a blank behind it is found if it was found before or stood alone. -/
theorem startsWith_spaced {word : Text} (hword : ' ' ∉ word) (t u : Text) :
    startsWith (word ++ [' ']) (t ++ ' ' :: u) = (startsWith (word ++ [' ']) t || t == word) := by
  rw [startsWith_eq, startsWith_eq, after?_append_word, after?_append_word, after?_append hword]
  cases hafter : after? word t with
  | none =>
    have hne : t ≠ word := by
      rintro rfl
      have := after?_self t []
      rw [List.append_nil, hafter] at this
      cases this
    rw [beq_false_of_ne hne]
    rfl
  | some r =>
    have hsplit := eq_append_of_after? hafter
    rw [Option.map_some, Option.bind_some, Option.bind_some]
    cases r with
    | nil =>
      have heq : t = word := hsplit.trans (List.append_nil word)
      rw [heq, BEq.rfl, Bool.or_true]
      rfl
    | cons c r =>
      have hne : t ≠ word := by
        rintro rfl
        have hlength := congrArg List.length hsplit
        simp at hlength
      rw [beq_false_of_ne hne, Bool.or_false, List.cons_append, after?_cons, after?_cons]
      split <;> rfl

theorem any_startsWith_spaced (t u : Text) :
    (declarationWords.any fun word => startsWith (word ++ [' ']) (t ++ ' ' :: u)) =
      ((declarationWords.any fun word => startsWith (word ++ [' ']) t) || declarationWords.contains t) := by
  have hwords : ∀ words : List Text, (∀ word ∈ words, ' ' ∉ word) →
      (words.any fun word => startsWith (word ++ [' ']) (t ++ ' ' :: u)) =
        ((words.any fun word => startsWith (word ++ [' ']) t) || words.contains t) := by
    intro words hspace
    induction words with
    | nil => rfl
    | cons word words ih =>
      rw [List.any_cons, List.any_cons, ih fun w hw => hspace w (List.mem_cons_of_mem _ hw), List.contains_cons,
        startsWith_spaced (hspace word List.mem_cons_self)]
      cases startsWith (word ++ [' ']) t <;> cases t == word <;> simp
  exact hwords declarationWords space_not_mem_declarationWords

theorem declares_append {word : Text} (hword : ' ' ∉ word) (ht : EndsDark t) (hne : t ≠ word) :
    ((afterWord? word (t ++ ' ' :: '#' :: u)).bind (assignment? (after? ['=']))).isSome =
      (((afterWord? word t).bind (assignment? (after? ['=']))).isSome || (afterWord? word t).any lacksValue) := by
  rw [afterWord?_append hword ht hne]
  cases hafter : afterWord? word t with
  | none => rfl
  | some r =>
    rw [Option.map_some, Option.bind_some, Option.bind_some, Option.any_some]
    exact assignment?_append (endsDark_of_afterWord? ht hafter).1

/-! ### Stubs -/

/-- Narrative does not start with an `INCLUDE` that has something behind it. -/
theorem afterWord?_inclusion (ht : EndsDark t) (h : IsNarrative t) : afterWord? "INCLUDE".toList t = none := by
  cases hafter : afterWord? "INCLUDE".toList t with
  | none => rfl
  | some r =>
    have hnone := h.noInclude
    rw [hafter, Option.filter_some, List.isEmpty_eq_false_iff.2 (endsDark_of_afterWord? ht hafter).2] at hnone
    cases hnone

theorem not_isNarrative_append (ht : EndsDark t) (hstub : isStub t = true) : ¬IsNarrative (t ++ ' ' :: '#' :: u) := by
  intro hnew
  rw [isStub, Bool.or_eq_true, Bool.or_eq_true] at hstub
  rcases hstub with (hstub | hstub) | hstub
  · have hnone := hnew.noInclude
    rw [eq_of_beq hstub, afterWord?_alone] at hnone
    cases hnone
  · have hnone := hnew.notBroken
    rw [any_startsWith_spaced, hstub, Bool.or_true] at hnone
    cases hnone
  · obtain ⟨word, hword, hlacks⟩ := List.any_eq_true.1 hstub
    have hne : t ≠ word := by
      rintro rfl
      rw [afterWord?_self] at hlacks
      cases hlacks
    have hsome : (declaration? (t ++ ' ' :: '#' :: u)).isSome := by
      rw [isSome_declaration?, List.any_eq_true]
      refine ⟨word, hword, ?_⟩
      rw [declares_append (space_not_mem_declarationWords word hword) ht hne, hlacks, Bool.or_true]
    rw [hnew.noDeclaration] at hsome
    cases hsome

theorem isNarrative_append (ht : EndsDark t) (h : IsNarrative t) (hstub : isStub t = false) :
    IsNarrative (t ++ ' ' :: '#' :: u) := by
  rw [isStub, Bool.or_eq_false_iff, Bool.or_eq_false_iff] at hstub
  obtain ⟨⟨hword, hdeclared⟩, hlacks⟩ := hstub
  refine ⟨?_, ?_, ?_, ?_, ?_, ?_, ?_⟩
  · exact List.isEmpty_eq_false_iff.2 (by simp)
  · rw [afterWord?_append (by decide) ht (ne_of_beq_false hword), afterWord?_inclusion ht h]
    rfl
  · rw [startsWith_append (by decide)]
    exact h.noKnot
  · rw [startsWith_append (by decide)]
    exact h.noStitch
  · rw [startsWith_append (by decide)]
    exact h.noLogic
  · rw [← Option.not_isSome_iff_eq_none, isSome_declaration?, List.any_eq_true]
    rintro ⟨word, hmem, hsome⟩
    have hne : t ≠ word := by
      rintro rfl
      rw [List.contains_iff_mem.2 hmem] at hdeclared
      cases hdeclared
    rw [declares_append (space_not_mem_declarationWords word hmem) ht hne, Bool.or_eq_true] at hsome
    rcases hsome with hsome | hsome
    · have hold : (declaration? t).isSome := by
        rw [isSome_declaration?, List.any_eq_true]
        exact ⟨word, hmem, hsome⟩
      rw [h.noDeclaration] at hold
      cases hold
    · rw [List.any_eq_false] at hlacks
      exact hlacks word hmem hsome
  · rw [any_startsWith_spaced, h.notBroken, hdeclared]
    rfl

/-- A line that is narrative with a tag behind it was narrative before, and no stub. -/
theorem isNarrative_of_append (ht : EndsDark t) (hne : t ≠ []) (h : IsNarrative (t ++ ' ' :: '#' :: u)) :
    IsNarrative t ∧ isStub t = false := by
  have hstub : isStub t = false := Bool.of_not_eq_true fun hstub => not_isNarrative_append ht hstub h
  have hword : t ≠ "INCLUDE".toList := by
    rintro rfl
    exact absurd hstub (by decide)
  refine ⟨⟨List.isEmpty_eq_false_iff.2 hne, ?_, ?_, ?_, ?_, ?_, ?_⟩, hstub⟩
  · have hnone := h.noInclude
    rw [afterWord?_append (by decide) ht hword] at hnone
    cases hafter : afterWord? "INCLUDE".toList t with
    | none => rfl
    | some r =>
      rw [hafter, Option.map_some, Option.filter_some, List.isEmpty_eq_false_iff.2 (by simp)] at hnone
      cases hnone
  · rw [← startsWith_append (u := '#' :: u) (by decide)]
    exact h.noKnot
  · rw [← startsWith_append (u := '#' :: u) (by decide)]
    exact h.noStitch
  · rw [← startsWith_append (u := '#' :: u) (by decide)]
    exact h.noLogic
  · rw [← Option.not_isSome_iff_eq_none, isSome_declaration?, List.any_eq_true]
    rintro ⟨word, hmem, hsome⟩
    have hother : t ≠ word := by
      rintro rfl
      rw [afterWord?_self] at hsome
      cases hsome
    have hnew : (declaration? (t ++ ' ' :: '#' :: u)).isSome := by
      rw [isSome_declaration?, List.any_eq_true]
      refine ⟨word, hmem, ?_⟩
      rw [declares_append (space_not_mem_declarationWords word hmem) ht hother, hsome, Bool.true_or]
    rw [h.noDeclaration] at hnew
    cases hnew
  · have hbroken := h.notBroken
    rw [any_startsWith_spaced, Bool.or_eq_false_iff] at hbroken
    exact hbroken.1

/-! ### The narrative part -/

/-- What a label leaves, given what was read as its name and what stands behind the name. -/
def behindLabel (t name closing : Text) : Text :=
  match closing, name with
  | ')' :: s, _ :: _ => stripStart s
  | _, _ => t

theorem dropLabel_paren (r : Text) :
    dropLabel ('(' :: r) =
      behindLabel ('(' :: r) ((stripStart r).takeWhile isWordChar) (stripStart ((stripStart r).dropWhile isWordChar)) := by
  rfl

theorem dropLabel_other {t : Text} (ht : t.head? ≠ some '(') : dropLabel t = t := by
  unfold dropLabel
  split
  · exact absurd rfl ht
  · rfl

theorem behindLabel_cases (t name closing : Text) :
    (∃ s, closing = ')' :: s ∧ name ≠ [] ∧ behindLabel t name closing = stripStart s) ∨
    ((name = [] ∨ closing.head? ≠ some ')') ∧ behindLabel t name closing = t) := by
  unfold behindLabel
  split
  · next s c name => exact .inl ⟨s, rfl, List.cons_ne_nil _ _, rfl⟩
  · next hnot =>
    refine .inr ⟨?_, rfl⟩
    by_contra hboth
    rw [not_or, not_not] at hboth
    obtain ⟨hname, hclosing⟩ := hboth
    obtain ⟨c, name, rfl⟩ := List.exists_cons_of_ne_nil hname
    obtain ⟨s, rfl⟩ := List.head?_eq_some_iff.1 hclosing
    exact hnot s c name rfl rfl

theorem behindLabel_of_not (t : Text) {name closing : Text} (h : name = [] ∨ closing.head? ≠ some ')') :
    behindLabel t name closing = t := by
  obtain ⟨s, rfl, hname, -⟩ | ⟨-, heq⟩ := behindLabel_cases t name closing
  · rcases h with h | h
    · exact absurd h hname
    · exact absurd rfl h
  · exact heq

theorem behindLabel_of_close (t s : Text) {name : Text} (h : name ≠ []) : behindLabel t name (')' :: s) = stripStart s := by
  obtain ⟨c, name, rfl⟩ := List.exists_cons_of_ne_nil h
  rfl

/-- A label is told without what follows it. -/
theorem dropLabel_append (ht : EndsDark t) (hne : dropLabel t ≠ []) :
    dropLabel (t ++ ' ' :: '#' :: u) = dropLabel t ++ ' ' :: '#' :: u ∧ EndsDark (dropLabel t) := by
  have hword : StartsIn (isWordChar · = false) (' ' :: '#' :: u) := startsIn_cons.2 (by decide +kernel)
  have hempty : t ≠ [] := by
    rintro rfl
    exact hne rfl
  by_cases hc : t.head? = some '('
  · obtain ⟨r, rfl⟩ := List.head?_eq_some_iff.1 hc
    by_cases hr : r = []
    · subst hr
      exact ⟨rfl, ht⟩
    have hdark : EndsDark r := by rwa [endsDark_cons hr] at ht
    have hbehind : EndsDark ((stripStart r).dropWhile isWordChar) := by
      have hsplit := List.takeWhile_append_dropWhile (p := isWordChar) (l := stripStart r)
      exact endsDark_of_append (hsplit ▸ endsDark_stripStart hdark)
    rw [List.cons_append, dropLabel_paren, dropLabel_paren, stripStart_append_tag hdark, if_neg hr,
      dropWhile_append _ hword, takeWhile_append _ hword, stripStart_append_tag hbehind]
    rw [dropLabel_paren] at hne
    obtain ⟨s, hclosing, hname, heq⟩ | ⟨hnot, heq⟩ := behindLabel_cases ('(' :: r)
      ((stripStart r).takeWhile isWordChar) (stripStart ((stripStart r).dropWhile isWordChar))
    · have hnil : (stripStart r).dropWhile isWordChar ≠ [] := by
        intro hnil
        rw [hnil] at hclosing
        cases hclosing
      have hs : s ≠ [] := by
        rintro rfl
        rw [heq] at hne
        exact hne rfl
      have hend : EndsDark s := by
        have hend := endsDark_stripStart hbehind
        rwa [hclosing, endsDark_cons hs] at hend
      rw [if_neg hnil, heq, hclosing, List.cons_append, behindLabel_of_close _ _ hname, stripStart_append_tag hend,
        if_neg hs]
      exact ⟨rfl, endsDark_stripStart hend⟩
    · rw [heq, behindLabel_of_not]
      · exact ⟨rfl, ht⟩
      · refine hnot.imp_right fun hhead => ?_
        split
        · exact fun h => absurd (Option.some.inj h) (by decide)
        · next hnil =>
          rwa [List.head?_append_of_ne_nil]
          exact stripStart_ne_nil (isBlankText_eq_false hbehind hnil)
  · rw [dropLabel_other hc, dropLabel_other]
    · exact ⟨rfl, ht⟩
    · rwa [List.head?_append_of_ne_nil _ hempty]

theorem afterGatherMarks_append (ht : EndsDark t) (hdrop : t.drop (marksLength isGatherMark t) ≠ []) :
    afterGatherMarks (t ++ ' ' :: '#' :: u) = afterGatherMarks t ++ ' ' :: '#' :: u ∧ EndsDark (afterGatherMarks t) := by
  have hdark := endsDark_drop ht (marksLength isGatherMark t)
  unfold afterGatherMarks
  dsimp only
  constructor
  · rw [marksLength_append (marksLength_tag (by decide) (by decide) u), drop_marks_append,
      List.head?_append_of_ne_nil _ hdrop, stripStart_append_tag hdark, if_neg hdrop]
    split <;> rfl
  · split
    · rwa [endsDark_cons hdrop]
    · exact endsDark_stripStart hdark

/-- The tag goes to the end of the narrative part. -/
theorem narrative?_ofNarrative_append (ht : EndsDark t) {role : Role} {state : BracketState} {body : Text}
    (h : (ofNarrative t).narrative? = some (role, state, body)) (hbody : body ≠ []) :
    (ofNarrative (t ++ ' ' :: '#' :: u)).narrative? = some (role, state, body ++ ' ' :: '#' :: u) ∧ EndsDark body := by
  unfold ofNarrative at h ⊢
  rw [startsWith_append (by decide), marksLength_append (marksLength_tag (by decide) (by decide) u),
    marksLength_append (marksLength_tag (by decide) (by decide) u)]
  split at h
  · next hdivert =>
    rw [if_pos hdivert]
    obtain ⟨rfl, heq⟩ := Prod.mk.inj (Option.some.inj h)
    obtain ⟨rfl, rfl⟩ := Prod.mk.inj heq
    exact ⟨rfl, ht⟩
  next hdivert =>
  rw [if_neg hdivert]
  split at h
  · next hchoice =>
    rw [if_pos hchoice, drop_marks_append]
    obtain ⟨rfl, heq⟩ := Prod.mk.inj (Option.some.inj h)
    obtain ⟨rfl, rfl⟩ := Prod.mk.inj heq
    have hdark := endsDark_drop ht (marksLength isChoiceMark t)
    have hdrop : t.drop (marksLength isChoiceMark t) ≠ [] := by
      intro hnil
      rw [hnil] at hbody
      exact hbody rfl
    rw [stripStart_append_tag hdark, if_neg hdrop]
    obtain ⟨heq, hend⟩ := dropLabel_append (u := u) (endsDark_stripStart hdark) hbody
    rw [heq]
    exact ⟨rfl, hend⟩
  next hchoice =>
  rw [if_neg hchoice]
  split at h
  · next hgather =>
    rw [if_pos hgather]
    obtain ⟨rfl, heq⟩ := Prod.mk.inj (Option.some.inj h)
    obtain ⟨rfl, rfl⟩ := Prod.mk.inj heq
    have hdrop : t.drop (marksLength isGatherMark t) ≠ [] := by
      intro hnil
      unfold afterGatherMarks at hbody
      rw [hnil] at hbody
      exact hbody rfl
    obtain ⟨hmarks, hend⟩ := afterGatherMarks_append (u := u) ht hdrop
    obtain ⟨heq, hend⟩ := dropLabel_append (u := u) hend hbody
    rw [hmarks, heq]
    exact ⟨rfl, hend⟩
  · next hgather =>
    rw [if_neg hgather]
    obtain ⟨rfl, heq⟩ := Prod.mk.inj (Option.some.inj h)
    obtain ⟨rfl, rfl⟩ := Prod.mk.inj heq
    exact ⟨rfl, ht⟩

/-- Behind a label and nothing else the tag is the first that is read. -/
theorem dropLabel_append_of_nil (ht : EndsDark t) (hne : t ≠ []) (hnil : dropLabel t = []) :
    dropLabel (t ++ ' ' :: '#' :: u) = '#' :: u := by
  have hword : StartsIn (isWordChar · = false) (' ' :: '#' :: u) := startsIn_cons.2 (by decide +kernel)
  have hparen : t.head? = some '(' := by
    by_contra hhead
    rw [dropLabel_other hhead] at hnil
    exact hne hnil
  obtain ⟨r, rfl⟩ := List.head?_eq_some_iff.1 hparen
  have hr : r ≠ [] := by
    rintro rfl
    cases hnil
  have hdark : EndsDark r := by rwa [endsDark_cons hr] at ht
  have hbehind : EndsDark ((stripStart r).dropWhile isWordChar) := by
    have hsplit := List.takeWhile_append_dropWhile (p := isWordChar) (l := stripStart r)
    exact endsDark_of_append (hsplit ▸ endsDark_stripStart hdark)
  rw [List.cons_append, dropLabel_paren, stripStart_append_tag hdark, if_neg hr, dropWhile_append _ hword,
    takeWhile_append _ hword, stripStart_append_tag hbehind]
  rw [dropLabel_paren] at hnil
  obtain ⟨s, hclosing, hname, heq⟩ | ⟨-, heq⟩ := behindLabel_cases ('(' :: r)
    ((stripStart r).takeWhile isWordChar) (stripStart ((stripStart r).dropWhile isWordChar))
  · have hclose : (stripStart r).dropWhile isWordChar ≠ [] := by
      intro hnone
      rw [hnone] at hclosing
      cases hclosing
    rw [heq] at hnil
    have hs : s = [] := by
      have hend := endsDark_of_append (s := [')']) (hclosing ▸ endsDark_stripStart hbehind)
      exact eq_nil_of_endsDark hend (isBlankText_iff.2 (List.dropWhile_eq_nil_iff.1 hnil))
    rw [if_neg hclose, hclosing, List.cons_append, behindLabel_of_close _ _ hname, hs]
    rfl
  · rw [heq] at hnil
    cases hnil

/-- Where nothing is left of a line but its marks and its label, the tag is all that is read behind them. -/
theorem narrative?_ofNarrative_append_of_nil (ht : EndsDark t) (hne : t ≠ []) {role : Role} {state : BracketState}
    (h : (ofNarrative t).narrative? = some (role, state, [])) :
    (ofNarrative (t ++ ' ' :: '#' :: u)).narrative? = some (role, state, '#' :: u) := by
  have hhash : dropLabel ('#' :: u) = '#' :: u := rfl
  unfold ofNarrative at h ⊢
  rw [startsWith_append (by decide), marksLength_append (marksLength_tag (by decide) (by decide) u),
    marksLength_append (marksLength_tag (by decide) (by decide) u)]
  split at h
  · exact absurd (Prod.mk.inj (Prod.mk.inj (Option.some.inj h)).2).2 hne
  next hdivert =>
  rw [if_neg hdivert]
  split at h
  · next hchoice =>
    rw [if_pos hchoice, drop_marks_append]
    obtain ⟨rfl, heq⟩ := Prod.mk.inj (Option.some.inj h)
    obtain ⟨rfl, hnil⟩ := Prod.mk.inj heq
    have hdark := endsDark_drop ht (marksLength isChoiceMark t)
    rw [stripStart_append_tag hdark]
    split
    · rw [hhash]
      rfl
    · next hdrop =>
      rw [dropLabel_append_of_nil (endsDark_stripStart hdark) (stripStart_ne_nil (isBlankText_eq_false hdark hdrop)) hnil]
      rfl
  next hchoice =>
  rw [if_neg hchoice]
  split at h
  · next hgather =>
    rw [if_pos hgather]
    obtain ⟨rfl, heq⟩ := Prod.mk.inj (Option.some.inj h)
    obtain ⟨rfl, hnil⟩ := Prod.mk.inj heq
    by_cases hdrop : t.drop (marksLength isGatherMark t) = []
    · have hmarks : afterGatherMarks (t ++ ' ' :: '#' :: u) = '#' :: u := by
        unfold afterGatherMarks
        dsimp only
        rw [marksLength_append (marksLength_tag (by decide) (by decide) u), drop_marks_append, hdrop]
        rfl
      rw [hmarks, hhash]
      rfl
    · obtain ⟨hmarks, hend⟩ := afterGatherMarks_append (u := u) ht hdrop
      have hleft : afterGatherMarks t ≠ [] := by
        unfold afterGatherMarks
        dsimp only
        split
        · exact List.cons_ne_nil _ _
        · exact stripStart_ne_nil (isBlankText_eq_false (endsDark_drop ht _) hdrop)
      rw [hmarks, dropLabel_append_of_nil hend hleft hnil]
      rfl
  · exact absurd (Prod.mk.inj (Prod.mk.inj (Option.some.inj h)).2).2 hne

variable {role : Role} {state : BracketState} {body : Text}

theorem narrative?_append (ht : EndsDark t) (h : (ofCode t).narrative? = some (role, state, body)) (hbody : body ≠ [])
    (hstub : isStub t = false) :
    (ofCode (t ++ ' ' :: '#' :: u)).narrative? = some (role, state, body ++ ' ' :: '#' :: u) := by
  have hnarrative := isNarrative_of_narrative? h
  rw [ofCode_of_isNarrative hnarrative] at h
  rw [ofCode_of_isNarrative (isNarrative_append ht hnarrative hstub)]
  exact (narrative?_ofNarrative_append ht h hbody).1

theorem endsDark_of_narrative? (ht : EndsDark t) (h : (ofCode t).narrative? = some (role, state, body)) (hbody : body ≠ []) :
    EndsDark body := by
  rw [ofCode_of_isNarrative (isNarrative_of_narrative? h)] at h
  exact (narrative?_ofNarrative_append (u := []) ht h hbody).2

/-- What is narrative with a tag behind it was narrative before, and the tag is behind what was read then. -/
theorem narrative?_of_append (ht : EndsDark t) (hne : t ≠ []) {found : Role × BracketState × Text}
    (h : (ofCode (t ++ ' ' :: '#' :: u)).narrative? = some found) :
    ∃ role state body, (ofCode t).narrative? = some (role, state, body) ∧
      (found = (role, state, '#' :: u) ∨ EndsDark body ∧ found = (role, state, body ++ ' ' :: '#' :: u)) := by
  have hnew := isNarrative_of_narrative? h
  obtain ⟨hold, -⟩ := isNarrative_of_append ht hne hnew
  rw [ofCode_of_isNarrative hnew] at h
  rw [ofCode_of_isNarrative hold]
  have hsome : ∃ role state body, (ofNarrative t).narrative? = some (role, state, body) := by
    unfold ofNarrative
    split
    · exact ⟨_, _, _, rfl⟩
    split
    · exact ⟨_, _, _, rfl⟩
    split
    · exact ⟨_, _, _, rfl⟩
    · exact ⟨_, _, _, rfl⟩
  obtain ⟨role, state, body, hform⟩ := hsome
  refine ⟨role, state, body, hform, ?_⟩
  by_cases hbody : body = []
  · rw [hbody] at hform
    rw [narrative?_ofNarrative_append_of_nil ht hne hform] at h
    exact .inl (Option.some.inj h).symm
  · obtain ⟨happend, hdark⟩ := narrative?_ofNarrative_append (u := u) ht hform hbody
    rw [happend] at h
    exact .inr ⟨hdark, (Option.some.inj h).symm⟩

/-- A stub with a tag is an include, a declaration, or neither and wrong. -/
theorem narrative?_append_of_isStub (ht : EndsDark t) (hstub : isStub t = true) :
    (ofCode (t ++ ' ' :: '#' :: u)).narrative? = none := by
  cases hnew : (ofCode (t ++ ' ' :: '#' :: u)).narrative? with
  | none => rfl
  | some found => exact absurd (isNarrative_of_narrative? hnew) (not_isNarrative_append ht hstub)

/-! ### Choices with a bracketed part -/

theorem ofCode_choice {c : Char} (hc : isChoiceMark c) (r : Text) :
    ofCode (c :: r) = choice (dropLabel (stripStart ((c :: r).drop (marksLength isChoiceMark (c :: r))))) := by
  have hmarks : marksLength isChoiceMark (c :: r) ≠ 0 := by
    rw [marksLength, if_pos hc]
    omega
  rw [isChoiceMark, Bool.or_eq_true, beq_iff_eq, beq_iff_eq] at hc
  have hnarrative : IsNarrative (c :: r) := by
    rcases hc with rfl | rfl
    · exact ⟨rfl, rfl, rfl, rfl, rfl, rfl, rfl⟩
    · exact ⟨rfl, rfl, rfl, rfl, rfl, rfl, rfl⟩
  have hdivert : startsWith ['-', '>'] (c :: r) = false := by
    rcases hc with rfl | rfl
    · rfl
    · rfl
  rw [ofCode_of_isNarrative hnarrative, ofNarrative, hdivert, if_pos hmarks]
  rfl

theorem stripStart_append_bracket (p q : Text) : stripStart (p ++ '[' :: q) = stripStart p ++ '[' :: q :=
  dropWhile_append p (startsIn_cons.2 (by decide))

theorem exists_dropLabel_bracket (p : Text) : ∃ p', ∀ q, dropLabel (p ++ '[' :: q) = p' ++ '[' :: q := by
  have hword : ∀ q, StartsIn (isWordChar · = false) ('[' :: q) := fun q => startsIn_cons.2 (by decide +kernel)
  by_cases hp : p.head? = some '('
  · obtain ⟨r, rfl⟩ := List.head?_eq_some_iff.1 hp
    have hread : ∀ q, dropLabel ('(' :: r ++ '[' :: q) = behindLabel ('(' :: r ++ '[' :: q)
        ((stripStart r).takeWhile isWordChar) (stripStart ((stripStart r).dropWhile isWordChar) ++ '[' :: q) := by
      intro q
      rw [List.cons_append, dropLabel_paren, stripStart_append_bracket, dropWhile_append _ (hword q),
        takeWhile_append _ (hword q), stripStart_append_bracket]
    obtain ⟨s, hclosing, hname, -⟩ | ⟨hnot, -⟩ := behindLabel_cases ('(' :: r)
      ((stripStart r).takeWhile isWordChar) (stripStart ((stripStart r).dropWhile isWordChar))
    · refine ⟨stripStart s, fun q => ?_⟩
      rw [hread, hclosing]
      show behindLabel _ _ (')' :: (s ++ '[' :: q)) = _
      rw [behindLabel_of_close _ _ hname, stripStart_append_bracket]
    · refine ⟨'(' :: r, fun q => ?_⟩
      rw [hread, behindLabel_of_not]
      refine hnot.imp_right fun hhead => ?_
      rcases hclosing : stripStart ((stripStart r).dropWhile isWordChar) with _ | ⟨d, s⟩
      · exact fun h => absurd (Option.some.inj h) (by decide)
      · rwa [hclosing] at hhead
  · refine ⟨p, fun q => dropLabel_other ?_⟩
    cases p with
    | nil => exact fun h => absurd (Option.some.inj h) (by decide)
    | cons c p => exact hp

/-- The narrative part of a choice, cut at a bracket behind its marks. -/
theorem exists_ofCode_bracket {c : Char} (hc : isChoiceMark c) (p : Text) :
    ∃ p', ∀ q, ofCode (c :: p ++ '[' :: q) = choice (p' ++ '[' :: q) := by
  obtain ⟨p', hp'⟩ := exists_dropLabel_bracket (stripStart ((c :: p).drop (marksLength isChoiceMark (c :: p))))
  refine ⟨p', fun q => ?_⟩
  have hbracket : marksLength isChoiceMark ('[' :: q) = 0 := marksLength_cons_of_not (by decide) (by decide) q
  have hmarks := marksLength_append hbracket (c :: p)
  rw [List.cons_append] at hmarks ⊢
  rw [ofCode_choice hc, hmarks, ← List.cons_append, drop_marks_append, stripStart_append_bracket, hp']

end LineForm

end LineTags
