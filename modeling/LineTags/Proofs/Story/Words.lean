import LineTags.Proofs.Story.Continuation
import LineTags.Story.LineForm

/-!
# Words at the start of a line

The form of a line is told by the words and marks at its start. An added tag stands behind a blank, and none of the words holds one, so a word is found at the start of the line with the tag exactly if it is found at the start of the line without. What comes behind the word can change: a word that stood alone is followed by a blank now, and a value that was missing is there.
-/

namespace LineTags

open Text LineForm

theorem after?_cons_nil (a : Char) (word : Text) : after? (a :: word) [] = none := rfl

theorem after?_cons (a : Char) (word : Text) (c : Char) (r : Text) :
    after? (a :: word) (c :: r) = if a = c then after? word r else none := by
  unfold after?
  by_cases hac : a = c
  · subst hac
    simp
  · rw [if_neg hac, if_neg]
    simp [hac]

theorem after?_append {word : Text} (hword : ' ' ∉ word) (t u : Text) :
    after? word (t ++ ' ' :: u) = (after? word t).map (· ++ ' ' :: u) := by
  induction word generalizing t with
  | nil => rfl
  | cons a word ih =>
    have hspace : a ≠ ' ' := fun h => hword (h ▸ List.mem_cons_self)
    cases t with
    | nil => rw [List.nil_append, after?_cons, if_neg hspace, after?_cons_nil, Option.map_none]
    | cons c t =>
      rw [List.cons_append, after?_cons, after?_cons]
      split
      · exact ih (fun h => hword (List.mem_cons_of_mem _ h)) t
      · rfl

theorem eq_append_of_after? {word t r : Text} (h : after? word t = some r) : t = word ++ r := by
  induction word generalizing t with
  | nil => exact Option.some.inj h
  | cons a word ih =>
    cases t with
    | nil => cases h
    | cons c t =>
      rw [after?_cons] at h
      split at h
      · next hac => rw [hac, List.cons_append, ← ih h]
      · cases h

theorem after?_self (word r : Text) : after? word (word ++ r) = some r := by
  induction word with
  | nil => rfl
  | cons a word ih => rw [List.cons_append, after?_cons, if_pos rfl, ih]

theorem startsWith_eq (word t : Text) : startsWith word t = (after? word t).isSome := by
  unfold startsWith after?
  split
  · next h => rw [h]; rfl
  · next h => rw [Bool.of_not_eq_true h]; rfl

theorem startsWith_append {word : Text} (hword : ' ' ∉ word) (t u : Text) :
    startsWith word (t ++ ' ' :: u) = startsWith word t := by
  rw [startsWith_eq, startsWith_eq, after?_append hword, Option.isSome_map]

theorem endsDark_of_append {s t : Text} (h : EndsDark (s ++ t)) : EndsDark t := by
  cases t with
  | nil => exact endsDark_nil
  | cons c t => exact (endsDark_append (List.cons_ne_nil _ _)).1 h

theorem isBlankText_eq_false {t : Text} (ht : EndsDark t) (hne : t ≠ []) : isBlankText t = false := by
  by_contra hblank
  exact hne (eq_nil_of_endsDark ht (Bool.of_not_eq_false hblank))

theorem endsDark_stripStart {t : Text} (ht : EndsDark t) : EndsDark (stripStart t) := by
  have hsplit : t = t.takeWhile isBlank ++ stripStart t := List.takeWhile_append_dropWhile.symm
  rw [hsplit] at ht
  exact endsDark_of_append ht

/-- The blanks before the added tag go if nothing else stands before it. -/
theorem stripStart_append_tag {t : Text} (ht : EndsDark t) (u : Text) :
    stripStart (t ++ ' ' :: '#' :: u) = if t = [] then '#' :: u else stripStart t ++ ' ' :: '#' :: u := by
  split
  · next h =>
    subst h
    rfl
  · next hne => exact stripStart_append (isBlankText_eq_false ht hne) _

variable {t u : Text}

/-! ### Words -/

theorem afterWord?_eq_bind (word t : Text) :
    afterWord? word t = (after? word t).bind fun r => if r.head?.any isBlank then some (stripStart r) else none := by
  unfold afterWord?
  cases after? word t with
  | none => rfl
  | some r =>
    cases r with
    | nil => rfl
    | cons c r =>
      rw [Option.bind_some, List.head?_cons, Option.any_some]
      dsimp only
      split
      · next hc => rw [stripStart, stripStart, List.dropWhile_cons_of_pos hc]
      · rfl

theorem afterWord?_append {word : Text} (hword : ' ' ∉ word) (ht : EndsDark t) (hne : t ≠ word) :
    afterWord? word (t ++ ' ' :: '#' :: u) = (afterWord? word t).map (· ++ ' ' :: '#' :: u) := by
  rw [afterWord?_eq_bind, afterWord?_eq_bind, after?_append hword]
  cases hafter : after? word t with
  | none => rfl
  | some r =>
    have hsplit := eq_append_of_after? hafter
    have hr : r ≠ [] := by
      rintro rfl
      exact hne (hsplit.trans (List.append_nil word))
    have hdark : EndsDark r := endsDark_of_append (hsplit ▸ ht)
    rw [Option.map_some, Option.bind_some, Option.bind_some, stripStart_append_tag hdark, if_neg hr,
      List.head?_append_of_ne_nil _ hr]
    split <;> rfl

/-- Behind a word that stood alone now comes the tag. -/
theorem afterWord?_alone (word : Text) : afterWord? word (word ++ ' ' :: '#' :: u) = some ('#' :: u) := by
  rw [afterWord?_eq_bind, after?_self]
  rfl

theorem afterWord?_self (word : Text) : afterWord? word word = none := by
  rw [afterWord?_eq_bind]
  have := after?_self word []
  rw [List.append_nil] at this
  rw [this]
  rfl

theorem endsDark_of_afterWord? {word r : Text} (ht : EndsDark t) (h : afterWord? word t = some r) :
    EndsDark r ∧ r ≠ [] := by
  rw [afterWord?_eq_bind] at h
  obtain ⟨s, hs, hr⟩ := Option.bind_eq_some_iff.1 h
  have hdark : EndsDark s := endsDark_of_append (eq_append_of_after? hs ▸ ht)
  split at hr
  · next hhead =>
    obtain rfl := Option.some.inj hr
    refine ⟨endsDark_stripStart hdark, stripStart_ne_nil (isBlankText_eq_false hdark ?_)⟩
    rintro rfl
    cases hhead
  · cases hr

/-! ### Marks -/

theorem marksLength_append {isMark : Char → Bool} {u : Text} (hu : marksLength isMark u = 0) (t : Text) :
    marksLength isMark (t ++ u) = marksLength isMark t := by
  induction t with
  | nil => exact hu
  | cons c t ih => rw [List.cons_append, marksLength, marksLength, ih]

theorem marksLength_le (isMark : Char → Bool) (t : Text) : marksLength isMark t ≤ t.length := by
  induction t with
  | nil => exact Nat.le_refl _
  | cons c t ih =>
    rw [marksLength, List.length_cons]
    split
    · omega
    split
    · split
      · omega
      · omega
    · omega

theorem marksLength_cons_of_not {isMark : Char → Bool} {c : Char} (hmark : isMark c = false) (hblank : isBlank c = false)
    (r : Text) : marksLength isMark (c :: r) = 0 := by
  rw [marksLength, hmark, hblank]
  rfl

theorem marksLength_tag {isMark : Char → Bool} (hspace : isMark ' ' = false) (hhash : isMark '#' = false) (u : Text) :
    marksLength isMark (' ' :: '#' :: u) = 0 := by
  rw [marksLength, hspace, marksLength_cons_of_not hhash (by decide)]
  rfl

theorem drop_marks_append {isMark : Char → Bool} (t u : Text) :
    (t ++ u).drop (marksLength isMark t) = t.drop (marksLength isMark t) ++ u :=
  List.drop_append_of_le_length (marksLength_le isMark t)

end LineTags
