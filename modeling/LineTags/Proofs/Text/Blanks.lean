import LineTags.Text.Basic
import Mathlib.Data.List.Basic
import Mathlib.Data.List.TakeWhile

/-!
# Blanks around a text

Stripping cuts a text into its blanks at the start, a core that neither starts nor ends with a blank, and its blanks at the end. What is proved elsewhere about a place in a line is proved for a text cut in this way, since a tag is put between the core and the blanks behind it.
-/

namespace LineTags.Text

/-- Whether a text is empty or its first character satisfies `p`. -/
def StartsIn (p : Char → Prop) (t : Text) : Prop := ∀ c ∈ t.head?, p c

theorem startsIn_nil {p : Char → Prop} : StartsIn p [] := by
  intro c hc
  simp at hc

theorem startsIn_cons {p : Char → Prop} {c : Char} {r : Text} : StartsIn p (c :: r) ↔ p c := by
  simp [StartsIn]

theorem StartsIn.mono {p q : Char → Prop} {t : Text} (h : StartsIn p t) (hpq : ∀ c, p c → q c) : StartsIn q t :=
  fun c hc => hpq c (h c hc)

theorem startsIn_dropWhile (p : Char → Bool) (t : Text) : StartsIn (p · = false) (t.dropWhile p) := by
  intro c hc
  have hstop := List.head?_dropWhile_not p t
  rwa [Option.mem_def.1 hc] at hstop

/-- A run ends at the latest where something follows that does not belong to it. -/
theorem takeWhile_append {p : Char → Bool} (s : Text) {r : Text} (hr : StartsIn (p · = false) r) :
    (s ++ r).takeWhile p = s.takeWhile p := by
  induction s with
  | nil =>
    cases r with
    | nil => rfl
    | cons c r => simp [startsIn_cons.1 hr]
  | cons c s ih =>
    rw [List.cons_append, List.takeWhile_cons, List.takeWhile_cons, ih]

theorem dropWhile_append {p : Char → Bool} (s : Text) {r : Text} (hr : StartsIn (p · = false) r) :
    (s ++ r).dropWhile p = s.dropWhile p ++ r := by
  induction s with
  | nil =>
    cases r with
    | nil => rfl
    | cons c r => simp [startsIn_cons.1 hr]
  | cons c s ih =>
    rw [List.cons_append, List.dropWhile_cons, List.dropWhile_cons, ih]
    split <;> rfl

theorem isBlankText_iff {t : Text} : isBlankText t ↔ ∀ c ∈ t, isBlank c := by
  simp [isBlankText]

theorem isBlankText_append {s t : Text} : isBlankText (s ++ t) = (isBlankText s && isBlankText t) := by
  simp [isBlankText]

/-- A text that ends in no blank; the empty text is one. -/
def EndsDark (t : Text) : Prop := ∀ c ∈ t.getLast?, ¬isBlank c

theorem endsDark_nil : EndsDark [] := by
  intro c hc
  simp at hc

theorem endsDark_append {s t : Text} (hne : t ≠ []) : EndsDark (s ++ t) ↔ EndsDark t := by
  unfold EndsDark
  rw [List.getLast?_append_of_ne_nil s hne]

theorem endsDark_cons {c : Char} {t : Text} (hne : t ≠ []) : EndsDark (c :: t) ↔ EndsDark t :=
  endsDark_append (s := [c]) hne

theorem stripEnd_append_blanks {t w : Text} (hw : ∀ c ∈ w, isBlank c) : stripEnd (t ++ w) = stripEnd t := by
  unfold stripEnd
  rw [List.reverse_append, List.dropWhile_append_of_pos]
  intro c hc
  exact hw c (List.mem_reverse.1 hc)

theorem stripEnd_of_endsDark {t : Text} (ht : EndsDark t) : stripEnd t = t := by
  unfold stripEnd
  cases hr : t.reverse with
  | nil => simpa using hr.symm
  | cons c r =>
    have hlast : t.getLast? = some c := by rw [← List.head?_reverse, hr, List.head?_cons]
    have hc : ¬isBlank c := ht c hlast
    rw [List.dropWhile_cons, if_neg hc, ← hr, List.reverse_reverse]

theorem stripEnd_endsDark (t : Text) : EndsDark (stripEnd t) := by
  intro c hc
  unfold stripEnd at hc
  rw [List.getLast?_reverse] at hc
  have hhead := List.head?_dropWhile_not isBlank t.reverse
  rw [hc] at hhead
  simpa using hhead

/-- A text is its stripped core with the blanks that stood behind it. -/
theorem exists_blanks_stripEnd (t : Text) : ∃ w, (∀ c ∈ w, isBlank c) ∧ t = stripEnd t ++ w := by
  refine ⟨(t.reverse.takeWhile isBlank).reverse, ?_, ?_⟩
  · intro c hc
    exact List.mem_takeWhile_imp (List.mem_reverse.1 hc)
  · unfold stripEnd
    rw [← List.reverse_append, List.takeWhile_append_dropWhile, List.reverse_reverse]

theorem stripEnd_eq_nil_iff {t : Text} : stripEnd t = [] ↔ isBlankText t := by
  constructor
  · intro h
    obtain ⟨w, hw, ht⟩ := exists_blanks_stripEnd t
    rw [ht, h, List.nil_append]
    exact isBlankText_iff.2 hw
  · intro h
    have := stripEnd_append_blanks (t := []) (isBlankText_iff.1 h)
    simpa [stripEnd] using this

theorem eq_nil_of_endsDark {t : Text} (ht : EndsDark t) (hblank : isBlankText t) : t = [] := by
  rw [← stripEnd_of_endsDark ht]
  exact stripEnd_eq_nil_iff.2 hblank

theorem stripStart_of_isBlankText {t : Text} (ht : isBlankText t) : stripStart t = [] :=
  List.dropWhile_eq_nil_iff.2 (isBlankText_iff.1 ht)

theorem stripStart_ne_nil {t : Text} (ht : isBlankText t = false) : stripStart t ≠ [] := by
  intro hnil
  have hblank : isBlankText t := isBlankText_iff.2 (List.dropWhile_eq_nil_iff.1 hnil)
  rw [ht] at hblank
  exact Bool.noConfusion hblank

theorem stripStart_append_of_blank {s : Text} (hs : isBlankText s) (t : Text) : stripStart (s ++ t) = stripStart t :=
  List.dropWhile_append_of_pos (isBlankText_iff.1 hs)

theorem stripStart_append {s : Text} (hs : isBlankText s = false) (t : Text) :
    stripStart (s ++ t) = stripStart s ++ t := by
  have hne := stripStart_ne_nil hs
  unfold stripStart at hne ⊢
  rw [List.dropWhile_append, if_neg]
  rwa [List.isEmpty_iff]

theorem strip_append_blanks (t : Text) {w : Text} (hw : ∀ c ∈ w, isBlank c) : strip (t ++ w) = strip t := by
  unfold strip
  cases ht : isBlankText t with
  | true =>
    rw [stripStart_append_of_blank ht, stripStart_of_isBlankText ht, stripStart_of_isBlankText (isBlankText_iff.2 hw)]
  | false => rw [stripStart_append ht, stripEnd_append_blanks hw]

theorem stripEnd_append {t : Text} (ht : isBlankText t = false) (s : Text) : stripEnd (s ++ t) = s ++ stripEnd t := by
  obtain ⟨w, hw, hsplit⟩ := exists_blanks_stripEnd t
  have hne : stripEnd t ≠ [] := by
    intro hnil
    rw [stripEnd_eq_nil_iff.1 hnil] at ht
    cases ht
  have hcut : s ++ t = s ++ stripEnd t ++ w := by rw [List.append_assoc, ← hsplit]
  rw [hcut, stripEnd_append_blanks hw, stripEnd_of_endsDark]
  exact (endsDark_append hne).2 (stripEnd_endsDark t)

end LineTags.Text
