import LineTags.Json.Reader

/-!
# What stops the reading of JSON

Every reader hands on an end of the text that it was given. So a fault deep inside a value still tells something about the whole text: a whole number with too many digits stands in it as it is, and so do the opening brackets of all arrays and objects around the one that lies too deep.
-/

namespace LineTags

variable {α β : Type} {room count : Nat} {c : Char} {t r s : Text}

/-- Whether a character opens an array or an object. -/
def Json.isOpening (c : Char) : Bool := c == '[' || c == '\x7b'

namespace JsonFault

/-- What a fault tells about the text, if there is room for so many arrays and objects inside each other. -/
def Shows (room : Nat) (t : Text) : JsonFault → Prop
  | malformed => True
  | tooManyDigits count => Text.mostDigits < count ∧ ∃ run, run <:+: t ∧ run.length = count ∧ ∀ c ∈ run, c.isDigit = true
  | tooDeep _ => room < t.countP Json.isOpening

theorem Shows.of_suffix {fault : JsonFault} (h : fault.Shows room r) (hsuffix : r <:+ t) : fault.Shows room t := by
  cases fault with
  | malformed => trivial
  | tooManyDigits count =>
    obtain ⟨hmany, run, hrun, hlength, hdigits⟩ := h
    exact ⟨hmany, run, hrun.trans hsuffix.isInfix, hlength, hdigits⟩
  | tooDeep inObject => exact Nat.lt_of_lt_of_le h (hsuffix.sublist.countP_le)

/-- What lies behind an opening bracket has less room. -/
theorem Shows.cons_opening {fault : JsonFault} (hopening : Json.isOpening c = true) (h : fault.Shows room r) :
    fault.Shows (room + 1) (c :: r) := by
  cases fault with
  | malformed => trivial
  | tooManyDigits count =>
    obtain ⟨hmany, run, hrun, hlength, hdigits⟩ := h
    exact ⟨hmany, run, hrun.trans (List.suffix_cons c r).isInfix, hlength, hdigits⟩
  | tooDeep inObject =>
    have hcount := List.countP_cons_of_pos (l := r) hopening
    unfold Shows at *
    omega

end JsonFault

namespace Json

/-- A reader hands on an end of its text, or shows why it does not. -/
def Accounted (room : Nat) (t : Text) : Except JsonFault (α × Text) → Prop
  | .ok (_, r) => r <:+ t
  | .error fault => fault.Shows room t

theorem accounted_malformed : Accounted room t (.error .malformed : Except JsonFault (α × Text)) := trivial

theorem Accounted.of_suffix {x : Except JsonFault (α × Text)} (h : Accounted room r x) (hsuffix : r <:+ t) :
    Accounted room t x := by
  cases x with
  | ok p => exact List.IsSuffix.trans h hsuffix
  | error fault => exact JsonFault.Shows.of_suffix h hsuffix

theorem Accounted.map {x : Except JsonFault (α × Text)} (h : Accounted room t x) (f : α → β) :
    Accounted room t (x.map fun (a, r) => (f a, r)) := by
  cases x <;> exact h

theorem Accounted.bind {x : Except JsonFault (α × Text)} {f : α × Text → Except JsonFault (β × Text)}
    (h : Accounted room t x) (hf : ∀ a r, Accounted room r (f (a, r))) : Accounted room t (x >>= f) := by
  cases x with
  | ok p => exact (hf p.1 p.2).of_suffix h
  | error fault => exact h

/-- What is in brackets is read with less room. -/
theorem Accounted.cons_opening {x : Except JsonFault (α × Text)} (hopening : isOpening c = true) {inObject : Bool}
    (h : Accounted (room - 1) r x) : Accounted room (c :: r) (if room = 0 then .error (.tooDeep inObject) else x) := by
  cases room with
  | zero =>
    rw [if_pos rfl]
    exact List.countP_pos_iff.2 ⟨c, List.mem_cons_self, hopening⟩
  | succ room =>
    rw [if_neg (Nat.succ_ne_zero room)]
    cases x with
    | ok p => exact List.IsSuffix.trans h (List.suffix_cons c r)
    | error fault => exact JsonFault.Shows.cons_opening hopening h

theorem skipSpace_suffix (t : Text) : skipSpace t <:+ t := List.dropWhile_suffix _

/-! ## Strings and words -/

theorem readUnit?_suffix {unit : Nat} (h : readUnit? t = some (unit, r)) : r <:+ t := by
  unfold readUnit? at h
  split at h
  · split at h
    · obtain ⟨-, rfl⟩ := Prod.mk.inj (Option.some.inj h)
      exact ⟨[_, _, _, _], rfl⟩
    · cases h
  · cases h

theorem readEscapedUnit?_suffix (h : readEscapedUnit? t = some (c, r)) : r <:+ t := by
  obtain ⟨⟨unit, s⟩, hunit, hs⟩ := Option.map_eq_some_iff.1 h
  have hrest : r = s ∨ ∃ low u, s = '\\' :: 'u' :: u ∧ readUnit? u = some (low, r) := by
    dsimp only at hs
    split at hs
    · grind
    · grind
  apply List.IsSuffix.trans _ (readUnit?_suffix hunit)
  rcases hrest with rfl | ⟨low, u, rfl, hlow⟩
  · exact List.suffix_rfl
  · exact (readUnit?_suffix hlow).trans ⟨['\\', 'u'], rfl⟩

theorem readString?_suffix (n : Nat) {t u r : Text} (h : readString? n t = some (u, r)) : r <:+ t := by
  fun_induction readString? n t generalizing u r with
  | case1 => cases h
  | case2 => cases h
  | case3 n r =>
    obtain ⟨-, rfl⟩ := Prod.mk.inj (Option.some.inj h)
    exact List.suffix_cons _ _
  | case4 n t ih =>
    simp only [Option.bind_eq_bind, Option.bind_eq_some_iff] at h
    obtain ⟨⟨c, s⟩, hescaped, ⟨v, s'⟩, hrest, h⟩ := h
    obtain ⟨-, rfl⟩ := Prod.mk.inj (Option.some.inj h)
    exact ((ih s hrest).trans (readEscapedUnit?_suffix hescaped)).trans ⟨['\\', 'u'], rfl⟩
  | case5 n e t hnot ih =>
    simp only [Option.bind_eq_bind, Option.bind_eq_some_iff] at h
    obtain ⟨c, -, ⟨v, s⟩, hrest, h⟩ := h
    obtain ⟨-, rfl⟩ := Prod.mk.inj (Option.some.inj h)
    exact (ih hrest).trans ⟨['\\', e], rfl⟩
  | case6 => cases h
  | case7 n c t hquote hunit hescape hplain ih =>
    obtain ⟨⟨v, s⟩, hrest, h⟩ := Option.map_eq_some_iff.1 h
    obtain ⟨-, rfl⟩ := Prod.mk.inj h
    exact (ih hrest).trans (List.suffix_cons c t)

theorem accounted_readText (n : Nat) : Accounted room t (readText n t) := by
  unfold readText
  cases h : readString? n t with
  | none => exact accounted_malformed
  | some p => exact readString?_suffix n h

theorem readWord?_suffix {value : Json} (h : readWord? t = some (value, r)) : r <:+ t := by
  obtain ⟨word, -, h⟩ := List.exists_of_findSome?_eq_some h
  obtain ⟨r, hr, h⟩ := Option.map_eq_some_iff.1 h
  obtain ⟨-, rfl⟩ := Prod.mk.inj h
  unfold Text.after? at hr
  split at hr
  · obtain rfl := Option.some.inj hr
    exact List.drop_suffix _ _
  · cases hr

/-! ## Numbers -/

theorem readFraction_suffix (t : Text) : (readFraction t).2 <:+ t := by
  unfold readFraction
  split
  · next r =>
    dsimp only
    split
    · exact List.suffix_rfl
    · exact (List.dropWhile_suffix _).trans (List.suffix_cons '.' r)
  · exact List.suffix_rfl

theorem readExponent_suffix (t : Text) : (readExponent t).2 <:+ t := by
  have hdigits (e : Char) {s r : Text} (v : Option Int) (hs : s <:+ r) :
      (if (s.takeWhile Char.isDigit).isEmpty then (none, e :: r) else (v, s.dropWhile Char.isDigit)).2 <:+ e :: r := by
    split
    · exact List.suffix_rfl
    · exact ((List.dropWhile_suffix _).trans hs).trans (List.suffix_cons e r)
  unfold readExponent
  split
  · next e r =>
    dsimp only
    split
    · split
      · exact hdigits e _ (List.suffix_cons '-' _)
      · exact hdigits e _ (List.suffix_cons '+' _)
      · exact hdigits e _ List.suffix_rfl
    · exact List.suffix_rfl
  · exact List.suffix_rfl

/-- The digits of a number start its text. -/
theorem accounted_readNumber (negative : Bool) (t : Text) : Accounted room t (readNumber negative t) := by
  unfold readNumber
  extract_lets whole
  have hwhole : whole <+: t ∧ ∀ c ∈ whole, c.isDigit = true := by
    unfold whole
    split
    · exact ⟨⟨_, rfl⟩, by simp⟩
    · exact ⟨List.takeWhile_prefix _, fun c hc => List.all_eq_true.1 List.all_takeWhile c hc⟩
  have hrest : (readExponent (readFraction (t.drop whole.length)).2).2 <:+ t :=
    ((readExponent_suffix _).trans (readFraction_suffix _)).trans (List.drop_suffix _ _)
  clear_value whole
  split
  · exact accounted_malformed
  · dsimp only
    split
    · split
      · next hmany => exact ⟨hmany, whole, hwhole.1.isInfix, rfl, hwhole.2⟩
      · exact hrest
    · exact hrest

/-! ## Values -/

section

variable {n : Nat} (hvalue : ∀ room t, Accounted room t (readValue room n t))
  (hitems : ∀ room t, Accounted room t (readItems room n t))
  (hfields : ∀ room before t, Accounted room t (readFields room n before t))

include hitems hfields in
theorem accounted_readValue_succ (room : Nat) (t : Text) : Accounted room t (readValue room (n + 1) t) := by
  rw [readValue.eq_def]
  dsimp only
  split
  · next r => exact ((accounted_readText n).map string).of_suffix (List.suffix_cons '"' r)
  · next r =>
    apply Accounted.cons_opening (by decide)
    apply Accounted.of_suffix _ (skipSpace_suffix r)
    generalize skipSpace r = s
    split
    · next s => exact List.suffix_cons ']' s
    · exact (hitems _ _).map array
  · next r =>
    apply Accounted.cons_opening (by decide)
    apply Accounted.of_suffix _ (skipSpace_suffix r)
    generalize skipSpace r = s
    split
    · next s => exact List.suffix_cons '\x7d' s
    · exact (hfields _ _ _).map object
  · split
    · next found hword => exact readWord?_suffix hword
    · exact (accounted_readNumber true _).of_suffix (List.suffix_cons '-' _)
    · exact accounted_readNumber false _

include hvalue hitems in
theorem accounted_readItems_succ (room : Nat) (t : Text) : Accounted room t (readItems room (n + 1) t) := by
  rw [readItems.eq_def]
  apply (hvalue room t).bind
  intro item r
  apply Accounted.of_suffix _ (skipSpace_suffix r)
  dsimp only
  generalize skipSpace r = s
  split
  · next s => exact ((hitems room _).map (item :: ·)).of_suffix ((skipSpace_suffix s).trans (List.suffix_cons ',' s))
  · next s => exact List.suffix_cons ']' s
  · exact accounted_malformed

include hvalue hfields in
theorem accounted_readFields_succ (room : Nat) (before : List (Text × Json)) (t : Text) :
    Accounted room t (readFields room (n + 1) before t) := by
  rw [readFields.eq_def]
  dsimp only
  split
  · next r =>
    apply Accounted.of_suffix _ (List.suffix_cons '"' r)
    apply (accounted_readText n).bind
    intro name r
    apply Accounted.of_suffix _ (skipSpace_suffix r)
    dsimp only
    generalize skipSpace r = s
    split
    · next s =>
      apply Accounted.of_suffix _ ((skipSpace_suffix s).trans (List.suffix_cons ':' s))
      apply (hvalue room _).bind
      intro value r
      apply Accounted.of_suffix _ (skipSpace_suffix r)
      dsimp only
      generalize skipSpace r = s
      split
      · next s => exact (hfields room _ _).of_suffix ((skipSpace_suffix s).trans (List.suffix_cons ',' s))
      · next s => exact List.suffix_cons '\x7d' s
      · exact accounted_malformed
    · exact accounted_malformed
  · exact accounted_malformed

end

/-- By induction on the steps that are left, which the three readers share. -/
theorem accounted_read (n : Nat) :
    (∀ room t, Accounted room t (readValue room n t)) ∧ (∀ room t, Accounted room t (readItems room n t)) ∧
      ∀ room before t, Accounted room t (readFields room n before t) := by
  induction n with
  | zero => exact ⟨fun _ _ => accounted_malformed, fun _ _ => accounted_malformed, fun _ _ _ => accounted_malformed⟩
  | succ n ih =>
    obtain ⟨hvalue, hitems, hfields⟩ := ih
    exact ⟨accounted_readValue_succ hitems hfields, accounted_readItems_succ hvalue hitems,
      accounted_readFields_succ hvalue hfields⟩

/-- What the fault of a text shows: a whole number with too many digits stands in it, or more opening brackets than may lie inside each other. -/
theorem shows_of_ofText {fault : JsonFault} (h : ofText t = .error fault) : fault.Shows deepest t := by
  have hread := ((accounted_read (2 * t.length + 2)).1 deepest (skipSpace t)).of_suffix (skipSpace_suffix t)
  rw [ofText.eq_def] at h
  cases hvalue : readValue deepest (2 * t.length + 2) (skipSpace t) with
  | error e =>
    rw [hvalue] at h hread
    obtain rfl := Except.error.inj h
    exact hread
  | ok p =>
    rw [hvalue] at h
    change (if (skipSpace p.2).isEmpty then .ok p.1 else .error .malformed) = Except.error fault at h
    split at h
    · cases h
    · obtain rfl := Except.error.inj h
      trivial

end Json

end LineTags
