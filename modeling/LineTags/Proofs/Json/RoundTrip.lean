import LineTags.Json.Reader
import LineTags.Json.Writer
import LineTags.Proofs.Keyed
import LineTags.Proofs.Text.Blanks
import Mathlib.Tactic.SplitIfs

/-!
# Reading what was written

A value is read back from its written form, on one line or on many. Floating-point numbers are left out, and so is what the reader does not accept at all: whole numbers with too many digits, objects that name a field twice, and values that lie too deep.

Each reader is given what the writer made of a part, followed by any text that may follow it there; it gives the part back and hands that text on.
-/

namespace LineTags.Json

open Text (StartsIn startsIn_cons)

variable {indent? : Option Nat} {depth room n : Nat} {t r s : Text} {value : Json}

/-- Values that are read back, if there is room for so many arrays and objects inside each other. -/
inductive Plain : Nat → Json → Prop
  | null {room : Nat} : Plain room null
  | bool {room : Nat} (b : Bool) : Plain room (bool b)
  | int {room : Nat} {n : Int} (h : (Nat.toDigits 10 n.natAbs).length ≤ Text.mostDigits) : Plain room (int n)
  | string {room : Nat} (t : Text) : Plain room (string t)
  | array {room : Nat} {items : List Json} (h : ∀ item ∈ items, Plain room item) : Plain (room + 1) (array items)
  | object {room : Nat} {fields : List (Text × Json)} (hnames : (Keyed.names fields).Nodup)
    (h : ∀ f ∈ fields, Plain room f.2) : Plain (room + 1) (object fields)

/-! ## Strings -/

theorem hexValue?_digitChar : ∀ digit < 16, hexValue? (Nat.digitChar digit) = some digit := by decide

theorem readUnit?_hexDigits {unit : Nat} (h : unit < 0x10000) (r : Text) :
    readUnit? (Text.hexDigits 4 unit ++ r) = some (unit, r) := by
  have hdigit (k : Nat) : hexValue? (Nat.digitChar (k % 16)) = some (k % 16) :=
    hexValue?_digitChar _ (Nat.mod_lt k (by decide))
  simp only [Text.hexDigits, List.nil_append, List.cons_append, readUnit?, hdigit]
  congr 2
  omega

/-- A control character is read back from its escape. -/
theorem readEscapedUnit?_control {c : Char} (h : c.val < 32) (r : Text) :
    readEscapedUnit? (Text.hexDigits 4 c.toNat ++ r) = some (c, r) := by
  have hsmall : c.toNat < 32 := h
  unfold readEscapedUnit?
  rw [readUnit?_hexDigits (by omega)]
  simp only [Option.map_some]
  rw [if_neg (by omega), if_neg (by omega), Char.ofNat_toNat]

/-- A character is written as a letter behind a backslash, as the escape of its code point, or as it is. -/
theorem escapedChar_cases (c : Char) :
    (∃ e, escapedChar c = ['\\', e] ∧ e ≠ 'u' ∧ simpleEscape? e = some c) ∨
    (escapedChar c = '\\' :: 'u' :: Text.hexDigits 4 c.toNat ∧ c.val < 32) ∨
    (escapedChar c = [c] ∧ c ≠ '"' ∧ c ≠ '\\' ∧ ¬c.val < 32) := by
  unfold escapedChar
  split_ifs with hquote hbackslash hfeed hreturn htab hback hform hcontrol
  · exact .inl ⟨'"', rfl, by decide, by rw [hquote]; rfl⟩
  · exact .inl ⟨'\\', rfl, by decide, by rw [hbackslash]; rfl⟩
  · exact .inl ⟨'n', rfl, by decide, by rw [hfeed]; rfl⟩
  · exact .inl ⟨'r', rfl, by decide, by rw [hreturn]; rfl⟩
  · exact .inl ⟨'t', rfl, by decide, by rw [htab]; rfl⟩
  · exact .inl ⟨'b', rfl, by decide, by rw [hback]; rfl⟩
  · exact .inl ⟨'f', rfl, by decide, by rw [hform]; rfl⟩
  · exact .inr (.inl ⟨rfl, hcontrol⟩)
  · exact .inr (.inr ⟨rfl, hquote, hbackslash, hcontrol⟩)

theorem readString?_escapedChar (n : Nat) (c : Char) (r : Text) :
    readString? (n + 1) (escapedChar c ++ r) = (readString? n r).map fun (t, r) => (c :: t, r) := by
  have hbind (x : Option (Text × Text)) : (do let (t, r) ← x; return (c :: t, r)) = x.map fun (t, r) => (c :: t, r) := by
    cases x <;> rfl
  obtain ⟨e, hwritten, hletter, hescape⟩ | ⟨hwritten, hcontrol⟩ | ⟨hwritten, hquote, hbackslash, hplain⟩ :=
    escapedChar_cases c
  · rw [hwritten, List.cons_append, List.cons_append, List.nil_append, readString?, hescape]
    · exact hbind _
    · rintro rfl
      exact hletter rfl
  · rw [hwritten, List.cons_append, List.cons_append, readString?, readEscapedUnit?_control hcontrol]
    exact hbind _
  · rw [hwritten, List.singleton_append, readString?, if_neg]
    all_goals simp_all

theorem readString?_written (t r : Text) (h : t.length < n) :
    readString? n (t.flatMap escapedChar ++ '"' :: r) = some (t, r) := by
  induction t generalizing n with
  | nil =>
    cases n with
    | zero => cases h
    | succ n => rfl
  | cons c t ih =>
    cases n with
    | zero => cases h
    | succ n =>
      rw [List.flatMap_cons, List.append_assoc, readString?_escapedChar, ih (Nat.lt_of_succ_lt_succ h)]
      rfl

theorem readText_written (t r : Text) (h : t.length < n) :
    readText n (t.flatMap escapedChar ++ '"' :: r) = .ok (t, r) := by
  rw [readText, readString?_written t r h]
  rfl

/-! ## Numbers -/

/-- Whether a character may stand behind a value. -/
def isDelimiter (c : Char) : Bool := isSpace c || c == ',' || c == ']' || c == '\x7d'

theorem isDelimiter_of_isSpace {c : Char} (h : isSpace c = true) : isDelimiter c = true := by
  rw [isDelimiter, h]
  rfl

/-- What ends a value ends its digits, and it starts no fraction and no exponent. -/
theorem ne_of_isDelimiter {c : Char} (h : isDelimiter c = true) : c.isDigit = false ∧ c ≠ '.' ∧ c ≠ 'e' ∧ c ≠ 'E' := by
  have hc : ((((((c = ' ' ∨ c = '\t') ∨ c = '\n') ∨ c = '\r') ∨ c = ',') ∨ c = ']') ∨ c = '\x7d') := by
    simpa only [isDelimiter, isSpace, Bool.or_eq_true, beq_iff_eq] using h
  rcases hc with (((((rfl | rfl) | rfl) | rfl) | rfl) | rfl) | rfl <;> decide

theorem readFraction_of_delimiter (h : StartsIn (isDelimiter ·) r) : readFraction r = (none, r) := by
  unfold readFraction
  split
  · exact absurd rfl (ne_of_isDelimiter (startsIn_cons.1 h)).2.1
  · rfl

theorem readExponent_of_delimiter (h : StartsIn (isDelimiter ·) r) : readExponent r = (none, r) := by
  unfold readExponent
  split
  · next e r =>
    obtain ⟨-, -, hsmall, hlarge⟩ := ne_of_isDelimiter (startsIn_cons.1 h)
    rw [if_neg (not_or.2 ⟨hsmall, hlarge⟩)]
  · rfl

theorem digitChar_ne_zero : ∀ digit < 10, 0 < digit → Nat.digitChar digit ≠ '0' := by decide

/-- Only zero is written with a zero in front. -/
theorem startsIn_toDigits {k : Nat} (h : 0 < k) : StartsIn (· ≠ '0') (Nat.toDigits 10 k) := by
  induction k using Nat.strongRecOn with
  | ind k ih =>
    by_cases hsmall : k < 10
    · rw [Nat.toDigits_of_lt_base hsmall, startsIn_cons]
      exact digitChar_ne_zero k hsmall h
    · rw [Nat.toDigits_of_base_le (by decide) (Nat.le_of_not_lt hsmall)]
      have hne : Nat.toDigits 10 (k / 10) ≠ [] := List.ne_nil_of_length_pos Nat.length_toDigits_pos
      intro c hc
      rw [List.head?_append_of_ne_nil _ hne] at hc
      exact ih (k / 10) (by omega) (by omega) c hc

theorem digitsValue_toDigits (k : Nat) : digitsValue (Nat.toDigits 10 k) = k :=
  Nat.ofDigitChars_eq_foldl.symm.trans Nat.ofDigitChars_ten_toDigits

theorem isDigit_of_mem_toDigits {k : Nat} : ∀ c ∈ Nat.toDigits 10 k, c.isDigit = true :=
  fun _ => Nat.isDigit_of_mem_toDigits (by decide) (by decide)

theorem exists_toDigits_eq_cons (k : Nat) : ∃ c digits, Nat.toDigits 10 k = c :: digits ∧ c.isDigit = true := by
  obtain ⟨c, digits, hdigits⟩ := List.exists_cons_of_length_pos (Nat.length_toDigits_pos (b := 10) (n := k))
  exact ⟨c, digits, hdigits, isDigit_of_mem_toDigits c (hdigits ▸ List.mem_cons_self)⟩

/-- The digits of a number are read to their end. -/
theorem readNumber_toDigits {k : Nat} (negative : Bool) (hk : (Nat.toDigits 10 k).length ≤ Text.mostDigits)
    (hr : StartsIn (isDelimiter ·) r) :
    readNumber negative (Nat.toDigits 10 k ++ r) = .ok (int (if negative then -k else k), r) := by
  have hne : Nat.toDigits 10 k ≠ [] := List.ne_nil_of_length_pos Nat.length_toDigits_pos
  unfold readNumber
  extract_lets whole spelled
  have hwhole : whole = Nat.toDigits 10 k := by
    have hrun : (Nat.toDigits 10 k ++ r).takeWhile Char.isDigit = Nat.toDigits 10 k := by
      rw [Text.takeWhile_append _ (hr.mono fun c hc => (ne_of_isDelimiter hc).1), List.takeWhile_eq_self_iff]
      exact isDigit_of_mem_toDigits
    unfold whole
    rcases Nat.eq_zero_or_pos k with rfl | hpos
    · rfl
    · split
      · next s hstart =>
        have hfirst : '0' ∈ (Nat.toDigits 10 k).head? := by
          rw [← List.head?_append_of_ne_nil _ hne, hstart]
          rfl
        exact absurd rfl (startsIn_toDigits hpos '0' hfirst)
      · exact hrun
  clear_value whole
  subst hwhole
  rw [if_neg (by rwa [List.isEmpty_iff]), List.drop_left, readFraction_of_delimiter hr]
  dsimp only
  rw [readExponent_of_delimiter hr]
  dsimp only
  rw [if_pos ⟨rfl, rfl⟩, if_neg (Nat.not_lt.2 hk)]
  unfold spelled
  rw [digitsValue_toDigits]

theorem spelling_of_words : ∀ word ∈ words, 2 ≤ word.1.length ∧ word.1.any Char.isDigit = false := by decide

/-- A number is no word: its first or its second character is a digit. -/
theorem readWord?_eq_none (h : ∃ c ∈ t.take 2, c.isDigit = true) : readWord? t = none := by
  obtain ⟨c, hc, hdigit⟩ := h
  apply List.findSome?_eq_none_iff.2
  rintro ⟨word, value⟩ hword
  obtain ⟨hlength, hletters⟩ := spelling_of_words _ hword
  have hother : ¬word.isPrefixOf t = true := by
    rw [List.isPrefixOf_iff_prefix]
    rintro ⟨s, rfl⟩
    rw [List.take_append_of_le_length hlength] at hc
    exact List.any_eq_false.1 hletters c (List.mem_of_mem_take hc) hdigit
  simp only [Text.after?, if_neg hother, Option.map_none]

theorem ofInt_eq (k : Int) :
    Text.ofInt k = if k < 0 then '-' :: Nat.toDigits 10 k.natAbs else Nat.toDigits 10 k.natAbs := by
  cases k with
  | ofNat k => exact Nat.toList_repr
  | negSucc k =>
    rw [if_pos (Int.negSucc_lt_zero k), Text.ofInt, Int.toString_eq_repr]
    change (String.append "-" (Nat.repr (k + 1))).toList = _
    exact String.toList_append.trans (congrArg _ Nat.toList_repr)

/-- What starts like a number and is no word is read as a number. -/
theorem readValue_number {c : Char} (hc : c = '-' ∨ c.isDigit = true) (h : readWord? (c :: t) = none) :
    readValue room (n + 1) (c :: t) = if c = '-' then readNumber true t else readNumber false (c :: t) := by
  have hne {d : Char} (hminus : d ≠ '-') (hdigit : d.isDigit = false) {r : Text} : c :: t ≠ d :: r := by
    intro heq
    obtain ⟨rfl, -⟩ := List.cons.inj heq
    rcases hc with hc | hc
    · exact hminus hc
    · rw [hdigit] at hc
      cases hc
  rw [readValue.eq_def]
  split
  · next heq => cases heq
  · next m heq =>
    obtain rfl := Nat.succ.inj heq
    split
    · next heq => exact absurd heq (hne (by decide) (by decide))
    · next heq => exact absurd heq (hne (by decide) (by decide))
    · next heq => exact absurd heq (hne (by decide) (by decide))
    · rw [h]
      split
      · next heq => cases heq
      · next heq =>
        obtain ⟨rfl, rfl⟩ := List.cons.inj heq
        rw [if_pos rfl]
      · next hother =>
        rw [if_neg]
        rintro rfl
        exact hother _ rfl

theorem readValue_ofInt {k : Int} (hk : (Nat.toDigits 10 k.natAbs).length ≤ Text.mostDigits) (hr : StartsIn (isDelimiter ·) r) :
    readValue room (n + 1) (Text.ofInt k ++ r) = .ok (int k, r) := by
  obtain ⟨c, digits, hdigits, hdigit⟩ := exists_toDigits_eq_cons k.natAbs
  rw [ofInt_eq]
  split
  · next hnegative =>
    have hword : readWord? ('-' :: (Nat.toDigits 10 k.natAbs ++ r)) = none := by
      refine readWord?_eq_none ⟨c, ?_, hdigit⟩
      rw [hdigits]
      simp
    rw [List.cons_append, readValue_number (.inl rfl) hword, if_pos rfl, readNumber_toDigits true hk hr, if_pos rfl,
      Int.ofNat_natAbs_of_nonpos (Int.le_of_lt hnegative), Int.neg_neg]
  · next hpositive =>
    have hread := readNumber_toDigits false hk hr
    rw [if_neg nofun, Int.natAbs_of_nonneg (Int.not_lt.1 hpositive)] at hread
    have hminus : c ≠ '-' := by
      rintro rfl
      cases hdigit
    rw [hdigits, List.cons_append] at hread ⊢
    rw [readValue_number (.inr hdigit) (readWord?_eq_none ⟨c, by simp, hdigit⟩), if_neg hminus, hread]

/-! ## What stands between the parts of a value -/

theorem skipSpace_append (hs : ∀ c ∈ s, isSpace c = true) (hr : StartsIn (isSpace · = false) r) : skipSpace (s ++ r) = r := by
  rw [skipSpace, List.dropWhile_append_of_pos hs]
  cases r with
  | nil => rfl
  | cons c r => rw [List.dropWhile_cons, startsIn_cons.1 hr, if_neg Bool.false_ne_true]

/-- Gaps hold only spaces and line feeds, but for the comma in front of those between two parts. -/
structure Gaps.Blank (gaps : Gaps) : Prop where
  first : ∀ c ∈ gaps.first, isSpace c = true
  between : ∃ space, gaps.between = ',' :: space ∧ ∀ c ∈ space, isSpace c = true
  last : ∀ c ∈ gaps.last, isSpace c = true

theorem blank_gapsAt (indent? : Option Nat) (depth : Nat) : (gapsAt indent? depth).Blank := by
  have hinner (width : Nat) : ∀ c ∈ '\n' :: List.replicate width ' ', isSpace c = true := by
    intro c hc
    rcases List.mem_cons.1 hc with rfl | hc
    · rfl
    · rw [List.eq_of_mem_replicate hc]
      rfl
  cases indent? with
  | none => exact ⟨nofun, ⟨[' '], rfl, List.forall_mem_singleton.2 rfl⟩, nofun⟩
  | some width => exact ⟨hinner _, ⟨_, rfl, hinner _⟩, hinner _⟩

theorem write_array {items : List Json} (hne : items ≠ []) :
    write indent? depth (array items) =
      '[' :: ((gapsAt indent? depth).first ++ (Text.join (gapsAt indent? depth).between (items.map (write indent? (depth + 1)))
        ++ ((gapsAt indent? depth).last ++ [']']))) := by
  rw [write]
  · rw [List.attach_map_val]
    simp
  · exact hne

/-- A field as it is written, with its name in front. -/
def writeField (w : Json → Text) (f : Text × Json) : Text := writeString f.1 ++ ':' :: ' ' :: w f.2

theorem write_object {fields : List (Text × Json)} (hne : fields ≠ []) :
    write indent? depth (object fields) =
      '\x7b' :: ((gapsAt indent? depth).first ++ (Text.join (gapsAt indent? depth).between
        (fields.map (writeField (write indent? (depth + 1)))) ++ ((gapsAt indent? depth).last ++ ['\x7d']))) := by
  have hfield (f : Text × Json) : writeString f.1 ++ [':', ' '] ++ write indent? (depth + 1) f.2 =
      writeField (write indent? (depth + 1)) f := List.append_assoc _ _ _
  rw [write]
  · change '\x7b' :: (gapsAt indent? depth).first ++ Text.join _ (fields.attach.map fun f =>
      writeString f.1.1 ++ [':', ' '] ++ write indent? (depth + 1) f.1.2) ++ _ ++ _ = _
    simp only [hfield]
    rw [List.attach_map_val]
    simp
  · exact hne

/-! ## Values -/

/-- A text starts with a character that does not end a value. -/
def Opens (t : Text) : Prop := ∃ c s, t = c :: s ∧ isDelimiter c = false

theorem Opens.append (h : Opens t) (r : Text) : Opens (t ++ r) := by
  obtain ⟨c, s, rfl, hc⟩ := h
  exact ⟨c, s ++ r, rfl, hc⟩

theorem Opens.startsIn (h : Opens t) : StartsIn (isSpace · = false) t := by
  obtain ⟨c, s, rfl, hc⟩ := h
  rw [startsIn_cons, Bool.eq_false_iff]
  intro hspace
  rw [isDelimiter_of_isSpace hspace] at hc
  cases hc

/-- A text stands for a value: whatever follows it, it is read as that value. -/
structure Spells (room : Nat) (t : Text) (value : Json) : Prop where
  opens : Opens t
  read : ∀ n r, t.length < n → StartsIn (isDelimiter ·) r → readValue room n (t ++ r) = .ok (value, r)

/-- Reading always takes a step. -/
theorem Spells.of_succ (hopens : Opens t)
    (hread : ∀ n r, t.length ≤ n → StartsIn (isDelimiter ·) r → readValue room (n + 1) (t ++ r) = .ok (value, r)) :
    Spells room t value where
  opens := hopens
  read := by
    rintro (_ | n) r hn hr
    · cases hn
    · exact hread n r (Nat.le_of_lt_succ hn) hr

theorem startsIn_isDelimiter (hs : ∀ c ∈ s, isSpace c = true) (hr : StartsIn (isDelimiter ·) r) :
    StartsIn (isDelimiter ·) (s ++ r) := by
  cases s with
  | nil => exact hr
  | cons c s => exact startsIn_cons.2 (isDelimiter_of_isSpace (hs c List.mem_cons_self))

theorem spells_null : Spells room (write indent? depth null) null := by
  rw [write]
  exact .of_succ ⟨'n', _, rfl, rfl⟩ fun _ _ _ _ => rfl

theorem spells_bool (b : Bool) : Spells room (write indent? depth (bool b)) (bool b) := by
  cases b with
  | false =>
    rw [write]
    exact .of_succ ⟨'f', _, rfl, rfl⟩ fun _ _ _ _ => rfl
  | true =>
    rw [write]
    exact .of_succ ⟨'t', _, rfl, rfl⟩ fun _ _ _ _ => rfl

theorem opens_ofInt (k : Int) : Opens (Text.ofInt k) := by
  obtain ⟨c, digits, hdigits, hdigit⟩ := exists_toDigits_eq_cons k.natAbs
  rw [ofInt_eq]
  split
  · exact ⟨'-', _, rfl, rfl⟩
  · refine ⟨c, digits, hdigits, ?_⟩
    rw [Bool.eq_false_iff]
    intro hdelimiter
    rw [(ne_of_isDelimiter hdelimiter).1] at hdigit
    cases hdigit

theorem spells_int {k : Int} (hk : (Nat.toDigits 10 k.natAbs).length ≤ Text.mostDigits) :
    Spells room (write indent? depth (int k)) (int k) := by
  rw [write]
  exact .of_succ (opens_ofInt k) fun _ _ _ hr => readValue_ofInt hk hr

theorem length_le_length_writeString (t : Text) : t.length + 2 ≤ (writeString t).length := by
  have hchar (c : Char) : 1 ≤ (escapedChar c).length := by
    obtain ⟨e, hwritten, -⟩ | ⟨hwritten, -⟩ | ⟨hwritten, -⟩ := escapedChar_cases c <;> rw [hwritten] <;> simp
  have hbody : t.length ≤ (t.flatMap escapedChar).length := by
    induction t with
    | nil => exact Nat.zero_le _
    | cons c t ih =>
      have := hchar c
      rw [List.flatMap_cons, List.length_append, List.length_cons]
      omega
  simp only [writeString, List.cons_append, List.length_cons, List.length_append, List.length_nil]
  omega

theorem writeString_append (t r : Text) : writeString t ++ r = '"' :: (t.flatMap escapedChar ++ '"' :: r) := by
  simp [writeString]

theorem spells_string (t : Text) : Spells room (write indent? depth (string t)) (string t) := by
  rw [write]
  refine .of_succ ⟨'"', _, rfl, rfl⟩ fun n r hn hr => ?_
  have hlength := length_le_length_writeString t
  rw [writeString_append, readValue.eq_def]
  change (readText n (t.flatMap escapedChar ++ '"' :: r)).map _ = _
  rw [readText_written t r (by omega)]
  rfl

/-! ## Arrays and objects -/

theorem join_map_cons {α : Type} (sep : Text) (w : α → Text) (a : α) {as : List α} (hne : as ≠ []) :
    Text.join sep ((a :: as).map w) = w a ++ (sep ++ Text.join sep (as.map w)) := by
  obtain ⟨b, bs, rfl⟩ := List.exists_cons_of_ne_nil hne
  exact List.append_assoc _ _ _

theorem opens_join {α : Type} (sep : Text) {w : α → Text} {as : List α} (hne : as ≠ []) (h : ∀ a ∈ as, Opens (w a)) :
    Opens (Text.join sep (as.map w)) := by
  obtain ⟨a, as, rfl⟩ := List.exists_cons_of_ne_nil hne
  have ha := h a List.mem_cons_self
  cases as with
  | nil => exact ha
  | cons b as => exact join_map_cons sep w a (List.cons_ne_nil b as) ▸ ha.append _

/-- An item is read; what follows tells whether there are more. -/
theorem readItems_item (hvalue : Spells room t value) (hn : t.length < n) (hr : StartsIn (isDelimiter ·) r) :
    readItems room (n + 1) (t ++ r) = match skipSpace r with
      | ',' :: s => (readItems room n (skipSpace s)).map fun (items, r) => (value :: items, r)
      | ']' :: s => .ok ([value], s)
      | _ => .error .malformed := by
  rw [readItems, hvalue.read n r hn hr]
  rfl

/-- By induction on the items, with the comma or the bracket behind each. -/
theorem readItems_join {gaps : Gaps} (hgaps : gaps.Blank) {w : Json → Text} {items : List Json} (hne : items ≠ [])
    (hitems : ∀ item ∈ items, Spells room (w item) item)
    (hn : (Text.join gaps.between (items.map w)).length + 1 < n) (r : Text) :
    readItems room n (Text.join gaps.between (items.map w) ++ (gaps.last ++ ']' :: r)) = .ok (items, r) := by
  induction items generalizing n with
  | nil => exact absurd rfl hne
  | cons item items ih =>
    obtain _ | n := n
    · cases hn
    obtain ⟨hitem, hrest⟩ := List.forall_mem_cons.1 hitems
    by_cases hlast : items = []
    · subst hlast
      rw [List.map_cons, List.map_nil, Text.join] at hn ⊢
      rw [readItems_item hitem (by omega) (startsIn_isDelimiter hgaps.last (startsIn_cons.2 rfl)),
        skipSpace_append hgaps.last (startsIn_cons.2 rfl)]
      rfl
    · obtain ⟨space, hbetween, hspace⟩ := hgaps.between
      rw [join_map_cons _ _ _ hlast, List.length_append, List.length_append, hbetween, List.length_cons, ← hbetween] at hn
      rw [join_map_cons _ _ _ hlast, List.append_assoc, List.append_assoc, hbetween, List.cons_append, ← hbetween,
        readItems_item hitem (by omega) (startsIn_cons.2 rfl)]
      -- the comma of the gap is read, and its blanks are skipped up to the next item
      change (readItems room n (skipSpace (space ++ _))).map _ = _
      have hopens := (opens_join gaps.between hlast fun next hnext => (hrest next hnext).opens).append (gaps.last ++ ']' :: r)
      rw [skipSpace_append hspace hopens.startsIn, ih hlast hrest (by omega)]
      rfl

theorem opens_writeField (w : Json → Text) (f : Text × Json) : Opens (writeField w f) := ⟨'"', _, rfl, rfl⟩

/-- A field is read and put to those before; what follows tells whether there are more. -/
theorem readFields_writeField {w : Json → Text} {name : Text} (hvalue : Spells room (w value) value)
    (hn : (writeField w (name, value)).length ≤ n) (before : List (Text × Json)) (hr : StartsIn (isDelimiter ·) r) :
    readFields room (n + 1) before (writeField w (name, value) ++ r) = match skipSpace r with
      | ',' :: s => readFields room n (Keyed.put name value before) (skipSpace s)
      | '\x7d' :: s => .ok (Keyed.put name value before, s)
      | _ => .error .malformed := by
  have hlength := length_le_length_writeString name
  rw [writeField, List.length_append, List.length_cons, List.length_cons] at hn
  dsimp only at hn
  have hname : name.length < n := by omega
  rw [writeField, List.append_assoc, writeString_append, readFields, readText_written _ _ hname]
  change ((readValue room n (skipSpace ([' '] ++ (w value ++ r)))).bind fun p => match skipSpace p.2 with
      | ',' :: r => readFields room n (Keyed.put name p.1 before) (skipSpace r)
      | '\x7d' :: r => .ok (Keyed.put name p.1 before, r)
      | _ => .error .malformed) = _
  rw [skipSpace_append (List.forall_mem_singleton.2 rfl) (hvalue.opens.append r).startsIn, hvalue.read n r (by omega) hr]
  rfl

/-- By induction on the fields, which go behind those read before. -/
theorem readFields_join {gaps : Gaps} (hgaps : gaps.Blank) {w : Json → Text} {fields : List (Text × Json)}
    (before : List (Text × Json)) (hne : fields ≠ []) (hnames : (Keyed.names (before ++ fields)).Nodup)
    (hfields : ∀ f ∈ fields, Spells room (w f.2) f.2)
    (hn : (Text.join gaps.between (fields.map (writeField w))).length + 1 < n) (r : Text) :
    readFields room n before (Text.join gaps.between (fields.map (writeField w)) ++ (gaps.last ++ '\x7d' :: r)) =
      .ok (before ++ fields, r) := by
  induction fields generalizing n before with
  | nil => exact absurd rfl hne
  | cons f fields ih =>
    obtain _ | n := n
    · cases hn
    obtain ⟨name, value⟩ := f
    have hvalue : Spells room (w value) value := hfields _ List.mem_cons_self
    have hrest := (List.forall_mem_cons.1 hfields).2
    -- no field before has this name, so nothing is replaced
    have hput : Keyed.put name value before = before ++ [(name, value)] := by
      apply Keyed.put_of_not_mem
      rw [Keyed.names, List.map_append, List.nodup_append] at hnames
      intro hname
      exact hnames.2.2 name hname name List.mem_cons_self rfl
    by_cases hlast : fields = []
    · subst hlast
      rw [List.map_cons, List.map_nil, Text.join] at hn ⊢
      rw [readFields_writeField hvalue (by omega) before (startsIn_isDelimiter hgaps.last (startsIn_cons.2 rfl)),
        skipSpace_append hgaps.last (startsIn_cons.2 rfl), hput]
      rfl
    · obtain ⟨space, hbetween, hspace⟩ := hgaps.between
      rw [join_map_cons _ _ _ hlast, List.length_append, List.length_append, hbetween, List.length_cons, ← hbetween] at hn
      rw [join_map_cons _ _ _ hlast, List.append_assoc, List.append_assoc, hbetween, List.cons_append, ← hbetween,
        readFields_writeField hvalue (by omega) before (startsIn_cons.2 rfl), hput]
      change readFields room n _ (skipSpace (space ++ _)) = _
      have hopens := (opens_join gaps.between hlast fun f _ => opens_writeField w f).append (gaps.last ++ '\x7d' :: r)
      rw [skipSpace_append hspace hopens.startsIn, ih _ hlast _ hrest (by omega)]
      · rw [List.append_assoc]
        rfl
      · rwa [List.append_assoc]

/-- What is in brackets is read as items, unless the brackets are empty. -/
theorem readValue_bracket (hs : ∀ c ∈ s, isSpace c = true) (ht : Opens t) :
    readValue (room + 1) (n + 1) ('[' :: (s ++ t)) = (readItems room n t).map fun (items, r) => (array items, r) := by
  rw [readValue, if_neg (Nat.succ_ne_zero room), skipSpace_append hs ht.startsIn]
  obtain ⟨c, u, rfl, hc⟩ := ht
  split
  · next heq =>
    rw [(List.cons.inj heq).1] at hc
    cases hc
  · rfl

/-- What is in braces is read as fields, unless the braces are empty. -/
theorem readValue_brace (hs : ∀ c ∈ s, isSpace c = true) (ht : Opens t) :
    readValue (room + 1) (n + 1) ('\x7b' :: (s ++ t)) = (readFields room n [] t).map fun (fields, r) => (object fields, r) := by
  rw [readValue, if_neg (Nat.succ_ne_zero room), skipSpace_append hs ht.startsIn]
  obtain ⟨c, u, rfl, hc⟩ := ht
  split
  · next heq =>
    rw [(List.cons.inj heq).1] at hc
    cases hc
  · rfl

theorem spells_array {items : List Json} (hitems : ∀ item ∈ items, Spells room (write indent? (depth + 1) item) item) :
    Spells (room + 1) (write indent? depth (array items)) (array items) := by
  by_cases hne : items = []
  · subst hne
    rw [write]
    exact .of_succ ⟨'[', _, rfl, rfl⟩ fun _ _ _ _ => rfl
  have hgaps := blank_gapsAt indent? depth
  have hopens := opens_join (gapsAt indent? depth).between hne fun item hitem => (hitems item hitem).opens
  rw [write_array hne]
  refine .of_succ ⟨'[', _, rfl, rfl⟩ fun n r hn hr => ?_
  simp only [List.length_cons, List.length_append, List.length_nil] at hn
  simp only [List.cons_append, List.append_assoc, List.nil_append]
  rw [readValue_bracket hgaps.first (hopens.append _), readItems_join hgaps hne hitems (by omega)]
  rfl

theorem spells_object {fields : List (Text × Json)} (hnames : (Keyed.names fields).Nodup)
    (hfields : ∀ f ∈ fields, Spells room (write indent? (depth + 1) f.2) f.2) :
    Spells (room + 1) (write indent? depth (object fields)) (object fields) := by
  by_cases hne : fields = []
  · subst hne
    rw [write]
    exact .of_succ ⟨'\x7b', _, rfl, rfl⟩ fun _ _ _ _ => rfl
  have hgaps := blank_gapsAt indent? depth
  have hopens := opens_join (gapsAt indent? depth).between hne fun f _ => opens_writeField (write indent? (depth + 1)) f
  rw [write_object hne]
  refine .of_succ ⟨'\x7b', _, rfl, rfl⟩ fun n r hn hr => ?_
  simp only [List.length_cons, List.length_append, List.length_nil] at hn
  simp only [List.cons_append, List.append_assoc, List.nil_append]
  rw [readValue_brace hgaps.first (hopens.append _), readFields_join hgaps [] hne hnames hfields (by omega)]
  rfl

/-- By induction on what makes a value plain. -/
theorem spells_write (h : Plain room value) (indent? : Option Nat) (depth : Nat) :
    Spells room (write indent? depth value) value := by
  induction h generalizing depth with
  | null => exact spells_null
  | bool b => exact spells_bool b
  | int hdigits => exact spells_int hdigits
  | string t => exact spells_string t
  | array _ ih => exact spells_array fun item hitem => ih item hitem (depth + 1)
  | object hnames _ ih => exact spells_object hnames fun f hf => ih f hf (depth + 1)

/-- What was written is read back, with any indentation. -/
theorem ofText_write (h : Plain deepest value) (indent? : Option Nat) : ofText (write indent? 0 value) = .ok value := by
  have hspells := spells_write h indent? 0
  have hskip : skipSpace (write indent? 0 value) = write indent? 0 value :=
    skipSpace_append (s := []) nofun hspells.opens.startsIn
  have hread := hspells.read (2 * (write indent? 0 value).length + 2) [] (by omega) Text.startsIn_nil
  rw [List.append_nil] at hread
  rw [ofText, hskip, hread]
  rfl

end LineTags.Json
