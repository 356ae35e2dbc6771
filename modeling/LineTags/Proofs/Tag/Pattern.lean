import LineTags.Proofs.Tag.Gaps

/-!
# The pattern of managed tags

What a managed tag is can be said in three ways. The library takes the whole run of letters, digits and underscores behind a mark and cuts it at its underscores. One can also say what such a run looks like: names and a code of four characters, joined by underscores. And one can write a pattern that is matched with backtracking: any number of names, each with an underscore behind it, then four letters or digits, and none of these characters behind them. The pattern takes as many names as it can and gives them back one by one where the rest does not match, and it could end in the middle of a run if it did not look ahead.

All three agree. A pattern is matched in several ways, so it is told by the list of what each way leaves of a text; `Pattern.mem_tag_iff` says that the pattern of tags is matched in one way at most, and in which.
-/

namespace LineTags

open Text

/-! ## Patterns -/

/-- The ways in which a pattern matches the start of a text, the one that is tried first in front, each told by what it leaves of the text. -/
abbrev Pattern := Text → List Text

namespace Pattern

/-- One character that is allowed. -/
def one (allowed : Char → Bool) : Pattern
  | c :: r => if allowed c then [r] else []
  | [] => []

def literal (word : Text) : Pattern := fun t => (after? word t).toList

/-- One pattern and another one behind it. A way to match the first from which the second cannot go on is given up for the next. -/
def andThen (p q : Pattern) : Pattern := fun t => (p t).flatMap q

/-- A pattern any number of times, as often as possible first. -/
def many (p : Pattern) (t : Text) : List Text :=
  ((p t).flatMap fun r => if _h : r.length < t.length then many p r else []) ++ [t]
termination_by t.length

def times : Nat → Pattern → Pattern
  | 0, _ => fun t => [t]
  | n + 1, p => p.andThen (times n p)

/-- Nothing, but only where no banned character follows. -/
def notBefore (banned : Char → Bool) : Pattern := fun t => if t.head?.any banned then [] else [t]

/-- The matches in a text from left to right, each in the way that is tried first, and none before the end of the one in front of it. The identifier is what stands behind the mark. -/
def matchesFrom (p : Pattern) (column : Nat) (t : Text) : List TagMatch :=
  match t with
  | [] => []
  | c :: r =>
    match p (c :: r) with
    | [] => matchesFrom p (column + 1) r
    | rest :: _ =>
      if hless : rest.length < (c :: r).length then
        let width := (c :: r).length - rest.length
        ⟨((c :: r).take width).drop tagMark.length, column, column + width⟩ :: matchesFrom p (column + width) rest
      else matchesFrom p (column + 1) r
termination_by t.length
decreasing_by
  · exact Nat.lt_succ_self r.length
  · exact hless
  · exact Nat.lt_succ_self r.length

variable {p q : Pattern} {t r : Text} {allowed banned : Char → Bool}

theorem mem_one_iff : r ∈ one allowed t ↔ ∃ c, allowed c = true ∧ t = c :: r := by
  cases t with
  | nil => simp [one]
  | cons c s =>
    rw [one]
    constructor
    · intro h
      split at h
      · next hc => exact ⟨c, hc, by rw [List.mem_singleton.1 h]⟩
      · cases h
    · rintro ⟨d, hd, heq⟩
      obtain ⟨rfl, rfl⟩ := List.cons.inj heq
      rw [if_pos hd]
      exact List.mem_singleton_self s

theorem mem_literal_iff {word : Text} : r ∈ literal word t ↔ t = word ++ r := by
  rw [literal, Option.mem_toList, after?]
  constructor
  · intro h
    split at h
    · next hstart =>
      obtain ⟨s, rfl⟩ := List.isPrefixOf_iff_prefix.1 hstart
      rw [List.drop_left] at h
      rw [Option.some.inj h]
    · cases h
  · rintro rfl
    rw [if_pos (List.isPrefixOf_iff_prefix.2 (List.prefix_append word r)), List.drop_left]

theorem mem_andThen_iff : r ∈ p.andThen q t ↔ ∃ u ∈ p t, r ∈ q u := List.mem_flatMap

theorem mem_notBefore_iff : r ∈ notBefore banned t ↔ r = t ∧ StartsIn (banned · = false) t := by
  cases t with
  | nil => simp [notBefore, startsIn_nil]
  | cons c s =>
    rw [startsIn_cons]
    by_cases hc : banned c = true
    · simp [notBefore, hc]
    · simp [notBefore, hc]

theorem mem_many_iff : r ∈ p.many t ↔ r = t ∨ ∃ u ∈ p t, u.length < t.length ∧ r ∈ p.many u := by
  rw [many, List.mem_append, List.mem_singleton, List.mem_flatMap, or_comm]
  refine or_congr_right (exists_congr fun u => and_congr_right fun _ => ?_)
  by_cases hlt : u.length < t.length
  · simp [hlt]
  · simp [hlt]

/-- A pattern that is matched many times takes a list of pieces, if what it takes at once is always a piece and never empty. -/
theorem mem_many_iff_pieces {Piece : Text → Prop} (hp : ∀ t r, r ∈ p t ↔ ∃ s, Piece s ∧ t = s ++ r)
    (hne : ∀ s, Piece s → s ≠ []) (t r : Text) : r ∈ p.many t ↔ ∃ pieces : List Text, (∀ s ∈ pieces, Piece s) ∧ t = pieces.flatten ++ r := by
  constructor
  · intro h
    induction hn : t.length using Nat.strong_induction_on generalizing t with
    | _ n ih =>
      subst hn
      rcases mem_many_iff.1 h with rfl | ⟨u, hu, hlt, hr⟩
      · exact ⟨[], fun s hs => absurd hs List.not_mem_nil, rfl⟩
      · obtain ⟨s, hs, rfl⟩ := (hp t u).1 hu
        obtain ⟨pieces, hpieces, rfl⟩ := ih u.length hlt u hr rfl
        exact ⟨s :: pieces, List.forall_mem_cons.2 ⟨hs, hpieces⟩, (List.append_assoc s _ r).symm⟩
  · rintro ⟨pieces, hpieces, rfl⟩
    induction pieces with
    | nil => exact mem_many_iff.2 (.inl rfl)
    | cons s pieces ih =>
      obtain ⟨hs, hrest⟩ := List.forall_mem_cons.1 hpieces
      have hpos := List.length_pos_iff.2 (hne s hs)
      refine mem_many_iff.2 (.inr ⟨pieces.flatten ++ r, (hp _ _).2 ⟨s, hs, List.append_assoc s _ r⟩, ?_, ih hrest⟩)
      simp only [List.flatten_cons, List.length_append]
      omega

theorem mem_times_one_iff {n : Nat} : r ∈ times n (one allowed) t ↔ ∃ s, s.length = n ∧ (∀ c ∈ s, allowed c = true) ∧ t = s ++ r := by
  induction n generalizing t with
  | zero =>
    rw [times, List.mem_singleton]
    constructor
    · rintro rfl
      exact ⟨[], rfl, fun c hc => absurd hc List.not_mem_nil, rfl⟩
    · rintro ⟨s, hs, -, rfl⟩
      rw [List.length_eq_zero_iff.1 hs, List.nil_append]
  | succ n ih =>
    rw [times, mem_andThen_iff]
    constructor
    · rintro ⟨u, hu, hr⟩
      obtain ⟨c, hc, rfl⟩ := mem_one_iff.1 hu
      obtain ⟨s, hs, hall, rfl⟩ := ih.1 hr
      exact ⟨c :: s, congrArg (· + 1) hs, List.forall_mem_cons.2 ⟨hc, hall⟩, rfl⟩
    · rintro ⟨s, hs, hall, rfl⟩
      cases s with
      | nil => cases hs
      | cons c s =>
        obtain ⟨hc, hrest⟩ := List.forall_mem_cons.1 hall
        exact ⟨s ++ r, mem_one_iff.2 ⟨c, hc, rfl⟩, ih.2 ⟨s, Nat.succ.inj hs, hrest, rfl⟩⟩

end Pattern

/-! ## Identifiers -/

/-- A name, or a code: letters and digits, at least one. -/
def IsSegment (s : Text) : Prop := s ≠ [] ∧ ∀ c ∈ s, c.isAlphanum = true

/-- Segments with an underscore between neighbours, the last of them of four characters. -/
def IsSegmented (t : Text) : Prop :=
  ∃ names code, t = join ['_'] (names ++ [code]) ∧ (∀ s ∈ names ++ [code], IsSegment s) ∧ code.length = 4

theorem join_concat (sep : Text) (pieces : List Text) (last : Text) :
    join sep (pieces ++ [last]) = (pieces.map (· ++ sep)).flatten ++ last := by
  induction pieces with
  | nil => rfl
  | cons piece pieces ih =>
    obtain ⟨next, others, hnext⟩ := List.exists_cons_of_ne_nil (List.append_ne_nil_of_right_ne_nil pieces (List.cons_ne_nil last []))
    rw [hnext] at ih
    rw [List.cons_append, hnext, join, ih, List.map_cons, List.flatten_cons, List.append_assoc (piece ++ sep)]
    exact List.cons_ne_nil _ _

theorem isSegment_iff {s : Text} : IsSegment s ↔ (!s.isEmpty && s.all Char.isAlphanum) = true := by
  simp [IsSegment]

theorem isIdentifier_iff_isSegmented {t : Text} : isIdentifier t = true ↔ IsSegmented t := by
  rw [isIdentifier, Bool.and_eq_true, List.all_eq_true, beq_iff_eq]
  constructor
  · rintro ⟨hsegments, hlast⟩
    obtain ⟨code, hcode, hlength⟩ := Option.map_eq_some_iff.1 hlast
    have hsplit : split '_' t = (split '_' t).dropLast ++ [code] := (List.dropLast_append_getLast? code hcode).symm
    refine ⟨(split '_' t).dropLast, code, ?_, ?_, hlength⟩
    · rw [← hsplit, join_split]
    · rw [← hsplit]
      exact fun s hs => isSegment_iff.2 (hsegments s hs)
  · rintro ⟨names, code, rfl, hsegments, hlength⟩
    have hsplit : split '_' (join ['_'] (names ++ [code])) = names ++ [code] :=
      split_join (List.append_ne_nil_of_right_ne_nil names (List.cons_ne_nil code [])) fun s hs hmem =>
        absurd ((hsegments s hs).2 '_' hmem) (by decide)
    rw [hsplit]
    refine ⟨fun s hs => isSegment_iff.1 (hsegments s hs), ?_⟩
    rw [List.getLast?_concat, Option.map_some, hlength, codeLength]

namespace Pattern

def letter : Pattern := one Char.isAlphanum

/-- A name with the underscore behind it. -/
def name : Pattern := (letter.andThen letter.many).andThen (one (· == '_'))

def identifier : Pattern := andThen name.many (times codeLength letter)

/-- A managed tag: the mark, an identifier, and no character behind it that an identifier can have. -/
def tag : Pattern := ((literal tagMark).andThen identifier).andThen (notBefore isIdentifierChar)

theorem mem_many_letter_iff {t r : Text} : r ∈ letter.many t ↔ ∃ s, (∀ c ∈ s, c.isAlphanum = true) ∧ t = s ++ r := by
  have hletter : ∀ t r, r ∈ letter t ↔ ∃ s, (∃ c : Char, c.isAlphanum = true ∧ s = [c]) ∧ t = s ++ r := by
    intro t r
    rw [letter, mem_one_iff]
    constructor
    · rintro ⟨c, hc, rfl⟩
      exact ⟨[c], ⟨c, hc, rfl⟩, rfl⟩
    · rintro ⟨_, ⟨c, hc, rfl⟩, rfl⟩
      exact ⟨c, hc, rfl⟩
  rw [mem_many_iff_pieces hletter]
  · constructor
    · rintro ⟨pieces, hpieces, rfl⟩
      refine ⟨pieces.flatten, fun c hc => ?_, rfl⟩
      obtain ⟨s, hs, hmem⟩ := List.mem_flatten.1 hc
      obtain ⟨d, hd, rfl⟩ := hpieces s hs
      exact List.mem_singleton.1 hmem ▸ hd
    · rintro ⟨s, hs, rfl⟩
      refine ⟨s.map fun c => [c], ?_, ?_⟩
      · rw [List.forall_mem_map]
        exact fun c hc => ⟨c, hs c hc, rfl⟩
      · rw [← List.flatMap_def, List.flatMap_singleton']
  · rintro s ⟨c, -, rfl⟩
    exact List.cons_ne_nil c []

theorem mem_name_iff {t r : Text} : r ∈ name t ↔ ∃ s, IsSegment s ∧ t = (s ++ ['_']) ++ r := by
  rw [name, mem_andThen_iff]
  constructor
  · rintro ⟨u, hu, hr⟩
    obtain ⟨v, hv, hmany⟩ := mem_andThen_iff.1 hu
    obtain ⟨c, hc, rfl⟩ := mem_one_iff.1 hv
    obtain ⟨s, hs, rfl⟩ := mem_many_letter_iff.1 hmany
    obtain ⟨d, hd, rfl⟩ := mem_one_iff.1 hr
    refine ⟨c :: s, ⟨List.cons_ne_nil c s, List.forall_mem_cons.2 ⟨hc, hs⟩⟩, ?_⟩
    rw [eq_of_beq hd, List.cons_append, List.cons_append, List.append_assoc, List.singleton_append]
  · rintro ⟨s, ⟨hne, hs⟩, rfl⟩
    cases s with
    | nil => exact absurd rfl hne
    | cons c s =>
      obtain ⟨hc, hrest⟩ := List.forall_mem_cons.1 hs
      refine ⟨'_' :: r, mem_andThen_iff.2 ⟨s ++ '_' :: r, ?_, ?_⟩, mem_one_iff.2 ⟨'_', rfl, rfl⟩⟩
      · refine mem_one_iff.2 ⟨c, hc, ?_⟩
        rw [List.append_assoc, List.singleton_append, List.cons_append]
      · exact mem_many_letter_iff.2 ⟨s, hrest, rfl⟩

theorem mem_identifier_iff {t r : Text} : r ∈ identifier t ↔ ∃ s, isIdentifier s = true ∧ t = s ++ r := by
  have hname : ∀ t r, r ∈ name t ↔ ∃ s, (∃ n, IsSegment n ∧ s = n ++ ['_']) ∧ t = s ++ r := by
    intro t r
    rw [mem_name_iff]
    constructor
    · rintro ⟨n, hn, rfl⟩
      exact ⟨_, ⟨n, hn, rfl⟩, rfl⟩
    · rintro ⟨_, ⟨n, hn, rfl⟩, rfl⟩
      exact ⟨n, hn, rfl⟩
  have hne : ∀ s, (∃ n, IsSegment n ∧ s = n ++ ['_']) → s ≠ [] := by
    rintro s ⟨n, -, rfl⟩
    exact List.append_ne_nil_of_right_ne_nil n (List.cons_ne_nil _ _)
  rw [identifier, mem_andThen_iff]
  constructor
  · rintro ⟨u, hu, hr⟩
    obtain ⟨pieces, hpieces, rfl⟩ := (mem_many_iff_pieces hname hne t u).1 hu
    obtain ⟨code, hlength, hcode, rfl⟩ := mem_times_one_iff.1 hr
    obtain ⟨names, hnames, rfl⟩ : ∃ names : List Text, (∀ n ∈ names, IsSegment n) ∧ pieces = names.map (· ++ ['_']) := by
      clear hu
      induction pieces with
      | nil => exact ⟨[], fun n hn => absurd hn List.not_mem_nil, rfl⟩
      | cons piece pieces ih =>
        obtain ⟨⟨n, hn, rfl⟩, hrest⟩ := List.forall_mem_cons.1 hpieces
        obtain ⟨names, hnames, rfl⟩ := ih hrest
        exact ⟨n :: names, List.forall_mem_cons.2 ⟨hn, hnames⟩, rfl⟩
    refine ⟨join ['_'] (names ++ [code]), isIdentifier_iff_isSegmented.2 ⟨names, code, rfl, ?_, hlength⟩, ?_⟩
    · refine List.forall_mem_append.2 ⟨hnames, fun s hs => ?_⟩
      rw [List.mem_singleton.1 hs]
      exact ⟨List.ne_nil_of_length_pos (hlength ▸ Nat.succ_pos _), hcode⟩
    · rw [join_concat, List.append_assoc]
  · rintro ⟨s, hs, rfl⟩
    obtain ⟨names, code, rfl, hsegments, hlength⟩ := isIdentifier_iff_isSegmented.1 hs
    obtain ⟨hnames, hcode⟩ := List.forall_mem_append.1 hsegments
    refine ⟨code ++ r, (mem_many_iff_pieces hname hne _ _).2 ⟨names.map (· ++ ['_']), ?_, ?_⟩, ?_⟩
    · rw [List.forall_mem_map]
      exact fun n hn => ⟨n, hnames n hn, rfl⟩
    · rw [join_concat, List.append_assoc]
    · exact mem_times_one_iff.2 ⟨code, hlength, (hcode code List.mem_cons_self).2, rfl⟩

/-- A tag is matched in one way: its identifier is the whole run behind the mark. -/
theorem mem_tag_iff {t r : Text} : r ∈ tag t ↔ ∃ s, tagAtStart? t = some s ∧ t = formatTag s ++ r := by
  rw [tag, mem_andThen_iff]
  constructor
  · rintro ⟨u, hu, hr⟩
    obtain ⟨rfl, hends⟩ := mem_notBefore_iff.1 hr
    obtain ⟨v, hv, hid⟩ := mem_andThen_iff.1 hu
    obtain rfl := mem_literal_iff.1 hv
    obtain ⟨s, hs, rfl⟩ := mem_identifier_iff.1 hid
    have ht : tagMark ++ (s ++ r) = formatTag s ++ r := (List.append_assoc tagMark s r).symm
    exact ⟨s, tagAtStart?_eq_some_iff.2 ⟨r, ht, hs, hends⟩, ht⟩
  · rintro ⟨s, htag, rfl⟩
    obtain ⟨after, heq, hs, hends⟩ := tagAtStart?_eq_some_iff.1 htag
    obtain rfl := List.append_cancel_left heq
    refine ⟨r, mem_andThen_iff.2 ⟨s ++ r, ?_, mem_identifier_iff.2 ⟨s, hs, rfl⟩⟩, mem_notBefore_iff.2 ⟨rfl, hends⟩⟩
    exact mem_literal_iff.2 (List.append_assoc tagMark s r)

/-! ## The tags of a text -/

theorem matchesFrom_tag (column : Nat) (t : Text) : tag.matchesFrom column t = tagsFrom column t := by
  induction hn : t.length using Nat.strong_induction_on generalizing column t with
  | _ n ih =>
    subst hn
    cases t with
    | nil =>
      rw [matchesFrom]
      rfl
    | cons c r =>
      rw [matchesFrom]
      cases hways : tag (c :: r) with
      | nil =>
        have hnone : tagAtStart? (c :: r) = none := by
          by_contra hsome
          obtain ⟨s, htag⟩ := Option.ne_none_iff_exists'.1 hsome
          obtain ⟨after, heq, -⟩ := tagAtStart?_eq_some_iff.1 htag
          have hmem : after ∈ tag (c :: r) := mem_tag_iff.2 ⟨s, htag, heq⟩
          rw [hways] at hmem
          cases hmem
        rw [tagsFrom, hnone]
        exact ih r.length (Nat.lt_succ_self _) (column + 1) r rfl
      | cons rest others =>
        have hmem : rest ∈ tag (c :: r) := hways ▸ List.mem_cons_self
        obtain ⟨s, htag, heq⟩ := mem_tag_iff.1 hmem
        obtain ⟨-, -, hid, -⟩ := tagAtStart?_eq_some_iff.1 htag
        have htags : tagsFrom column (c :: r) =
            ⟨s, column, column + (formatTag s).length⟩ :: tagsFrom (column + (formatTag s).length) rest := by
          rw [heq] at htag ⊢
          exact tagsFrom_of_tagAtStart? column hid htag
        have hlength : (c :: r).length = (formatTag s).length + rest.length := by
          rw [heq, List.length_append]
        have hlt : rest.length < (c :: r).length := by
          have : 0 < (formatTag s).length := Nat.succ_pos _
          omega
        have hwidth : (c :: r).length - rest.length = (formatTag s).length := by omega
        have htake : (c :: r).take ((c :: r).length - rest.length) = formatTag s := by
          rw [hwidth, heq, List.take_left]
        dsimp only
        rw [dif_pos hlt, htake, hwidth, htags, ih rest.length hlt _ rest rfl, formatTag, List.drop_left]

theorem le_start_of_mem_matchesFrom {p : Pattern} {column : Nat} {t : Text} {m : TagMatch} (h : m ∈ p.matchesFrom column t) :
    column ≤ m.start := by
  fun_induction matchesFrom p column t with
  | case1 => cases h
  | case2 column c r _ ih => exact Nat.le_of_succ_le (ih h)
  | case3 column c r rest others _ hlt width ih =>
    rcases List.mem_cons.1 h with rfl | h
    · exact Nat.le_refl _
    · exact Nat.le_of_add_right_le (ih h)
  | case4 column c r rest others _ hlt ih => exact Nat.le_of_succ_le (ih h)

/-- Whatever a pattern finds, it finds in order and without overlap. -/
theorem pairwise_matchesFrom (p : Pattern) (column : Nat) (t : Text) : (p.matchesFrom column t).Pairwise fun m n => m.stop ≤ n.start := by
  fun_induction matchesFrom p column t with
  | case1 => exact .nil
  | case2 column c r _ ih => exact ih
  | case3 column c r rest others _ hlt width ih =>
    exact .cons (fun n hn => le_start_of_mem_matchesFrom hn) ih
  | case4 column c r rest others _ hlt ih => exact ih

end Pattern

theorem mem_tagsFrom_iff {column : Nat} {t : Text} {m : TagMatch} :
    m ∈ tagsFrom column t ↔
      ∃ i, tagAtStart? (t.drop i) = some m.identifier ∧ m.start = column + i ∧
        m.stop = m.start + tagMark.length + m.identifier.length := by
  induction t generalizing column with
  | nil =>
    refine iff_of_false List.not_mem_nil ?_
    rintro ⟨i, htag, -⟩
    rw [List.drop_nil] at htag
    cases htag
  | cons c r ih =>
    have hhere : m ∈ (tagAtStart? (c :: r)).toList.map (fun s => (⟨s, column, column + tagMark.length + s.length⟩ : TagMatch)) ↔
        tagAtStart? (c :: r) = some m.identifier ∧ m.start = column ∧ m.stop = m.start + tagMark.length + m.identifier.length := by
      obtain ⟨s, start, stop⟩ := m
      rw [List.mem_map]
      constructor
      · rintro ⟨s', hs', heq⟩
        obtain ⟨rfl, rfl, rfl⟩ := TagMatch.mk.inj heq
        exact ⟨Option.mem_toList.1 hs', rfl, rfl⟩
      · rintro ⟨htag, hstart, hstop⟩
        obtain rfl : start = column := hstart
        exact ⟨s, Option.mem_toList.2 htag, by rw [show stop = start + tagMark.length + s.length from hstop]⟩
    have hsplit : tagsFrom column (c :: r) =
        (tagAtStart? (c :: r)).toList.map (fun s => (⟨s, column, column + tagMark.length + s.length⟩ : TagMatch)) ++
          tagsFrom (column + 1) r := by
      rw [tagsFrom]
      cases tagAtStart? (c :: r) <;> rfl
    rw [hsplit, List.mem_append, hhere, ih]
    constructor
    · rintro (⟨htag, hstart, hstop⟩ | ⟨i, htag, hstart, hstop⟩)
      · exact ⟨0, htag, hstart, hstop⟩
      · exact ⟨i + 1, htag, by omega, hstop⟩
    · rintro ⟨_ | i, htag, hstart, hstop⟩
      · exact .inl ⟨htag, hstart, hstop⟩
      · exact .inr ⟨i, htag, by omega, hstop⟩

/-- A tag stands in a line where it says: from its start on there is the mark, the longest run of letters, digits and underscores behind it is the identifier, and this consists of segments and a code. -/
structure TagMatch.StandsIn (m : TagMatch) (line : Text) : Prop where
  run : ∃ r, line.drop m.start = tagMark ++ r ∧ r.takeWhile isIdentifierChar = m.identifier
  segmented : IsSegmented m.identifier
  stop : m.stop = m.start + tagMark.length + m.identifier.length

theorem mem_findTags_iff {line : Text} {m : TagMatch} : m ∈ findTags line ↔ m.StandsIn line := by
  rw [findTags, mem_tagsFrom_iff]
  constructor
  · rintro ⟨i, htag, hstart, hstop⟩
    obtain rfl : i = m.start := by omega
    obtain ⟨after, hdrop, hid, hends⟩ := tagAtStart?_eq_some_iff.1 htag
    refine ⟨⟨m.identifier ++ after, ?_, ?_⟩, isIdentifier_iff_isSegmented.1 hid, hstop⟩
    · rw [hdrop, formatTag, List.append_assoc]
    · rw [takeWhile_append m.identifier hends, List.takeWhile_eq_self_iff.2 (isWord_of_isIdentifier hid)]
  · rintro ⟨⟨r, hdrop, hrun⟩, hsegmented, hstop⟩
    have hends := startsIn_dropWhile isIdentifierChar r
    refine ⟨m.start, tagAtStart?_eq_some_iff.2 ⟨r.dropWhile isIdentifierChar, ?_, isIdentifier_iff_isSegmented.2 hsegmented, hends⟩,
      (Nat.zero_add _).symm, hstop⟩
    rw [hdrop, formatTag, List.append_assoc, ← hrun, List.takeWhile_append_dropWhile]

theorem onlyTag?_eq (line : Text) :
    onlyTag? line =
      if 2 ≤ (findTags line).length then .error ⟨line, (findTags line).map TagMatch.identifier⟩ else .ok (findTags line).head? := by
  unfold onlyTag?
  split
  · next m n ms h =>
    rw [h, if_pos (by simp)]
  · next hfew =>
    rw [if_neg]
    intro htwo
    match h : findTags line with
    | [] => simp [h] at htwo
    | [m] => simp [h] at htwo
    | m :: n :: ms => exact hfew m n ms h

theorem isIdentifier_iff_firstTag? {t : Text} :
    isIdentifier t = true ↔ ∃ m, firstTag? (tagMark ++ t) = some m ∧ m.start = 0 ∧ m.stop = (tagMark ++ t).length := by
  rw [firstTag?]
  constructor
  · intro hid
    rw [← formatTag, findTags_formatTag hid]
    exact ⟨_, rfl, rfl, rfl⟩
  · rintro ⟨m, hm, hstart, hstop⟩
    obtain ⟨⟨r, hdrop, hrun⟩, hsegmented, hlength⟩ := mem_findTags_iff.1 (List.mem_of_mem_head? hm)
    rw [hstart, List.drop_zero] at hdrop
    obtain rfl := List.append_cancel_left hdrop
    have hwhole : m.identifier.length = t.length := by
      rw [hstart, List.length_append] at *
      omega
    have hsame : m.identifier = t := by
      rw [← hrun] at hwhole ⊢
      exact (List.takeWhile_prefix _).eq_of_length hwhole
    exact isIdentifier_iff_isSegmented.2 (hsame ▸ hsegmented)

/-- The tags of a line are those that stand in it, in order and without overlap, and they are what the pattern finds. The first one is the one that is detected, and where only one is allowed, two are refused with the identifiers of all. An identifier is what makes a tag of all that stands behind a mark. -/
theorem findTags_grammar (line : Text) :
    (∀ m, m ∈ findTags line ↔ m.StandsIn line) ∧
    (findTags line).Pairwise (fun m n => m.stop ≤ n.start) ∧
    findTags line = Pattern.tag.matchesFrom 0 line ∧
    firstTag? line = (findTags line).head? ∧
    onlyTag? line =
      (if 2 ≤ (findTags line).length then .error ⟨line, (findTags line).map TagMatch.identifier⟩ else .ok (firstTag? line)) ∧
    ∀ t, (isIdentifier t = true ↔ [] ∈ Pattern.identifier t) ∧
      (isIdentifier t = true ↔ ∃ m, firstTag? (tagMark ++ t) = some m ∧ m.start = 0 ∧ m.stop = (tagMark ++ t).length) := by
  have hpattern : findTags line = Pattern.tag.matchesFrom 0 line := (Pattern.matchesFrom_tag 0 line).symm
  refine ⟨fun _ => mem_findTags_iff, ?_, hpattern, rfl, onlyTag?_eq line, fun t => ⟨?_, isIdentifier_iff_firstTag?⟩⟩
  · rw [hpattern]
    exact Pattern.pairwise_matchesFrom _ 0 line
  · rw [Pattern.mem_identifier_iff]
    simp

/-- The run behind the first mark has two underscores in a row, the one behind the second ends in five characters, and the one behind the third is taken in whole. -/
example : (findTags "#id:a__bcde #id:abcde#id:ab_c_1234#id:ab_1234/".toList).map TagMatch.identifier = ["ab_c_1234".toList, "ab_1234".toList] := by
  decide

end LineTags
