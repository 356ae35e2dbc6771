import LineTags.Proofs.Tag.CommentCut

/-!
# Where a comment starts

The search for a comment reads a line once and does not know yet, at an open quote, whether the quote will be closed; if it is not, the rest is read again. What it finds can be said without the search: of the slashes that no backslash escapes, that a second slash follows, and that stand between no two paired quotes, the first one starts the comment. Quotes are paired from the left, and a last one that is alone pairs with nothing.
-/

namespace LineTags

open Text

namespace CommentedLine

/-! ### The rule -/

/-- The characters of a text that no backslash escapes, with their columns. From left to right, a backslash takes the character behind it with it. -/
def unescapedFrom (column : Nat) : Text → List (Nat × Char)
  | [] => []
  | '\\' :: _ :: r => (column, '\\') :: unescapedFrom (column + 2) r
  | c :: r => (column, c) :: unescapedFrom (column + 1) r

/-- The columns of the quotes that no backslash escapes. -/
def quotesFrom (column : Nat) (t : Text) : List Nat := ((unescapedFrom column t).filter (·.2 == '"')).map Prod.fst

/-- The columns of quotes paired from the left. A last one without a partner is in no pair. -/
def quotePairs : List Nat → List (Nat × Nat)
  | opening :: closing :: r => (opening, closing) :: quotePairs r
  | _ => []

/-- Whether an unescaped slash stands in a column, with another slash right behind it. -/
def IsSlashPair (column : Nat) (t : Text) (i : Nat) : Prop :=
  (i, '/') ∈ unescapedFrom column t ∧ t[i + 1 - column]? = some '/'

instance (column : Nat) (t : Text) (i : Nat) : Decidable (IsSlashPair column t i) :=
  inferInstanceAs (Decidable (_ ∧ _))

/-- Whether a column lies between the two quotes of a pair. -/
def IsQuoted (quotes : List Nat) (i : Nat) : Prop := ∃ p ∈ quotePairs quotes, p.1 < i ∧ i < p.2

instance (quotes : List Nat) (i : Nat) : Decidable (IsQuoted quotes i) :=
  inferInstanceAs (Decidable (∃ p ∈ _, _))

/-- Whether a comment may start in a column of a line. -/
def MayStart (line : Text) (i : Nat) : Prop := IsSlashPair 0 line i ∧ ¬IsQuoted (quotesFrom 0 line) i

instance (line : Text) (i : Nat) : Decidable (MayStart line i) := inferInstanceAs (Decidable (_ ∧ _))

/-! ### Columns -/

variable {n : Nat} {c : Char} {r t : Text}

theorem eq_nil_of_forall_ne_cons (h : ∀ d s, c = '\\' → r = d :: s → False) (hc : c = '\\') : r = [] := by
  cases r with
  | nil => rfl
  | cons d s => exact (h d s hc rfl).elim

theorem unescapedFrom_skip (hescape : c = '\\' → r = []) (n : Nat) :
    unescapedFrom n (c :: r) = (n, c) :: unescapedFrom (n + 1) r := by
  rw [unescapedFrom]
  rintro d s hc rfl
  cases hescape hc

theorem le_of_mem_unescapedFrom {x : Nat × Char} (h : x ∈ unescapedFrom n t) : n ≤ x.1 := by
  fun_induction unescapedFrom n t with
  | case1 => cases h
  | case2 n d s ih =>
    rcases List.mem_cons.1 h with rfl | h
    · exact Nat.le_refl _
    · exact Nat.le_trans (Nat.le_add_right n 2) (ih h)
  | case3 n d s _ ih =>
    rcases List.mem_cons.1 h with rfl | h
    · exact Nat.le_refl _
    · exact Nat.le_of_succ_le (ih h)

theorem le_of_isSlashPair {i : Nat} (h : IsSlashPair n t i) : n ≤ i := le_of_mem_unescapedFrom h.1

theorem le_of_mem_quotesFrom {q : Nat} (h : q ∈ quotesFrom n t) : n ≤ q := by
  obtain ⟨x, hx, rfl⟩ := List.mem_map.1 h
  exact le_of_mem_unescapedFrom (List.mem_of_mem_filter hx)

theorem getElem?_cons_of_le {i : Nat} (h : n + 1 ≤ i) (c : Char) (r : Text) : (c :: r)[i + 1 - n]? = r[i + 1 - (n + 1)]? := by
  have hcolumn : i + 1 - n = i + 1 - (n + 1) + 1 := by omega
  rw [hcolumn]
  rfl

theorem isSlashPair_escape (d : Char) (i : Nat) : IsSlashPair n ('\\' :: d :: r) i ↔ IsSlashPair (n + 2) r i := by
  unfold IsSlashPair
  have hmem : (i, '/') ∈ unescapedFrom n ('\\' :: d :: r) ↔ (i, '/') ∈ unescapedFrom (n + 2) r := by
    rw [unescapedFrom, List.mem_cons]
    exact or_iff_right (by simp)
  rw [hmem]
  refine and_congr_right fun h => ?_
  have hle : n + 2 ≤ i := le_of_mem_unescapedFrom h
  rw [getElem?_cons_of_le (Nat.le_of_succ_le hle), getElem?_cons_of_le hle]

theorem isSlashPair_skip (hescape : c = '\\' → r = []) (i : Nat) :
    IsSlashPair n (c :: r) i ↔ (i = n ∧ c = '/' ∧ r.head? = some '/') ∨ IsSlashPair (n + 1) r i := by
  unfold IsSlashPair
  rw [unescapedFrom_skip hescape, List.mem_cons, or_and_right]
  refine or_congr ?_ (and_congr_right fun h => ?_)
  · constructor
    · rintro ⟨heq, hnext⟩
      obtain ⟨rfl, rfl⟩ := Prod.mk.inj heq
      rw [Nat.add_sub_cancel_left] at hnext
      exact ⟨rfl, rfl, List.head?_eq_getElem? ▸ hnext⟩
    · rintro ⟨rfl, rfl, hhead⟩
      rw [Nat.add_sub_cancel_left]
      exact ⟨rfl, List.head?_eq_getElem? ▸ hhead⟩
  · rw [getElem?_cons_of_le (le_of_mem_unescapedFrom h)]

theorem quotesFrom_escape (d : Char) : quotesFrom n ('\\' :: d :: r) = quotesFrom (n + 2) r := rfl

theorem quotesFrom_quote : quotesFrom n ('"' :: r) = n :: quotesFrom (n + 1) r := by
  rw [quotesFrom, unescapedFrom_skip (fun h => absurd h (by decide))]
  rfl

theorem quotesFrom_skip (hescape : c = '\\' → r = []) (hquote : c ≠ '"') :
    quotesFrom n (c :: r) = quotesFrom (n + 1) r := by
  rw [quotesFrom, unescapedFrom_skip hescape, List.filter_cons_of_neg]
  · rfl
  · exact fun h => hquote (eq_of_beq h)

/-- A span that is never closed is one with no quote behind it. -/
theorem scan_true_eq_none_iff (t : Text) (n : Nat) : scan true t = none ↔ quotesFrom n t = [] := by
  induction t using escapeInduction generalizing n with
  | nil => exact iff_of_true rfl rfl
  | lone => exact iff_of_true rfl rfl
  | escape d r ih =>
    rw [scan_escape, Option.map_eq_none_iff]
    exact ih (n + 2)
  | other c r hc ih =>
    by_cases hquote : c = '"'
    · obtain ⟨l, hl⟩ := Option.isSome_iff_exists.1 (isSome_scan_false r)
      rw [hquote, scan_true_quote, hl, quotesFrom_quote]
      exact iff_of_false (Option.some_ne_none _) (List.cons_ne_nil _ _)
    · have hescape : c = '\\' → r = [] := fun h => absurd h hc
      rw [scan_skip hescape hquote (fun _ h => Bool.noConfusion h), Option.map_eq_none_iff,
        quotesFrom_skip hescape hquote]
      exact ih (n + 1)

/-! ### The first of the columns -/

/-- Whether a text is cut at the first of the columns with a property, or kept whole if no column has it. -/
def IsCut (P : Nat → Prop) (column : Nat) (t : Text) (l : CommentedLine) : Prop :=
  (∃ i, P i ∧ (∀ j, P j → i ≤ j) ∧ l = ⟨t.take (i - column), t.drop (i - column)⟩) ∨ ((∀ j, ¬P j) ∧ l = ⟨t, []⟩)

variable {P Q : Nat → Prop} {l : CommentedLine}

theorem isCut_nil (h : ∀ i, ¬P i) : IsCut P n [] ⟨[], []⟩ := .inr ⟨h, rfl⟩

theorem isCut_here (hn : P n) (hle : ∀ i, P i → n ≤ i) : IsCut P n t ⟨[], t⟩ := by
  refine .inl ⟨n, hn, hle, ?_⟩
  rw [Nat.sub_self]
  rfl

theorem IsCut.congr (h : IsCut P n t l) (hiff : ∀ i, Q i ↔ P i) : IsCut Q n t l := by
  have hPQ : Q = P := funext fun i => propext (hiff i)
  exact hPQ ▸ h

theorem IsCut.prepend (h : IsCut P (n + 1) r l) (c : Char) (hle : ∀ i, P i → n + 1 ≤ i) :
    IsCut P n (c :: r) (l.prepend c) := by
  obtain ⟨i, hi, hfirst, rfl⟩ | ⟨hnone, rfl⟩ := h
  · refine .inl ⟨i, hi, hfirst, ?_⟩
    have hcolumn : i - n = i - (n + 1) + 1 := by
      have := hle i hi
      omega
    rw [hcolumn]
    rfl
  · exact .inr ⟨hnone, rfl⟩

theorem IsCut.prepend_escape (h : IsCut P (n + 2) r l) (d : Char) (hle : ∀ i, P i → n + 2 ≤ i) :
    IsCut P n ('\\' :: d :: r) ((l.prepend d).prepend '\\') :=
  (h.prepend d hle).prepend '\\' fun i hi => Nat.le_of_succ_le (hle i hi)

theorem isSlashPair_cons_of_head? (hescape : c = '\\' → r = []) (hslash : c = '/' → r.head? ≠ some '/') (i : Nat) :
    IsSlashPair n (c :: r) i ↔ IsSlashPair (n + 1) r i := by
  rw [isSlashPair_skip hescape]
  constructor
  · rintro (⟨-, hc, hhead⟩ | h)
    · exact absurd hhead (hslash hc)
    · exact h
  · exact .inr

theorem isSlashPair_slashes (r : Text) (n : Nat) : IsSlashPair n ('/' :: '/' :: r) n :=
  (isSlashPair_skip (fun h => absurd h (by decide)) n).2 (.inl ⟨rfl, rfl, rfl⟩)

theorem not_isSlashPair_nil (i : Nat) : ¬IsSlashPair n [] i := fun h => List.not_mem_nil h.1

theorem isCut_ofUnquoted (t : Text) (n : Nat) : IsCut (IsSlashPair n t) n t (ofUnquoted t) := by
  fun_induction ofUnquoted t generalizing n with
  | case1 => exact isCut_nil not_isSlashPair_nil
  | case2 d r ih =>
    exact ((ih (n + 2)).prepend_escape d fun i => le_of_isSlashPair).congr (isSlashPair_escape d)
  | case3 r => exact isCut_here (isSlashPair_slashes r n) fun i => le_of_isSlashPair
  | case4 c r hescape hslash ih =>
    have hhead : c = '/' → r.head? ≠ some '/' := fun hc => head?_ne_of_forall_ne_cons fun s => hslash s hc
    exact ((ih (n + 1)).prepend c fun i => le_of_isSlashPair).congr (isSlashPair_cons_of_head? (eq_nil_of_forall_ne_cons hescape) hhead)

/-! ### Quoted columns -/

/-- Whether a comment may start in a column of a stretch, where the quotes that are open before it are given. -/
def MayStartFrom (opened : List Nat) (column : Nat) (t : Text) (i : Nat) : Prop :=
  IsSlashPair column t i ∧ ¬IsQuoted (opened ++ quotesFrom column t) i

theorem isQuoted_cons_cons {p q : Nat} {quotes : List Nat} (i : Nat) :
    IsQuoted (p :: q :: quotes) i ↔ (p < i ∧ i < q) ∨ IsQuoted quotes i := by
  unfold IsQuoted
  rw [quotePairs]
  exact List.exists_mem_cons_iff _ _ _

theorem not_isQuoted_singleton (q i : Nat) : ¬IsQuoted [q] i := fun ⟨_, hp, _⟩ => List.not_mem_nil hp

theorem mem_of_mem_quotePairs {p : Nat × Nat} {quotes : List Nat} (h : p ∈ quotePairs quotes) : p.1 ∈ quotes := by
  fun_induction quotePairs quotes with
  | case1 opening closing r ih =>
    rcases List.mem_cons.1 h with rfl | h
    · exact List.mem_cons_self
    · exact List.mem_cons_of_mem _ (List.mem_cons_of_mem _ (ih h))
  | case2 => cases h

theorem not_isQuoted_quotesFrom (t : Text) (n : Nat) : ¬IsQuoted (quotesFrom n t) n :=
  fun ⟨_, hp, hlt, _⟩ => Nat.not_lt.2 (le_of_mem_quotesFrom (mem_of_mem_quotePairs hp)) hlt

theorem MayStartFrom.le {opened : List Nat} {i : Nat} (h : MayStartFrom opened n t i) : n ≤ i := le_of_isSlashPair h.1

variable {opened : List Nat}

theorem mayStartFrom_escape (d : Char) (i : Nat) :
    MayStartFrom opened n ('\\' :: d :: r) i ↔ MayStartFrom opened (n + 2) r i := by
  unfold MayStartFrom
  rw [isSlashPair_escape, quotesFrom_escape]

theorem mayStartFrom_skip (hescape : c = '\\' → r = []) (hquote : c ≠ '"') (hslash : c = '/' → r.head? ≠ some '/')
    (i : Nat) : MayStartFrom opened n (c :: r) i ↔ MayStartFrom opened (n + 1) r i := by
  unfold MayStartFrom
  rw [isSlashPair_cons_of_head? hescape hslash, quotesFrom_skip hescape hquote]

theorem mayStartFrom_opening (i : Nat) : MayStartFrom [] n ('"' :: r) i ↔ MayStartFrom [n] (n + 1) r i := by
  unfold MayStartFrom
  rw [isSlashPair_cons_of_head? (fun h => absurd h (by decide)) (fun h => absurd h (by decide)), quotesFrom_quote]
  rfl

theorem mayStartFrom_closing (q i : Nat) : MayStartFrom [q] n ('"' :: r) i ↔ MayStartFrom [] (n + 1) r i := by
  unfold MayStartFrom
  rw [isSlashPair_cons_of_head? (fun h => absurd h (by decide)) (fun h => absurd h (by decide)), quotesFrom_quote]
  show _ ∧ ¬IsQuoted (q :: n :: quotesFrom (n + 1) r) i ↔ _ ∧ ¬IsQuoted (quotesFrom (n + 1) r) i
  rw [isQuoted_cons_cons]
  constructor
  · exact fun ⟨h, hquoted⟩ => ⟨h, fun hq => hquoted (.inr hq)⟩
  · rintro ⟨h, hquoted⟩
    refine ⟨h, ?_⟩
    rintro (⟨-, hlt⟩ | hq)
    · exact Nat.lt_asymm hlt (le_of_isSlashPair h)
    · exact hquoted hq

/-- Between an open quote and the one that closes it, a slash starts no comment. -/
theorem mayStartFrom_inside {q : Nat} (hq : q < n) (hclosed : quotesFrom (n + 1) r ≠ []) (hescape : c = '\\' → r = [])
    (hquote : c ≠ '"') (i : Nat) : MayStartFrom [q] n (c :: r) i ↔ MayStartFrom [q] (n + 1) r i := by
  obtain ⟨closing, rest, hquotes⟩ := List.exists_cons_of_ne_nil hclosed
  have hlt : n < closing := le_of_mem_quotesFrom (hquotes ▸ List.mem_cons_self)
  unfold MayStartFrom
  rw [isSlashPair_skip hescape, quotesFrom_skip hescape hquote]
  constructor
  · rintro ⟨⟨rfl, -, -⟩ | h, hquoted⟩
    · exact absurd (hquotes ▸ (isQuoted_cons_cons i).2 (.inl ⟨hq, hlt⟩)) hquoted
    · exact ⟨h, hquoted⟩
  · exact fun ⟨h, hquoted⟩ => ⟨.inr h, hquoted⟩

/-! ### What the search finds -/

/-- The search finds the first column where a comment may start. Inside a span it depends on where the span was opened only as far as that quote pairs with the next one. -/
theorem isCut_scan {opened? : Option Nat} (h : scan opened?.isSome t = some l) (hopened : ∀ q ∈ opened?, q < n) :
    IsCut (MayStartFrom opened?.toList n t) n t l := by
  induction t using escapeInduction generalizing n l opened? with
  | nil =>
    cases opened? with
    | none =>
      cases h
      exact isCut_nil fun i hi => not_isSlashPair_nil i hi.1
    | some q => cases h
  | lone =>
    cases opened? with
    | none =>
      cases h
      refine ((isCut_nil (not_isSlashPair_nil (n := n + 1))).prepend '\\' fun i => le_of_isSlashPair).congr fun i => ?_
      rw [mayStartFrom_skip (fun _ => rfl) (by decide) (fun h => absurd h (by decide))]
      exact ⟨fun h => h.1, fun h => absurd h (not_isSlashPair_nil i)⟩
    | some q => cases h
  | escape d r ih =>
    rw [scan_escape, Option.map_eq_some_iff] at h
    obtain ⟨m, hm, rfl⟩ := h
    have hcut := ih hm fun q hq => Nat.lt_add_right 2 (hopened q hq)
    exact (hcut.prepend_escape d fun i => MayStartFrom.le).congr (mayStartFrom_escape d)
  | other c r hc ih =>
    have hescape : c = '\\' → r = [] := fun h => absurd h hc
    by_cases hquote : c = '"'
    · subst hquote
      cases opened? with
      | none =>
        rw [Option.isSome_none, scan_false_quote] at h
        cases h
        have hcut : IsCut (MayStartFrom [n] (n + 1) r) (n + 1) r ((scan true r).getD (ofUnquoted r)) := by
          cases hs : scan true r with
          | some m =>
            have hinside : scan (some n).isSome r = some m := hs
            exact ih hinside fun q hq => Option.some.inj hq ▸ Nat.lt_succ_self n
          | none =>
            refine (isCut_ofUnquoted r (n + 1)).congr fun i => ?_
            unfold MayStartFrom
            rw [(scan_true_eq_none_iff r (n + 1)).1 hs, List.append_nil]
            exact and_iff_left (not_isQuoted_singleton n i)
        exact (hcut.prepend '"' fun i => MayStartFrom.le).congr mayStartFrom_opening
      | some q =>
        rw [Option.isSome_some, scan_true_quote, Option.map_eq_some_iff] at h
        obtain ⟨m, hm, rfl⟩ := h
        have houtside : scan (none : Option Nat).isSome r = some m := hm
        have hcut := ih (n := n + 1) houtside nofun
        exact (hcut.prepend '"' fun i => MayStartFrom.le).congr (mayStartFrom_closing q)
    by_cases hslash : c = '/' ∧ opened? = none ∧ r.head? = some '/'
    · obtain ⟨rfl, rfl, hhead⟩ := hslash
      obtain ⟨s, rfl⟩ := List.head?_eq_some_iff.1 hhead
      cases h
      refine isCut_here ⟨isSlashPair_slashes s n, ?_⟩ fun i => MayStartFrom.le
      exact not_isQuoted_quotesFrom _ n
    · have hhead : c = '/' → opened?.isSome = false → r.head? ≠ some '/' := fun hc hnone h =>
        hslash ⟨hc, Option.isSome_eq_false_iff.1 hnone |> Option.isNone_iff_eq_none.1, h⟩
      rw [scan_skip hescape hquote hhead, Option.map_eq_some_iff] at h
      obtain ⟨m, hm, rfl⟩ := h
      have hcut := ih hm fun q hq => Nat.lt_succ_of_lt (hopened q hq)
      refine (hcut.prepend c fun i => MayStartFrom.le).congr fun i => ?_
      cases opened? with
      | none => exact mayStartFrom_skip hescape hquote (fun hc => hhead hc rfl) i
      | some q =>
        have hclosed : quotesFrom (n + 1) r ≠ [] := by
          intro hquotes
          rw [Option.isSome_some, (scan_true_eq_none_iff r (n + 1)).2 hquotes] at hm
          cases hm
        exact mayStartFrom_inside (hopened q rfl) hclosed hescape hquote i

/-! ### The code read again -/

theorem head?_code_ne_slash {code comment : Text} (h : code ++ comment = r) (hr : r.head? ≠ some '/') :
    code.head? ≠ some '/' := by
  cases code with
  | nil => exact nofun
  | cons c code => exact fun hhead => hr (h ▸ hhead)

theorem ofUnquoted_code (t : Text) : ofUnquoted (ofUnquoted t).code = ⟨(ofUnquoted t).code, []⟩ := by
  fun_induction ofUnquoted t with
  | case1 => rfl
  | case2 d r ih => exact prepend_eq_iff.2 (prepend_eq_iff.2 ih)
  | case3 r => rfl
  | case4 c r hescape hslash ih =>
    have hhead : c = '/' → (ofUnquoted r).code.head? ≠ some '/' := fun hc =>
      head?_code_ne_slash (code_append_comment_ofUnquoted r) (head?_ne_of_forall_ne_cons fun s => hslash s hc)
    show ofUnquoted (c :: (ofUnquoted r).code) = _
    rw [ofUnquoted_skip (fun hc => ?_) hhead, ih]
    · rfl
    · rw [eq_nil_of_forall_ne_cons hescape hc]
      rfl

/-- A quote that is never closed is never closed in a part of the line either. -/
theorem scan_true_eq_none_of_append {code comment : Text} (h : scan true (code ++ comment) = none) :
    scan true code = none := by
  induction code using escapeInduction with
  | nil => rfl
  | lone => rfl
  | escape d r ih =>
    rw [List.cons_append, List.cons_append, scan_escape, Option.map_eq_none_iff] at h
    rw [scan_escape, ih h, Option.map_none]
  | other c r hc ih =>
    rw [List.cons_append] at h
    have hquote : c ≠ '"' := by
      rintro rfl
      have hsome := isSome_scan_false (r ++ comment)
      rw [scan_true_quote, Option.map_eq_none_iff] at h
      rw [h] at hsome
      cases hsome
    have hskip : ∀ r, scan true (c :: r) = (scan true r).map (·.prepend c) := fun r =>
      scan_skip (fun h => absurd h hc) hquote fun _ h => Bool.noConfusion h
    rw [hskip, Option.map_eq_none_iff] at h
    rw [hskip, ih h, Option.map_none]

theorem scan_code {inside : Bool} (h : scan inside t = some l) : scan inside l.code = some ⟨l.code, []⟩ := by
  induction t using escapeInduction generalizing inside l with
  | nil =>
    cases inside with
    | true => cases h
    | false => cases h; rfl
  | lone =>
    cases inside with
    | true => cases h
    | false => cases h; rfl
  | escape d r ih =>
    rw [scan_escape, Option.map_eq_some_iff] at h
    obtain ⟨m, hm, rfl⟩ := h
    show scan inside ('\\' :: d :: m.code) = _
    rw [scan_escape, ih hm]
    rfl
  | other c r hc ih =>
    have hescape : ∀ {s : Text}, c = '\\' → s = [] := fun h => absurd h hc
    by_cases hquote : c = '"'
    · subst hquote
      cases inside with
      | true =>
        rw [scan_true_quote, Option.map_eq_some_iff] at h
        obtain ⟨m, hm, rfl⟩ := h
        show scan true ('"' :: m.code) = _
        rw [scan_true_quote, ih hm]
        rfl
      | false =>
        rw [scan_false_quote] at h
        cases h
        show scan false ('"' :: ((scan true r).getD (ofUnquoted r)).code) = _
        rw [scan_false_quote]
        cases hs : scan true r with
        | some m =>
          rw [Option.getD_some, ih hs]
          rfl
        | none =>
          rw [← code_append_comment_ofUnquoted r] at hs
          rw [Option.getD_none, scan_true_eq_none_of_append hs, Option.getD_none, ofUnquoted_code]
          rfl
    by_cases hslash : c = '/' ∧ inside = false ∧ r.head? = some '/'
    · obtain ⟨rfl, rfl, hhead⟩ := hslash
      obtain ⟨s, rfl⟩ := List.head?_eq_some_iff.1 hhead
      cases h
      rfl
    · have hhead : c = '/' → inside = false → r.head? ≠ some '/' := fun hc hinside h => hslash ⟨hc, hinside, h⟩
      rw [scan_skip hescape hquote hhead, Option.map_eq_some_iff] at h
      obtain ⟨m, hm, rfl⟩ := h
      have hcode : c = '/' → inside = false → m.code.head? ≠ some '/' := fun hc hinside =>
        head?_code_ne_slash (code_append_comment_of_scan hm) (hhead hc hinside)
      show scan inside (c :: m.code) = _
      rw [scan_skip hescape hquote hcode, ih hm]
      rfl

end CommentedLine

open CommentedLine

/-- A line is cut at the first unescaped slash that starts two slashes and lies between no two paired quotes, and is all code if there is none. Nothing of it is lost, and its code has no comment. -/
theorem comment_boundary (line : Text) :
    ((∃ i, MayStart line i ∧ (∀ j, MayStart line j → i ≤ j) ∧ codeOf line = line.take i ∧
        commentOf line = line.drop i) ∨
      ((∀ i, ¬MayStart line i) ∧ codeOf line = line ∧ commentOf line = [])) ∧
    codeOf line ++ commentOf line = line ∧
    codeOf (codeOf line) = codeOf line ∧ commentOf (codeOf line) = [] := by
  have hscan : scan (none : Option Nat).isSome line = some (ofLine line) := ofLine_eq_iff.1 rfl
  have hcut : IsCut (MayStart line) 0 line (ofLine line) := isCut_scan hscan nofun
  have hcode : ofLine (codeOf line) = ⟨codeOf line, []⟩ := ofLine_eq_iff.2 (scan_code hscan)
  refine ⟨?_, codeOf_append_commentOf line, (congrArg code hcode :), (congrArg comment hcode :)⟩
  obtain ⟨i, hi, hfirst, heq⟩ | ⟨hnone, heq⟩ := hcut
  · exact .inl ⟨i, hi, hfirst, congrArg code heq, congrArg comment heq⟩
  · exact .inr ⟨hnone, congrArg code heq, congrArg comment heq⟩

/-- The last quote is alone, so the slashes behind it open a comment. Those between the first two quotes and those behind the backslash do not. -/
example : codeOf "a \"//\" \\// b \" c // d".toList = "a \"//\" \\// b \" c ".toList := by decide

end LineTags
