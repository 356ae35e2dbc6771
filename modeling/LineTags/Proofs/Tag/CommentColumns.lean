import LineTags.Proofs.Tag.CommentBoundary
import Mathlib.Order.Monotone.Basic

/-!
# Where a comment starts when a line changes

Of all characters of a line only the quotes and slashes that no backslash escapes decide where its comment starts: how they follow each other, and which slashes touch. A stretch at the start of a line can therefore be exchanged for a longer one with the same marks. Those behind it move to the right, and what was paired or quoted before is so afterwards. Only a slash at the very end of the stretch can part from one that was right behind it; otherwise the two lines have their comments in corresponding columns.
-/

namespace LineTags

open Text

namespace CommentedLine

variable {n : Nat} {c : Char} {r s t t' : Text} {x : Nat × Char}

/-! ### Columns of texts that follow each other -/

theorem unescapedFrom_append (h : endsPending false s = true → t = []) (n : Nat) :
    unescapedFrom n (s ++ t) = unescapedFrom n s ++ unescapedFrom (n + s.length) t := by
  induction s using escapeInduction generalizing n with
  | nil => rfl
  | lone =>
    rw [h rfl]
    rfl
  | escape c r ih =>
    rw [endsPending_escape] at h
    have hrest := ih h (n + 2)
    rw [Nat.add_assoc, Nat.add_comm 2] at hrest
    exact congrArg ((n, '\\') :: ·) hrest
  | other c r hc ih =>
    rw [endsPending_skip hc] at h
    have hrest := ih h (n + 1)
    rw [Nat.add_assoc, Nat.add_comm 1] at hrest
    rw [List.cons_append, unescapedFrom_skip (fun h => absurd h hc), unescapedFrom_skip (fun h => absurd h hc), hrest]
    rfl

theorem unescapedFrom_add (n d : Nat) (t : Text) :
    unescapedFrom (n + d) t = (unescapedFrom n t).map fun x => (x.1 + d, x.2) := by
  induction t using escapeInduction generalizing n with
  | nil => rfl
  | lone => rfl
  | escape c r ih =>
    have hrest := ih (n + 2)
    rw [Nat.add_right_comm] at hrest
    exact congrArg ((n + d, '\\') :: ·) hrest
  | other c r hc ih =>
    have hrest := ih (n + 1)
    rw [Nat.add_right_comm] at hrest
    rw [unescapedFrom_skip (fun h => absurd h hc), unescapedFrom_skip (fun h => absurd h hc), hrest]
    rfl

theorem getElem?_of_mem_unescapedFrom (h : x ∈ unescapedFrom n t) : t[x.1 - n]? = some x.2 := by
  fun_induction unescapedFrom n t with
  | case1 => cases h
  | case2 n d r ih =>
    rcases List.mem_cons.1 h with rfl | h
    · rw [Nat.sub_self]
      rfl
    · have hle := le_of_mem_unescapedFrom h
      rw [show x.1 - n = x.1 - (n + 2) + 1 + 1 by omega]
      exact ih h
  | case3 n d r _ ih =>
    rcases List.mem_cons.1 h with rfl | h
    · rw [Nat.sub_self]
      rfl
    · have hle := le_of_mem_unescapedFrom h
      rw [show x.1 - n = x.1 - (n + 1) + 1 by omega]
      exact ih h

theorem lt_of_mem_unescapedFrom (h : x ∈ unescapedFrom n t) : x.1 < n + t.length := by
  obtain ⟨hlt, -⟩ := List.getElem?_eq_some_iff.1 (getElem?_of_mem_unescapedFrom h)
  omega

theorem snd_mem_of_mem_unescapedFrom (h : x ∈ unescapedFrom n t) : x.2 ∈ t :=
  List.mem_of_getElem? (getElem?_of_mem_unescapedFrom h)

/-- A text starts with an unescaped character, whatever it is. -/
theorem head_mem_unescapedFrom (n : Nat) (c : Char) (r : Text) : (n, c) ∈ unescapedFrom n (c :: r) := by
  unfold unescapedFrom
  split
  · next heq => cases heq
  · next heq =>
    rw [(List.cons.inj heq).1]
    exact List.mem_cons_self
  · next heq =>
    rw [(List.cons.inj heq).1]
    exact List.mem_cons_self

theorem head?_eq_of_mem_unescapedFrom (h : (n, c) ∈ unescapedFrom n t) : t.head? = some c := by
  fun_cases unescapedFrom n t with
  | case1 => cases h
  | case2 d r =>
    rw [unescapedFrom] at h
    rcases List.mem_cons.1 h with heq | h
    · rw [(Prod.mk.inj heq).2]
      rfl
    · have := le_of_mem_unescapedFrom h
      dsimp only at this
      omega
  | case3 d r hescape =>
    rw [unescapedFrom_skip (eq_nil_of_forall_ne_cons hescape)] at h
    rcases List.mem_cons.1 h with heq | h
    · rw [(Prod.mk.inj heq).2]
      rfl
    · have := le_of_mem_unescapedFrom h
      dsimp only at this
      omega

/-- The second of two slashes is not escaped either, as what stands before it is a slash. -/
theorem isSlashPair_iff (i : Nat) :
    IsSlashPair n t i ↔ (i, '/') ∈ unescapedFrom n t ∧ (i + 1, '/') ∈ unescapedFrom n t := by
  induction t using escapeInduction generalizing n with
  | nil => exact iff_of_false (not_isSlashPair_nil i) fun h => List.not_mem_nil h.1
  | lone =>
    have hslash : '/' ∉ ['\\'] := by decide
    have hnone : ∀ j, (j, '/') ∉ unescapedFrom n ['\\'] := fun j hj => hslash (snd_mem_of_mem_unescapedFrom hj)
    exact iff_of_false (fun h => hnone i h.1) fun h => hnone i h.1
  | escape d r ih =>
    have hmem : ∀ j, (j, '/') ∈ unescapedFrom n ('\\' :: d :: r) ↔ (j, '/') ∈ unescapedFrom (n + 2) r := by
      intro j
      rw [unescapedFrom, List.mem_cons]
      exact or_iff_right (by simp)
    rw [isSlashPair_escape, ih, hmem, hmem]
  | other c r hc ih =>
    have hescape : c = '\\' → r = [] := fun h => absurd h hc
    have hmem : ∀ j, (j, '/') ∈ unescapedFrom n (c :: r) ↔ (j = n ∧ c = '/') ∨ (j, '/') ∈ unescapedFrom (n + 1) r := by
      intro j
      rw [unescapedFrom_skip hescape, List.mem_cons, Prod.mk.injEq, eq_comm (a := '/')]
    have hhead : r.head? = some '/' ↔ (n + 1, '/') ∈ unescapedFrom (n + 1) r := by
      refine ⟨fun h => ?_, head?_eq_of_mem_unescapedFrom⟩
      obtain ⟨q, rfl⟩ := List.head?_eq_some_iff.1 h
      exact head_mem_unescapedFrom (n + 1) '/' q
    have hle : ∀ j, (j, '/') ∈ unescapedFrom (n + 1) r → n + 1 ≤ j := fun j => le_of_mem_unescapedFrom
    rw [isSlashPair_skip hescape, ih, hmem, hmem, hhead]
    constructor
    · rintro (⟨rfl, rfl, hnext⟩ | ⟨hfirst, hnext⟩)
      · exact ⟨.inl ⟨rfl, rfl⟩, .inr hnext⟩
      · exact ⟨.inr hfirst, .inr hnext⟩
    · rintro ⟨⟨rfl, rfl⟩ | hfirst, hnext⟩
      · exact .inl ⟨rfl, rfl, hnext.resolve_left fun h => absurd h.1 (Nat.succ_ne_self i)⟩
      · have hi := hle i hfirst
        refine .inr ⟨hfirst, hnext.resolve_left fun h => ?_⟩
        omega

/-! ### The marks of a line -/

def isMark (c : Char) : Bool := c == '"' || c == '/'

/-- The unescaped quotes and slashes, with their columns. -/
def marksOf (t : Text) : List (Nat × Char) := (unescapedFrom 0 t).filter fun x => isMark x.2

theorem mem_marksOf (hc : isMark c) {i : Nat} : (i, c) ∈ marksOf t ↔ (i, c) ∈ unescapedFrom 0 t := by
  rw [marksOf, List.mem_filter]
  exact and_iff_left hc

theorem lt_of_mem_marksOf (h : x ∈ marksOf t) : x.1 < t.length := by
  have := lt_of_mem_unescapedFrom (List.mem_of_mem_filter h)
  omega

theorem quotesFrom_eq (t : Text) : quotesFrom 0 t = ((marksOf t).filter (·.2 == '"')).map Prod.fst := by
  rw [quotesFrom, marksOf, List.filter_filter]
  refine congrArg (List.map Prod.fst) (List.filter_congr fun x _ => ?_)
  rw [isMark]
  cases x.2 == '"' <;> rfl

theorem mayStart_iff {i : Nat} :
    MayStart t i ↔ (i, '/') ∈ marksOf t ∧ (i + 1, '/') ∈ marksOf t ∧ ¬IsQuoted (quotesFrom 0 t) i := by
  rw [MayStart, isSlashPair_iff, mem_marksOf rfl, mem_marksOf rfl, and_assoc]

theorem marksOf_append (h : endsPending false s = true → t = []) :
    marksOf (s ++ t) = marksOf s ++ (marksOf t).map fun x => (x.1 + s.length, x.2) := by
  rw [marksOf, unescapedFrom_append h, unescapedFrom_add, List.filter_append, List.filter_map]
  rfl

/-- A mark of the first of two texts is one of this text alone. -/
theorem mem_marksOf_of_append (h : endsPending false s = true → t = []) (hx : x ∈ marksOf (s ++ t)) (hlt : x.1 < s.length) :
    x ∈ marksOf s := by
  rw [marksOf_append h] at hx
  refine (List.mem_append.1 hx).resolve_right fun hmem => ?_
  obtain ⟨y, -, rfl⟩ := List.mem_map.1 hmem
  exact absurd hlt (Nat.not_lt.2 (Nat.le_add_left _ _))

theorem marksOf_of_isPlain (h : ∀ c ∈ t, IsPlain c) : marksOf t = [] := by
  refine List.filter_eq_nil_iff.2 fun x hx hmark => ?_
  have hplain := h _ (snd_mem_of_mem_unescapedFrom hx)
  rcases Bool.or_eq_true_iff.1 hmark with hquote | hslash
  · exact hplain.2.1 (eq_of_beq hquote)
  · exact hplain.2.2 (eq_of_beq hslash)

/-- A backslash at the start hides the character behind it. -/
theorem marksOf_backslash (h : ∀ c ∈ t.tail, IsPlain c) : marksOf ('\\' :: t) = [] := by
  cases t with
  | nil => rfl
  | cons d t =>
    have hrest := marksOf_of_isPlain h
    rw [marksOf, List.filter_eq_nil_iff] at hrest ⊢
    intro x hx
    rw [unescapedFrom, ← Nat.zero_add (0 + 2), unescapedFrom_add, List.mem_cons, List.mem_map] at hx
    rcases hx with rfl | ⟨y, hy, rfl⟩
    · decide
    · exact hrest y hy

/-! ### Marks that move -/

/-- The marks of the second line are those of the first in other columns, in the same order. -/
structure Moved (f : Nat → Nat) (t t' : Text) : Prop where
  mono : StrictMono f
  marks : marksOf t' = (marksOf t).map fun x => (f x.1, x.2)

theorem Moved.mem {f : Nat → Nat} (h : Moved f t t') {i : Nat} : (f i, c) ∈ marksOf t' ↔ (i, c) ∈ marksOf t := by
  rw [h.marks, List.mem_map]
  constructor
  · rintro ⟨x, hx, heq⟩
    obtain ⟨hcolumn, rfl⟩ := Prod.mk.inj heq
    rw [← h.mono.injective hcolumn]
    exact hx
  · exact fun hmem => ⟨(i, c), hmem, rfl⟩

theorem Moved.quotes {f : Nat → Nat} (h : Moved f t t') : quotesFrom 0 t' = (quotesFrom 0 t).map f := by
  rw [quotesFrom_eq, quotesFrom_eq, h.marks, List.filter_map, List.map_map, List.map_map]
  rfl

theorem quotePairs_map (f : Nat → Nat) (quotes : List Nat) :
    quotePairs (quotes.map f) = (quotePairs quotes).map fun p => (f p.1, f p.2) := by
  fun_induction quotePairs quotes with
  | case1 opening closing r ih => exact congrArg ((f opening, f closing) :: ·) ih
  | case2 quotes hfew =>
    cases quotes with
    | nil => rfl
    | cons opening r =>
      cases r with
      | nil => rfl
      | cons closing r => exact absurd rfl (hfew opening closing r)

theorem Moved.isQuoted {f : Nat → Nat} (h : Moved f t t') (i : Nat) :
    IsQuoted (quotesFrom 0 t') (f i) ↔ IsQuoted (quotesFrom 0 t) i := by
  unfold IsQuoted
  rw [h.quotes, quotePairs_map]
  constructor
  · rintro ⟨_, hmem, hopening, hclosing⟩
    obtain ⟨p, hp, rfl⟩ := List.mem_map.1 hmem
    exact ⟨p, hp, h.mono.lt_iff_lt.1 hopening, h.mono.lt_iff_lt.1 hclosing⟩
  · rintro ⟨p, hp, hopening, hclosing⟩
    exact ⟨_, List.mem_map_of_mem hp, h.mono hopening, h.mono hclosing⟩

/-- A comment may start where it might before, unless the two slashes have come apart. -/
theorem Moved.mayStart_iff {f : Nat → Nat} (h : Moved f t t') {y : Nat} :
    MayStart t' y ↔ ∃ i, y = f i ∧ MayStart t i ∧ f (i + 1) = f i + 1 := by
  rw [CommentedLine.mayStart_iff]
  constructor
  · rintro ⟨hfirst, hnext, hquoted⟩
    rw [h.marks, List.mem_map] at hfirst hnext
    obtain ⟨⟨i, c⟩, hi, heq⟩ := hfirst
    obtain ⟨rfl, rfl⟩ := Prod.mk.inj heq
    obtain ⟨⟨j, c⟩, hj, heq⟩ := hnext
    obtain ⟨hcolumn, rfl⟩ := Prod.mk.inj heq
    dsimp only at hcolumn hi hj
    -- nothing comes between two columns that were next to each other
    obtain rfl : j = i + 1 := by
      have hlt : i < j := h.mono.lt_iff_lt.1 (by omega)
      by_contra hne
      have hbetween : f i < f (i + 1) := h.mono (Nat.lt_succ_self i)
      have hbelow : f (i + 1) < f j := h.mono (by omega)
      omega
    exact ⟨i, rfl, CommentedLine.mayStart_iff.2 ⟨hi, hj, fun hq => hquoted ((h.isQuoted i).2 hq)⟩, hcolumn⟩
  · rintro ⟨i, rfl, hstart, hnext⟩
    obtain ⟨hi, hj, hquoted⟩ := CommentedLine.mayStart_iff.1 hstart
    exact ⟨h.mem.2 hi, hnext ▸ h.mem.2 hj, fun hq => hquoted ((h.isQuoted i).1 hq)⟩

/-! ### The comment -/

theorem isCut_ofLine (line : Text) : IsCut (MayStart line) 0 line (ofLine line) := by
  have hscan : scan (none : Option Nat).isSome line = some (ofLine line) := ofLine_eq_iff.1 rfl
  exact isCut_scan hscan nofun

theorem commentOf_eq_drop {line : Text} {i : Nat} (hi : MayStart line i) (hfirst : ∀ j, MayStart line j → i ≤ j) :
    commentOf line = line.drop i := by
  obtain ⟨j, hj, hle, heq⟩ | ⟨hnone, -⟩ := isCut_ofLine line
  · obtain rfl : i = j := Nat.le_antisymm (hfirst j hj) (hle i hi)
    exact congrArg comment heq
  · exact absurd hi (hnone i)

theorem commentOf_eq_nil {line : Text} (h : ∀ i, ¬MayStart line i) : commentOf line = [] := by
  obtain ⟨i, hi, -⟩ | ⟨-, heq⟩ := isCut_ofLine line
  · exact absurd hi (h i)
  · exact congrArg comment heq

/-- The comment starts no later than in a column where it may. -/
theorem length_le_of_mayStart {line : Text} {i : Nat} (hi : MayStart line i) : line.length ≤ i + (commentOf line).length := by
  obtain ⟨j, -, hle, heq⟩ | ⟨hnone, -⟩ := isCut_ofLine line
  · have hcomment : commentOf line = line.drop j := congrArg comment heq
    have := hle i hi
    rw [hcomment, List.length_drop]
    omega
  · exact absurd hi (hnone i)

/-! ### A longer start -/

/-- The second stretch is no shorter than the first and has the same marks, and neither escapes what follows. -/
structure Exchanges (p q r : Text) : Prop where
  length : p.length ≤ q.length
  marks : marksOf q = marksOf p
  first : endsPending false p = true → r = []
  second : endsPending false q = true → r = []

/-- Where a column moves when a start of `a` characters becomes one of `b`. -/
def moveColumn (a b i : Nat) : Nat := if i < a then i else i + (b - a)

theorem strictMono_moveColumn (a b : Nat) : StrictMono (moveColumn a b) := by
  intro i j hij
  unfold moveColumn
  split_ifs <;> omega

theorem Exchanges.moved {p q r : Text} (h : Exchanges p q r) : Moved (moveColumn p.length q.length) (p ++ r) (q ++ r) where
  mono := strictMono_moveColumn _ _
  marks := by
    have hlength := h.length
    rw [marksOf_append h.first, marksOf_append h.second, h.marks, List.map_append, List.map_map]
    congr 1
    · refine ((List.map_congr_left fun x hx => ?_).trans (List.map_id _)).symm
      rw [moveColumn, if_pos (lt_of_mem_marksOf hx)]
      rfl
    · refine List.map_congr_left fun x _ => ?_
      rw [Function.comp_apply, moveColumn, if_neg (by omega)]
      exact Prod.ext (by dsimp only; omega) rfl

/-- Where no two slashes are parted, the comments of the two lines are the same, or both start in the same column of the exchanged stretch. -/
theorem Exchanges.commentOf_eq_or {p q r : Text} (h : Exchanges p q r) (hseam : ∀ i, i + 1 = p.length → ¬MayStart (p ++ r) i) :
    commentOf (q ++ r) = commentOf (p ++ r) ∨
      ∃ i, i + 1 < p.length ∧ commentOf (p ++ r) = (p ++ r).drop i ∧ commentOf (q ++ r) = (q ++ r).drop i := by
  have hstart : ∀ y, MayStart (q ++ r) y ↔ ∃ i, y = moveColumn p.length q.length i ∧ MayStart (p ++ r) i := by
    intro y
    rw [h.moved.mayStart_iff]
    refine exists_congr fun i => and_congr_right fun _ => and_iff_left_of_imp fun hi => ?_
    have hne : i + 1 ≠ p.length := fun heq => hseam i heq hi
    unfold moveColumn
    split_ifs <;> omega
  obtain ⟨i, hi, hfirst, heq⟩ | ⟨hnone, heq⟩ := isCut_ofLine (p ++ r)
  · have hp : commentOf (p ++ r) = (p ++ r).drop i := congrArg comment heq
    have hq : commentOf (q ++ r) = (q ++ r).drop (moveColumn p.length q.length i) := by
      refine commentOf_eq_drop ((hstart _).2 ⟨i, rfl, hi⟩) fun y hy => ?_
      obtain ⟨j, rfl, hj⟩ := (hstart y).1 hy
      exact (strictMono_moveColumn _ _).monotone (hfirst j hj)
    by_cases hlt : i < p.length
    · rw [moveColumn, if_pos hlt] at hq
      have hne : i + 1 ≠ p.length := fun heq => hseam i heq hi
      exact .inr ⟨i, by omega, hp, hq⟩
    · have hlength := h.length
      rw [moveColumn, if_neg hlt, List.drop_append, List.drop_eq_nil_of_le (by omega)] at hq
      rw [List.drop_append, List.drop_eq_nil_of_le (by omega)] at hp
      rw [hp, hq, show i + (q.length - p.length) - q.length = i - p.length by omega]
      exact .inl rfl
  · have hp : commentOf (p ++ r) = [] := congrArg comment heq
    rw [hp]
    refine .inl (commentOf_eq_nil fun y hy => ?_)
    obtain ⟨i, -, hi⟩ := (hstart y).1 hy
    exact hnone i hi

end CommentedLine

end LineTags
