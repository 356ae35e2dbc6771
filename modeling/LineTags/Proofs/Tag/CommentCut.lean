import LineTags.Proofs.Text.Blanks
import LineTags.Tag.Comment

/-!
# The comment behind a changed code

A character other than a backslash, a quote or a slash can be put into the code of a line without moving the cut. The one delicate place is behind a backslash that escapes what follows: the backslash then escapes the new character, and the one that it escaped before is read for itself. This makes no difference if the code goes on with a character that is none of the three, or ends there.
-/

namespace LineTags

open Text

/-- Whether a backslash at the end of a text escapes what follows, where one may be pending at its start. -/
def endsPending (pending : Bool) : Text → Bool
  | [] => pending
  | c :: r => endsPending (c == '\\' && !pending) r

theorem endsPending_append (pending : Bool) (s t : Text) :
    endsPending pending (s ++ t) = endsPending (endsPending pending s) t := by
  induction s generalizing pending with
  | nil => rfl
  | cons c s ih => exact ih _

theorem endsPending_append_of_ne (pending : Bool) (s : Text) {t : Text} (hne : t ≠ []) (ht : '\\' ∉ t) :
    endsPending pending (s ++ t) = false := by
  induction t generalizing s with
  | nil => exact absurd rfl hne
  | cons c r ih =>
    have hc : c ≠ '\\' := fun h => ht (h ▸ List.mem_cons_self)
    cases r with
    | nil =>
      rw [endsPending_append, endsPending, beq_false_of_ne hc]
      rfl
    | cons d r =>
      have hsplit : s ++ c :: d :: r = (s ++ [c]) ++ d :: r := by simp
      rw [hsplit]
      exact ih (s ++ [c]) (List.cons_ne_nil _ _) fun hmem => ht (List.mem_cons_of_mem _ hmem)

theorem exists_backslash_of_endsPending {t : Text} (h : endsPending false t = true) :
    ∃ s, t = s ++ ['\\'] ∧ endsPending false s = false := by
  rcases List.eq_nil_or_concat t with rfl | ⟨s, c, rfl⟩
  · cases h
  · rw [List.concat_eq_append, endsPending_append, endsPending, endsPending, Bool.and_eq_true, Bool.not_eq_true'] at h
    rw [List.concat_eq_append, eq_of_beq h.1]
    exact ⟨s, rfl, h.2⟩

theorem endsPending_escape (c : Char) (r : Text) : endsPending false ('\\' :: c :: r) = endsPending false r := by
  rw [endsPending, endsPending]
  exact congrArg (endsPending · r) (Bool.and_false _)

theorem endsPending_skip {c : Char} (hc : c ≠ '\\') (r : Text) : endsPending false (c :: r) = endsPending false r := by
  rw [endsPending, beq_false_of_ne hc, Bool.false_and]

namespace CommentedLine

/-- A character that means nothing to the search for a comment. -/
def IsPlain (c : Char) : Prop := c ≠ '\\' ∧ c ≠ '"' ∧ c ≠ '/'

theorem ofUnquoted_escape (c : Char) (r : Text) :
    ofUnquoted ('\\' :: c :: r) = ((ofUnquoted r).prepend c).prepend '\\' := rfl

theorem ofUnquoted_skip {c : Char} {r : Text} (hescape : c = '\\' → r = []) (hslash : c = '/' → r.head? ≠ some '/') :
    ofUnquoted (c :: r) = (ofUnquoted r).prepend c := by
  rw [ofUnquoted] <;> simp_all
  grind

theorem scan_escape (inside : Bool) (c : Char) (r : Text) :
    scan inside ('\\' :: c :: r) = (scan inside r).map fun l => (l.prepend c).prepend '\\' := by
  cases inside <;> rfl

theorem scan_skip {c : Char} {inside : Bool} {r : Text} (hescape : c = '\\' → r = []) (hquote : c ≠ '"')
    (hslash : c = '/' → inside = false → r.head? ≠ some '/') :
    scan inside (c :: r) = (scan inside r).map (·.prepend c) := by
  cases inside <;> rw [scan] <;> simp_all
  grind

theorem scan_true_quote (r : Text) : scan true ('"' :: r) = (scan false r).map (·.prepend '"') := rfl

theorem scan_false_quote (r : Text) :
    scan false ('"' :: r) = some (((scan true r).getD (ofUnquoted r)).prepend '"') := rfl

/-- A slash in the code is not followed by a second one. -/
theorem head?_ne_slash_of_ofUnquoted {c : Char} {r code comment : Text} (h : ofUnquoted (c :: r) = ⟨c :: code, comment⟩)
    (hc : c = '/') : r.head? ≠ some '/' := by
  subst hc
  intro hhead
  obtain ⟨q, hq⟩ := List.head?_eq_some_iff.1 hhead
  simp [hq, ofUnquoted] at h

theorem head?_ne_slash_of_scan {c : Char} {r code comment : Text} (h : scan false (c :: r) = some ⟨c :: code, comment⟩)
    (hc : c = '/') : r.head? ≠ some '/' := by
  subst hc
  intro hhead
  obtain ⟨q, hq⟩ := List.head?_eq_some_iff.1 hhead
  simp [hq, scan] at h

theorem ofUnquoted_plain {c : Char} (hc : IsPlain c) (r : Text) : ofUnquoted (c :: r) = (ofUnquoted r).prepend c :=
  ofUnquoted_skip (fun h => absurd h hc.1) (fun h => absurd h hc.2.2)

theorem scan_plain {c : Char} (hc : IsPlain c) (inside : Bool) (r : Text) :
    scan inside (c :: r) = (scan inside r).map (·.prepend c) :=
  scan_skip (fun h => absurd h hc.1) hc.2.1 (fun h => absurd h hc.2.2)

theorem prepend_eq_iff {c : Char} {l : CommentedLine} {code comment : Text} :
    l.prepend c = ⟨c :: code, comment⟩ ↔ l = ⟨code, comment⟩ := by
  cases l
  simp [prepend]

/-- Induction on a text that is read with escapes: a backslash goes together with the character behind it. -/
theorem escapeInduction {motive : Text → Prop} (nil : motive []) (lone : motive ['\\'])
    (escape : ∀ c r, motive r → motive ('\\' :: c :: r)) (other : ∀ c r, c ≠ '\\' → motive r → motive (c :: r)) :
    ∀ t, motive t
  | [] => nil
  | [c] => by
    by_cases hc : c = '\\'
    · exact hc ▸ lone
    · exact other c [] hc nil
  | c :: d :: r => by
    by_cases hc : c = '\\'
    · exact hc ▸ escape d r (escapeInduction nil lone escape other r)
    · exact other c (d :: r) hc (escapeInduction nil lone escape other (d :: r))

variable {x : Char} {code comment : Text}

theorem ofUnquoted_insert (hx : IsPlain x) (before : Text) (hsafe : endsPending false before = true → StartsIn IsPlain code)
    (h : ofUnquoted (before ++ (code ++ comment)) = ⟨before ++ code, comment⟩) :
    ofUnquoted (before ++ x :: (code ++ comment)) = ⟨before ++ x :: code, comment⟩ := by
  induction before using escapeInduction with
  | nil => rw [List.nil_append, ofUnquoted_plain hx]; exact prepend_eq_iff.2 h
  | lone =>
    rw [List.singleton_append] at h ⊢
    rcases code with _ | ⟨d, code⟩
    · rcases comment with _ | ⟨d, comment⟩
      · exact prepend_eq_iff.2 (prepend_eq_iff.2 rfl)
      · rw [List.nil_append, ofUnquoted_escape] at h
        simp [prepend] at h
    · have hd : IsPlain d := startsIn_cons.1 (hsafe rfl)
      rw [List.cons_append, ofUnquoted_escape] at h
      rw [List.cons_append, ofUnquoted_escape, ofUnquoted_plain hd]
      exact prepend_eq_iff.2 (prepend_eq_iff.2 (prepend_eq_iff.1 h))
  | escape c r ih =>
    rw [endsPending_escape] at hsafe
    rw [List.cons_append, List.cons_append, ofUnquoted_escape] at h ⊢
    exact prepend_eq_iff.2 (prepend_eq_iff.2 (ih hsafe (prepend_eq_iff.1 (prepend_eq_iff.1 h))))
  | other c r hc ih =>
    rw [endsPending_skip hc] at hsafe
    rw [List.cons_append] at h ⊢
    have hslash := head?_ne_slash_of_ofUnquoted h
    rw [ofUnquoted_skip (fun h => absurd h hc) hslash] at h
    rw [ofUnquoted_skip (fun h => absurd h hc)]
    · exact prepend_eq_iff.2 (ih hsafe (prepend_eq_iff.1 h))
    · intro hc hhead
      rcases r with _ | ⟨d, r⟩
      · exact hx.2.2 (Option.some.inj hhead)
      · exact hslash hc hhead

/-- A quote that is never closed stays unclosed. -/
theorem scan_eq_none_insert (hx : IsPlain x) (before : Text) (hsafe : endsPending false before = true → StartsIn IsPlain code)
    (h : ofUnquoted (before ++ (code ++ comment)) = ⟨before ++ code, comment⟩)
    (hnone : scan true (before ++ (code ++ comment)) = none) :
    scan true (before ++ x :: (code ++ comment)) = none := by
  induction before using escapeInduction with
  | nil => rw [List.nil_append, scan_plain hx, ← List.nil_append (code ++ comment), hnone, Option.map_none]
  | lone =>
    rw [List.singleton_append] at h hnone ⊢
    rcases code with _ | ⟨d, code⟩
    · rcases comment with _ | ⟨d, comment⟩
      · rfl
      · rw [List.nil_append, ofUnquoted_escape] at h
        simp [prepend] at h
    · have hd : IsPlain d := startsIn_cons.1 (hsafe rfl)
      rw [List.cons_append, scan_escape, Option.map_eq_none_iff] at hnone
      rw [List.cons_append, scan_escape, scan_plain hd, hnone]
      rfl
  | escape c r ih =>
    rw [endsPending_escape] at hsafe
    rw [List.cons_append, List.cons_append] at h hnone ⊢
    rw [scan_escape, Option.map_eq_none_iff] at hnone
    rw [scan_escape, ih hsafe (prepend_eq_iff.1 (prepend_eq_iff.1 h)) hnone, Option.map_none]
  | other c r hc ih =>
    rw [endsPending_skip hc] at hsafe
    rw [List.cons_append] at h hnone ⊢
    have hquote : c ≠ '"' := by
      rintro rfl
      have hsome := isSome_scan_false (r ++ (code ++ comment))
      rw [scan_true_quote, Option.map_eq_none_iff] at hnone
      rw [hnone] at hsome
      exact Bool.noConfusion hsome
    have hslash := head?_ne_slash_of_ofUnquoted h
    rw [ofUnquoted_skip (fun h => absurd h hc) hslash] at h
    rw [scan_skip (fun h => absurd h hc) hquote (fun _ h => Bool.noConfusion h), Option.map_eq_none_iff] at hnone
    rw [scan_skip (fun h => absurd h hc) hquote (fun _ h => Bool.noConfusion h), ih hsafe (prepend_eq_iff.1 h) hnone,
      Option.map_none]

theorem scan_insert (hx : IsPlain x) (before : Text) (hsafe : endsPending false before = true → StartsIn IsPlain code)
    {inside : Bool} (h : scan inside (before ++ (code ++ comment)) = some ⟨before ++ code, comment⟩) :
    scan inside (before ++ x :: (code ++ comment)) = some ⟨before ++ x :: code, comment⟩ := by
  induction before using escapeInduction generalizing inside with
  | nil => rw [List.nil_append, scan_plain hx, ← List.nil_append (code ++ comment), h]; rfl
  | lone =>
    rw [List.singleton_append] at h ⊢
    rcases code with _ | ⟨d, code⟩
    · rcases comment with _ | ⟨d, comment⟩
      · cases inside
        · rfl
        · exact absurd h (by decide)
      · rw [List.nil_append, scan_escape] at h
        simp [prepend] at h
    · have hd : IsPlain d := startsIn_cons.1 (hsafe rfl)
      rw [List.cons_append, scan_escape, Option.map_eq_some_iff] at h
      obtain ⟨l, hl, heq⟩ := h
      rw [List.cons_append, scan_escape, scan_plain hd, hl, prepend_eq_iff.1 (prepend_eq_iff.1 heq)]
      rfl
  | escape c r ih =>
    rw [endsPending_escape] at hsafe
    rw [List.cons_append, List.cons_append, scan_escape, Option.map_eq_some_iff] at h
    obtain ⟨l, hl, heq⟩ := h
    rw [prepend_eq_iff.1 (prepend_eq_iff.1 heq)] at hl
    rw [List.cons_append, List.cons_append, scan_escape, ih hsafe hl]
    rfl
  | other c r hc ih =>
    rw [endsPending_skip hc] at hsafe
    rw [List.cons_append] at h ⊢
    by_cases hquote : c = '"'
    · subst hquote
      cases inside with
      | true =>
        rw [scan_true_quote, Option.map_eq_some_iff] at h
        obtain ⟨l, hl, heq⟩ := h
        rw [prepend_eq_iff.1 heq] at hl
        rw [scan_true_quote, ih hsafe hl]
        rfl
      | false =>
        rw [scan_false_quote] at h ⊢
        have hcut := prepend_eq_iff.1 (Option.some.inj h)
        cases hs : scan true (r ++ (code ++ comment)) with
        | none =>
          rw [hs, Option.getD_none] at hcut
          rw [scan_eq_none_insert hx r hsafe hcut hs, Option.getD_none, ofUnquoted_insert hx r hsafe hcut]
          rfl
        | some l =>
          rw [hs, Option.getD_some] at hcut
          rw [hcut] at hs
          rw [ih hsafe hs]
          rfl
    · have hslash : c = '/' → inside = false → (r ++ (code ++ comment)).head? ≠ some '/' := by
        rintro hc rfl
        exact head?_ne_slash_of_scan h hc
      rw [scan_skip (fun h => absurd h hc) hquote hslash, Option.map_eq_some_iff] at h
      obtain ⟨l, hl, heq⟩ := h
      rw [prepend_eq_iff.1 heq] at hl
      rw [scan_skip (fun h => absurd h hc) hquote, ih hsafe hl]
      · rfl
      · intro hc hinside hhead
        rcases r with _ | ⟨d, r⟩
        · exact hx.2.2 (Option.some.inj hhead)
        · exact hslash hc hinside hhead

theorem ofLine_eq_iff {line : Text} {l : CommentedLine} : ofLine line = l ↔ scan false line = some l := by
  obtain ⟨m, hm⟩ := Option.isSome_iff_exists.1 (isSome_scan_false line)
  rw [ofLine, hm, Option.getD_some, Option.some.injEq]

/-! ### A character at the end of a line -/

/-- A line with one more character: the comment takes it, if there is one. -/
def append (x : Char) (l : CommentedLine) : CommentedLine :=
  if l.comment = [] then ⟨l.code ++ [x], []⟩ else ⟨l.code, l.comment ++ [x]⟩

theorem append_prepend (x c : Char) (l : CommentedLine) :
    (l.prepend c).append x = (l.append x).prepend c := by
  unfold append prepend
  split <;> rfl

theorem head?_ne_of_forall_ne_cons {c : Char} {r : Text} (h : ∀ s, r = c :: s → False) : r.head? ≠ some c := by
  cases r with
  | nil => exact nofun
  | cons d s => exact fun hhead => h s (by rw [Option.some.inj hhead])

/-- No slash follows at the end of a line that ends in another character. -/
theorem head?_append_ne_slash {x : Char} (hx : x ≠ '/') {r : Text} (hr : r.head? ≠ some '/') :
    (r ++ [x]).head? ≠ some '/' := by
  cases r with
  | nil => exact fun h => hx (Option.some.inj h)
  | cons c r => exact hr

theorem ofUnquoted_append {x : Char} (hx : IsPlain x) (t : Text) :
    ofUnquoted (t ++ [x]) = (ofUnquoted t).append x := by
  fun_induction ofUnquoted t with
  | case1 => exact ofUnquoted_plain hx []
  | case2 c r ih =>
    rw [append_prepend, append_prepend, ← ih]
    rfl
  | case3 r => rfl
  | case4 c r hescape hslash ih =>
    by_cases hlone : c = '\\' ∧ r = []
    · rw [hlone.1, hlone.2]
      rfl
    rw [append_prepend, ← ih]
    refine ofUnquoted_skip (fun hc => ?_) fun hc =>
      head?_append_ne_slash hx.2.2 (head?_ne_of_forall_ne_cons fun s => hslash s hc)
    cases r with
    | nil => exact absurd ⟨hc, rfl⟩ hlone
    | cons d s => exact (hescape d s hc rfl).elim

theorem scan_append {x : Char} (hx : IsPlain x) (inside : Bool) (t : Text) :
    scan inside (t ++ [x]) = (scan inside t).map (append x) := by
  have hprepend : ∀ (c : Char) (l? : Option CommentedLine),
      (l?.map (prepend c)).map (append x) = (l?.map (append x)).map (prepend c) := by
    intro c l?
    rw [Option.map_map, Option.map_map]
    exact congrArg (l?.map ·) (funext (append_prepend x c))
  fun_induction scan inside t with
  | case1 => exact scan_plain hx true []
  | case2 => exact scan_plain hx false []
  | case3 inside c r ih =>
    show scan inside ('\\' :: c :: (r ++ [x])) = _
    rw [scan_escape, ih]
    cases scan inside r with
    | none => rfl
    | some l => exact congrArg some ((append_prepend x '\\' _).trans (congrArg _ (append_prepend x c l))).symm
  | case4 r ih =>
    show scan true ('"' :: (r ++ [x])) = _
    rw [scan_true_quote, ih]
    exact (hprepend '"' _).symm
  | case5 r ih =>
    show scan false ('"' :: (r ++ [x])) = _
    rw [scan_false_quote, ih, ofUnquoted_append hx, Option.map_some, append_prepend]
    cases scan true r <;> rfl
  | case6 r => rfl
  | case7 inside c r hescape hopen hclose hslash ih =>
    have hquote : c ≠ '"' := by
      intro hc
      cases inside with
      | true => exact hopen rfl hc
      | false => exact hclose rfl hc
    rw [hprepend, ← ih]
    by_cases hlone : c = '\\' ∧ r = []
    · rw [hlone.1, hlone.2]
      show scan inside ('\\' :: x :: []) = _
      rw [scan_escape, List.nil_append, scan_plain hx]
      cases inside <;> rfl
    refine scan_skip (fun hc => ?_) hquote fun hc hinside =>
      head?_append_ne_slash hx.2.2 (head?_ne_of_forall_ne_cons fun s => hslash s hinside hc)
    cases r with
    | nil => exact absurd ⟨hc, rfl⟩ hlone
    | cons d s => exact (hescape d s hc rfl).elim

end CommentedLine

open CommentedLine

/-- One character that means nothing to the search for a comment is put into the code, and escapes no other character than such a one. -/
theorem ofLine_insert_char {x : Char} {before behind comment : Text} (hx : IsPlain x)
    (hsafe : endsPending false before = true → StartsIn IsPlain behind)
    (h : ofLine (before ++ (behind ++ comment)) = ⟨before ++ behind, comment⟩) :
    ofLine (before ++ x :: (behind ++ comment)) = ⟨before ++ x :: behind, comment⟩ :=
  ofLine_eq_iff.2 (scan_insert hx before hsafe (ofLine_eq_iff.1 h))

/-- Characters that mean nothing to the search for a comment, put into the code before such a character or at its end, become part of the code and leave the comment as it is. -/
theorem ofLine_insert {added before behind comment : Text} (hadded : ∀ c ∈ added, IsPlain c)
    (hbehind : StartsIn IsPlain behind) (h : ofLine (before ++ (behind ++ comment)) = ⟨before ++ behind, comment⟩) :
    ofLine (before ++ (added ++ behind ++ comment)) = ⟨before ++ (added ++ behind), comment⟩ := by
  induction added with
  | nil => exact h
  | cons x added ih =>
    have hx : IsPlain x := hadded x List.mem_cons_self
    have hrest : ∀ c ∈ added, IsPlain c := fun c hc => hadded c (List.mem_cons_of_mem _ hc)
    have hstart : StartsIn IsPlain (added ++ behind) := by
      cases added with
      | nil => exact hbehind
      | cons y added => exact startsIn_cons.2 (hrest y List.mem_cons_self)
    exact ofLine_insert_char hx (fun _ => hstart) (ih hrest)

/-- A blank at the end of a line makes no difference to its code but for blanks. -/
theorem strip_codeOf_append {x : Char} (hx : IsPlain x) (hblank : isBlank x) (line : Text) :
    strip (codeOf (line ++ [x])) = strip (codeOf line) := by
  have hline : ofLine (line ++ [x]) = (ofLine line).append x := by
    refine ofLine_eq_iff.2 ?_
    rw [scan_append hx, ofLine_eq_iff.1 rfl]
    rfl
  unfold codeOf
  rw [hline, CommentedLine.append]
  split
  · exact strip_append_blanks _ fun c hc => List.mem_singleton.1 hc ▸ hblank
  · rfl

end LineTags
