import LineTags.Proofs.Story.Reading
import LineTags.Proofs.Tag.Insertion

/-!
# Reading up to a place

A tag changes a line behind one place only. What is read before that place is read as before, with one exception: the last piece may go on over the place. It does so when a backslash, a tag or an interpolation is still open there. `exists_arrival` says that there is no other way, for every text that starts with a blank or a closing bracket and holds no target behind the blanks.
-/

namespace LineTags

open Text

/-! ### Blanks are no part of a target -/

def blankCodes : List Nat :=
  [9, 10, 11, 12, 13, 28, 29, 30, 31, 32, 0x85, 0xA0, 0x1680, 0x2000, 0x2001, 0x2002, 0x2003, 0x2004, 0x2005, 0x2006,
    0x2007, 0x2008, 0x2009, 0x200A, 0x2028, 0x2029, 0x202F, 0x205F, 0x3000]

theorem toNat_mem_blankCodes {c : Char} (hc : isBlank c) : c.toNat ∈ blankCodes := by
  simp only [isBlank, Bool.or_eq_true, Bool.and_eq_true, decide_eq_true_eq, beq_iff_eq, UInt32.le_iff_toNat_le,
    ← UInt32.toNat_inj, UInt32.reduceToNat] at hc
  unfold Char.toNat
  simp only [blankCodes, List.mem_cons, List.not_mem_nil, or_false]
  omega

theorem inRanges_eq (ranges : Array (Nat × Nat)) (n : Nat) :
    inRanges ranges n = ranges.toList.any fun range => range.1 ≤ n && n ≤ range.2 := Array.any_toList.symm

/-- The table is searched as a list, which is quicker to check. -/
theorem any_ranges_of_mem_blankCodes :
    ∀ n ∈ blankCodes, (alphanumericRanges.toList.any fun range => range.1 ≤ n && n ≤ range.2) = false := by
  decide +kernel

theorem isTargetChar_of_isBlank {c : Char} (hc : isBlank c) : isTargetChar c = false := by
  have hid : isIdentifierChar c = false := (EndsTag.of_isBlank hc).1
  have hdot : (c == '.') = false := by
    refine beq_false_of_ne ?_
    rintro rfl
    exact absurd hc (by decide)
  rw [isIdentifierChar] at hid
  rw [isTargetChar, isWordChar, hid, hdot, inRanges_eq, any_ranges_of_mem_blankCodes _ (toNat_mem_blankCodes hc)]
  rw [Bool.and_false]
  rfl

/-! ### What ends every piece -/

/-- What may stand behind the place: nothing, or a blank or a closing bracket, with no target of a divert behind the blanks. -/
structure Stops (x : Text) : Prop where
  follows : StartsIn FollowsTag x
  noTarget : StartsIn (isTargetChar · = false) (stripStart x)

theorem FollowsTag.isTargetChar {c : Char} (hc : FollowsTag c) : isTargetChar c = false := by
  rcases hc with hc | rfl
  · exact isTargetChar_of_isBlank hc
  · decide +kernel

theorem stops_nil : Stops [] := ⟨startsIn_nil, startsIn_nil⟩

/-- Blanks and a character that neither is a blank nor stands in a target. -/
theorem stops_blanks_append {w : Text} (hw : ∀ c ∈ w, isBlank c) {c : Char} (hc : isBlank c = false)
    (htarget : isTargetChar c = false) (hfollows : w = [] → FollowsTag c) (r : Text) : Stops (w ++ c :: r) := by
  refine ⟨?_, ?_⟩
  · cases w with
    | nil => exact startsIn_cons.2 (hfollows rfl)
    | cons d w => exact startsIn_cons.2 (.inl (hw d List.mem_cons_self))
  · rw [stripStart_append_of_blank (isBlankText_iff.2 hw), stripStart, List.dropWhile_cons_of_neg (by rw [hc]; decide)]
    exact startsIn_cons.2 htarget

theorem cutAtBrace?_append {depth : Nat} {t body rest : Text} (h : cutAtBrace? depth t = some (body, rest)) (x : Text) :
    cutAtBrace? depth (t ++ x) = some (body, rest ++ x) := by
  fun_induction cutAtBrace? depth t generalizing body rest with
  | case1 => cases h
  | case2 depth r ih =>
    obtain ⟨⟨a, b⟩, hcut, heq⟩ := Option.map_eq_some_iff.1 h
    obtain ⟨rfl, rfl⟩ := Prod.mk.inj heq
    rw [List.cons_append, cutAtBrace?, ih hcut]
    rfl
  | case3 r =>
    obtain ⟨rfl, rfl⟩ := Prod.mk.inj (Option.some.inj h)
    rfl
  | case4 r depth ih =>
    obtain ⟨⟨a, b⟩, hcut, heq⟩ := Option.map_eq_some_iff.1 h
    obtain ⟨rfl, rfl⟩ := Prod.mk.inj heq
    rw [List.cons_append, cutAtBrace?, ih hcut]
    rfl
  | case5 depth c r hopen hclose ih =>
    obtain ⟨⟨a, b⟩, hcut, heq⟩ := Option.map_eq_some_iff.1 h
    obtain ⟨rfl, rfl⟩ := Prod.mk.inj heq
    rw [List.cons_append, cutAtBrace?, ih hcut]
    · rfl
    · exact hopen
    · exact hclose

theorem cutAtTarget_append {t x : Text} (ht : EndsDark t) (hx : Stops x) :
    cutAtTarget (t ++ x) = ((cutAtTarget t).1, (cutAtTarget t).2 ++ x) := by
  have hstop : StartsIn (isTargetChar · = false) x := hx.follows.mono fun _ hc => hc.isTargetChar
  cases hblank : isBlankText t with
  | true =>
    obtain rfl := eq_nil_of_endsDark ht hblank
    have hnone : (stripStart x).takeWhile isTargetChar = [] := by
      have := takeWhile_append [] hx.noTarget
      rwa [List.nil_append] at this
    have hcut : cutAtTarget x = ([], x) := by
      unfold cutAtTarget
      dsimp only
      rw [if_pos (by rw [hnone]; rfl)]
    rw [List.nil_append, hcut]
    rfl
  | false =>
    unfold cutAtTarget
    dsimp only
    rw [stripStart_append hblank, takeWhile_append _ hstop, dropWhile_append _ hstop]
    split <;> rfl

/-! ### One piece -/

variable {state state' state'' : BracketState} {u x : Text}

/-- A character that stands for itself, or is a bracket, does so whatever follows. -/
theorem nextPiece?_other_append (state : BracketState) {c : Char} {r : Text} (hescape : c ≠ '\\') (hbrace : c ≠ '\x7b')
    (hhash : c ≠ '#') (harrow : c = '-' → r.head? ≠ some '>') :
    ∃ p state' r', nextPiece? state (c :: r) = some (p, state', r') ∧
      ∀ x, Stops x → nextPiece? state (c :: r ++ x) = some (p, state', r' ++ x) := by
  have hbehind : ∀ x, Stops x → c = '-' → (r ++ x).head? ≠ some '>' := by
    intro x hx hminus
    cases r with
    | nil =>
      intro hhead
      have hfollows : FollowsTag '>' := hx.follows _ hhead
      rcases hfollows with h | h
      · exact absurd h (by decide)
      · exact absurd h (by decide)
    | cons d r => exact harrow hminus
  rw [nextPiece?_other state (fun h => absurd h hescape) hbrace hhash harrow]
  have hmore : ∀ x, Stops x → nextPiece? state (c :: r ++ x) =
      if c = '[' ∧ state = .awaited then some (.bracket, .opened, r ++ x)
      else if c = ']' ∧ state = .opened then some (.bracket, .closed, r ++ x)
      else some (.char c, state, r ++ x) := by
    intro x hx
    rw [List.cons_append, nextPiece?_other state (fun h => absurd h hescape) hbrace hhash (hbehind x hx)]
  split
  · next hopen =>
    refine ⟨_, _, _, rfl, fun x hx => ?_⟩
    rw [hmore x hx, if_pos hopen]
  split
  · next hopen hclose =>
    refine ⟨_, _, _, rfl, fun x hx => ?_⟩
    rw [hmore x hx, if_neg hopen, if_pos hclose]
  · next hopen hclose =>
    refine ⟨_, _, _, rfl, fun x hx => ?_⟩
    rw [hmore x hx, if_neg hopen, if_neg hclose]

/-- A piece that starts before the place ends before it, unless nothing but a lone backslash, an open tag or an open interpolation is left there. -/
theorem nextPiece?_append (state : BracketState) {u : Text} (hu : EndsDark u) (hne : u ≠ []) :
    (∃ p state' r, nextPiece? state u = some (p, state', r) ∧
      ∀ x, Stops x → nextPiece? state (u ++ x) = some (p, state', r ++ x)) ∨
    u = ['\\'] ∨ (∃ body, u = '#' :: body ∧ ∀ c ∈ body, goesOnTag state c = true) ∨
    ∃ s, u = '\x7b' :: s ∧ cutAtBrace? 0 s = none := by
  rcases u with _ | ⟨c, r⟩
  · exact absurd rfl hne
  by_cases hescape : c = '\\'
  · subst hescape
    cases r with
    | nil => exact .inr (.inl rfl)
    | cons d r => exact .inl ⟨_, _, _, rfl, fun x _ => rfl⟩
  by_cases hbrace : c = '\x7b'
  · subst hbrace
    cases hcut : cutAtBrace? 0 r with
    | none => exact .inr (.inr (.inr ⟨r, rfl, hcut⟩))
    | some found =>
      refine .inl ⟨.interpolation found.1, state, found.2, ?_, fun x _ => ?_⟩
      · rw [nextPiece?, hcut]
        rfl
      · rw [List.cons_append, nextPiece?, cutAtBrace?_append hcut]
        rfl
  by_cases hhash : c = '#'
  · subst hhash
    by_cases hall : ∀ d ∈ r, goesOnTag state d = true
    · exact .inr (.inr (.inl ⟨r, rfl, hall⟩))
    · have hdrop : r.dropWhile (goesOnTag state) ≠ [] := fun h => hall (List.dropWhile_eq_nil_iff.1 h)
      have htake : (r.takeWhile (goesOnTag state)).length ≠ r.length := by
        intro hlength
        have hsum := congrArg List.length (List.takeWhile_append_dropWhile (p := goesOnTag state) (l := r))
        rw [List.length_append, hlength] at hsum
        exact hdrop (List.eq_nil_of_length_eq_zero (by omega))
      refine .inl ⟨_, _, _, rfl, fun x _ => ?_⟩
      rw [List.cons_append, nextPiece?, List.takeWhile_append, if_neg htake, List.dropWhile_append, if_neg]
      rwa [List.isEmpty_iff]
  by_cases harrow : c = '-' ∧ r.head? = some '>'
  · obtain ⟨rfl, hhead⟩ := harrow
    obtain ⟨s, rfl⟩ := List.head?_eq_some_iff.1 hhead
    have hs : EndsDark s := by
      rcases s with _ | ⟨d, s⟩
      · exact endsDark_nil
      · rwa [endsDark_cons (List.cons_ne_nil _ _), endsDark_cons (List.cons_ne_nil _ _)] at hu
    refine .inl ⟨_, _, _, rfl, fun x hx => ?_⟩
    rw [List.cons_append, List.cons_append, nextPiece?, cutAtTarget_append hs hx]
  · exact .inl (nextPiece?_other_append state hescape hbrace hhash fun hminus hhead => harrow ⟨hminus, hhead⟩)

/-! ### All pieces before the place -/

/-- How the reading of a text arrives at its end, whatever stops it there. -/
inductive Arrival (state : BracketState) (u : Text) : Prop
  | between (ps : List Piece) (state' : BracketState) (reads : ∀ x, Stops x → Reads state (u ++ x) ps state' x)
  | escaping (ps : List Piece) (state' : BracketState) (reads : ∀ x, Stops x → Reads state (u ++ x) ps state' ('\\' :: x))
  | inTag (ps : List Piece) (state' : BracketState) (body : Text) (goesOn : ∀ c ∈ body, goesOnTag state' c = true)
    (reads : ∀ x, Stops x → Reads state (u ++ x) ps state' ('#' :: body ++ x))
  | inBraces (ps : List Piece) (state' : BracketState) (s : Text) (opened : cutAtBrace? 0 s = none)
    (reads : ∀ x, Stops x → Reads state (u ++ x) ps state' ('\x7b' :: s ++ x))

theorem Arrival.piece {p : Piece} {r : Text} (h : ∀ x, Stops x → nextPiece? state (u ++ x) = some (p, state', r ++ x))
    (harrival : Arrival state' r) : Arrival state u := by
  cases harrival with
  | between ps state'' reads => exact .between (p :: ps) state'' fun x hx => .piece (h x hx) (reads x hx)
  | escaping ps state'' reads => exact .escaping (p :: ps) state'' fun x hx => .piece (h x hx) (reads x hx)
  | inTag ps state'' body goesOn reads =>
    exact .inTag (p :: ps) state'' body goesOn fun x hx => .piece (h x hx) (reads x hx)
  | inBraces ps state'' s opened reads =>
    exact .inBraces (p :: ps) state'' s opened fun x hx => .piece (h x hx) (reads x hx)

theorem exists_arrival (state : BracketState) {u : Text} (hu : EndsDark u) : Arrival state u := by
  induction hn : u.length using Nat.strongRecOn generalizing state u with
  | ind n ih =>
    rcases List.eq_nil_or_concat u with rfl | hne
    · exact .between [] state fun x _ => .stop _ _
    have hne : u ≠ [] := by
      obtain ⟨s, c, rfl⟩ := hne
      simp
    obtain ⟨p, state', r, hpiece, hstop⟩ | rfl | ⟨body, rfl, hbody⟩ | ⟨s, rfl, hs⟩ := nextPiece?_append state hu hne
    · obtain ⟨taken, rfl, htaken, -⟩ := exists_taken hpiece
      have hlength : r.length < n := by
        rw [← hn, List.length_append]
        have := List.length_pos_iff.2 htaken
        omega
      have hr : EndsDark r := by
        rcases r with _ | ⟨c, r⟩
        · exact endsDark_nil
        · rwa [endsDark_append (List.cons_ne_nil _ _)] at hu
      exact (ih r.length hlength state' hr rfl).piece hstop
    · exact .escaping [] state fun x _ => .stop _ _
    · exact .inTag [] state body hbody fun x _ => .stop _ _
    · exact .inBraces [] state s hs fun x _ => .stop _ _

/-- What is read of a text before its last piece is read of it whatever follows. -/
theorem Reads.append_stops {ps : List Piece} {r : Text} (h : Reads state u ps state' r) (hu : EndsDark u) (hr : r ≠ [])
    (hx : Stops x) : Reads state (u ++ x) ps state' (r ++ x) := by
  induction h with
  | stop => exact .stop _ _
  | @piece state state' state'' u r rest p ps hpiece hreads ih =>
    have hne : u ≠ [] := by
      rintro rfl
      cases hpiece
    have hlast : r ≠ [] := by
      rintro rfl
      have := hreads.length_le
      exact hr (List.eq_nil_of_length_eq_zero (Nat.le_zero.1 this))
    obtain ⟨taken, rfl, -, -⟩ := exists_taken hpiece
    have hdark : EndsDark r := (endsDark_append hlast).1 hu
    obtain ⟨q, _, s, hq, hstop⟩ | heq | ⟨body, heq, hbody⟩ | ⟨s, heq, hs⟩ := nextPiece?_append state hu hne
    · obtain ⟨rfl, heq⟩ := Prod.mk.inj (Option.some.inj (hpiece.symm.trans hq))
      obtain ⟨rfl, rfl⟩ := Prod.mk.inj heq
      exact .piece (hstop x hx) (ih hdark hr)
    · rw [heq] at hpiece
      obtain ⟨-, hpiece⟩ := Prod.mk.inj (Option.some.inj hpiece)
      exact absurd (Prod.mk.inj hpiece).2.symm hlast
    · rw [heq] at hpiece
      obtain ⟨-, hpiece⟩ := Prod.mk.inj (Option.some.inj hpiece)
      rw [List.dropWhile_eq_nil_iff.2 hbody] at hpiece
      exact absurd (Prod.mk.inj hpiece).2.symm hlast
    · rw [heq, nextPiece?, hs] at hpiece
      cases hpiece

end LineTags
