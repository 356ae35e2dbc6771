import LineTags.Story.Inline
import LineTags.Proofs.Tag.CommentCut

/-!
# Reading piece by piece

The pieces of a line are read one after the other, and how the reading goes on depends only on the text that is left and on how far the bracketed part has been read. The relation `Reads` says that some pieces lead from one such situation to another; the list of all pieces is read when nothing is left and no bracket is open.
-/

namespace LineTags

open Text

/-- The first piece of a text, the state behind it and the rest. There is none in an empty text, nor where a brace is never closed. -/
def nextPiece? (state : BracketState) : Text → Option (Piece × BracketState × Text)
  | [] => none
  | '\\' :: c :: r => some (.char c, state, r)
  | '\x7b' :: r => (cutAtBrace? 0 r).map fun (body, rest) => (.interpolation body, state, rest)
  | '#' :: r => some (.tag (strip (r.takeWhile (goesOnTag state))), state, r.dropWhile (goesOnTag state))
  | '-' :: '>' :: r => some (.divert (cutAtTarget r).1, state, (cutAtTarget r).2)
  | c :: r =>
    if c = '[' ∧ state = .awaited then some (.bracket, .opened, r)
    else if c = ']' ∧ state = .opened then some (.bracket, .closed, r)
    else some (.char c, state, r)

theorem piecesOf_nil (state : BracketState) :
    piecesOf state [] = if state = .opened then .error .openBracket else .ok [] := by
  rw [piecesOf]

theorem piecesOf_cons (state : BracketState) (c : Char) (r : Text) :
    piecesOf state (c :: r) =
      match nextPiece? state (c :: r) with
      | none => .error .openBrace
      | some (p, state', rest) => (piecesOf state' rest).map (p :: ·) := by
  generalize ht : c :: r = t
  fun_cases nextPiece? state t with
  | case1 => cases ht
  | case2 d s => rw [piecesOf]
  | case3 s =>
    rw [piecesOf]
    split
    · next hcut => rw [hcut]; rfl
    · next body rest hcut => rw [hcut]; rfl
  | case4 s => rw [piecesOf]
  | case5 s => rw [piecesOf]
  | case6 d s h1 h2 h3 h4 h =>
    rw [piecesOf, if_pos h]
    all_goals assumption
  | case7 d s h1 h2 h3 h4 hopen hclose =>
    rw [piecesOf, if_neg hopen, if_pos hclose]
    all_goals assumption
  | case8 d s h1 h2 h3 h4 hopen hclose =>
    rw [piecesOf, if_neg hopen, if_neg hclose]
    all_goals assumption

/-- A character that stands for itself, or is a bracket. -/
theorem nextPiece?_other (state : BracketState) {c : Char} {r : Text} (hescape : c = '\\' → r = []) (hbrace : c ≠ '\x7b')
    (hhash : c ≠ '#') (harrow : c = '-' → r.head? ≠ some '>') :
    nextPiece? state (c :: r) =
      if c = '[' ∧ state = .awaited then some (.bracket, .opened, r)
      else if c = ']' ∧ state = .opened then some (.bracket, .closed, r)
      else some (.char c, state, r) := by
  rw [nextPiece?]
  · rintro d s hc rfl
    cases hescape hc
  · exact hbrace
  · exact hhash
  · rintro s hc rfl
    exact harrow hc rfl

/-! ## What a piece takes -/

theorem eq_of_cutAtBrace? {depth : Nat} {t body rest : Text} (h : cutAtBrace? depth t = some (body, rest)) :
    t = body ++ '\x7d' :: rest := by
  fun_induction cutAtBrace? depth t generalizing body rest with
  | case1 => cases h
  | case2 depth r ih =>
    obtain ⟨⟨a, b⟩, hcut, heq⟩ := Option.map_eq_some_iff.1 h
    obtain ⟨rfl, rfl⟩ := Prod.mk.inj heq
    rw [List.cons_append, ← ih hcut]
  | case3 r =>
    obtain ⟨rfl, rfl⟩ := Prod.mk.inj (Option.some.inj h)
    rfl
  | case4 r depth ih =>
    obtain ⟨⟨a, b⟩, hcut, heq⟩ := Option.map_eq_some_iff.1 h
    obtain ⟨rfl, rfl⟩ := Prod.mk.inj heq
    rw [List.cons_append, ← ih hcut]
  | case5 depth c r _ _ ih =>
    obtain ⟨⟨a, b⟩, hcut, heq⟩ := Option.map_eq_some_iff.1 h
    obtain ⟨rfl, rfl⟩ := Prod.mk.inj heq
    rw [List.cons_append, ← ih hcut]

/-- Behind an arrow stands no target and nothing is taken, or blanks and a target are. -/
theorem cutAtTarget_cases (t : Text) :
    cutAtTarget t = ([], t) ∨
    ∃ blanks target, t = blanks ++ target ++ (cutAtTarget t).2 ∧ target ≠ [] ∧ ∀ c ∈ target, isTargetChar c = true := by
  unfold cutAtTarget
  dsimp only
  split
  · exact .inl rfl
  · next hne =>
    refine .inr ⟨t.takeWhile isBlank, (stripStart t).takeWhile isTargetChar, ?_, ?_, fun c hc => List.mem_takeWhile_imp hc⟩
    · rw [List.append_assoc, List.takeWhile_append_dropWhile, stripStart, List.takeWhile_append_dropWhile]
    · rintro hnil
      rw [hnil] at hne
      exact hne rfl

/-- A backslash is read as a character only where nothing is behind it. -/
theorem exists_taken_char {c : Char} {r : Text} (hescape : ∀ d s, c = '\\' → r = d :: s → False) :
    ∃ s, c :: r = s ++ r ∧ s ≠ [] ∧ (endsPending false s = false ∨ r.head? ≠ some '\\') := by
  refine ⟨[c], rfl, List.cons_ne_nil _ _, ?_⟩
  by_cases hc : c = '\\'
  · refine .inr fun hhead => ?_
    obtain ⟨s, rfl⟩ := List.head?_eq_some_iff.1 hhead
    exact hescape _ _ hc rfl
  · refine .inl ?_
    rw [endsPending, beq_false_of_ne hc]
    rfl

/-- A piece takes some characters, and the next piece does not start at an escaped backslash. -/
theorem exists_taken {state state' : BracketState} {t r : Text} {p : Piece} (h : nextPiece? state t = some (p, state', r)) :
    ∃ s, t = s ++ r ∧ s ≠ [] ∧ (endsPending false s = false ∨ r.head? ≠ some '\\') := by
  fun_cases nextPiece? state t with
  | case1 => cases h
  | case2 c s =>
    obtain ⟨-, h⟩ := Prod.mk.inj (Option.some.inj h)
    obtain ⟨-, rfl⟩ := Prod.mk.inj h
    refine ⟨['\\', c], rfl, List.cons_ne_nil _ _, .inl ?_⟩
    show (c == '\\' && !true) = false
    rw [Bool.not_true, Bool.and_false]
  | case3 s =>
    obtain ⟨⟨body, rest⟩, hcut, heq⟩ := Option.map_eq_some_iff.1 h
    obtain ⟨-, heq⟩ := Prod.mk.inj heq
    obtain ⟨-, rfl⟩ := Prod.mk.inj heq
    refine ⟨('\x7b' :: body) ++ ['\x7d'], ?_, List.cons_ne_nil _ _, .inl ?_⟩
    · rw [eq_of_cutAtBrace? hcut]
      simp
    · exact endsPending_append_of_ne _ _ (List.cons_ne_nil _ _) (by decide)
  | case4 s =>
    obtain ⟨-, h⟩ := Prod.mk.inj (Option.some.inj h)
    obtain ⟨-, rfl⟩ := Prod.mk.inj h
    refine ⟨'#' :: s.takeWhile (goesOnTag state), ?_, List.cons_ne_nil _ _, .inr fun hhead => ?_⟩
    · rw [List.cons_append, List.takeWhile_append_dropWhile]
    · have hstop := List.head?_dropWhile_not (goesOnTag state) s
      rw [hhead] at hstop
      cases state <;> exact absurd hstop (by decide)
  | case5 s =>
    obtain ⟨-, h⟩ := Prod.mk.inj (Option.some.inj h)
    obtain ⟨-, rfl⟩ := Prod.mk.inj h
    obtain hnone | ⟨blanks, target, hs, hne, htarget⟩ := cutAtTarget_cases s
    · rw [hnone]
      exact ⟨['-', '>'], rfl, List.cons_ne_nil _ _, .inl rfl⟩
    · refine ⟨('-' :: '>' :: blanks) ++ target, ?_, List.cons_ne_nil _ _, .inl ?_⟩
      · conv => lhs; rw [hs]
        rfl
      · refine endsPending_append_of_ne _ _ hne fun hmem => ?_
        exact absurd (htarget _ hmem) (by decide)
  | case6 c s hescape hbrace hhash harrow hopen =>
    rw [nextPiece?, if_pos hopen] at h
    · obtain ⟨-, h⟩ := Prod.mk.inj (Option.some.inj h)
      obtain ⟨-, rfl⟩ := Prod.mk.inj h
      exact exists_taken_char fun d q => hescape d q
    all_goals assumption
  | case7 c s hescape hbrace hhash harrow hopen hclose =>
    rw [nextPiece?, if_neg hopen, if_pos hclose] at h
    · obtain ⟨-, h⟩ := Prod.mk.inj (Option.some.inj h)
      obtain ⟨-, rfl⟩ := Prod.mk.inj h
      exact exists_taken_char fun d q => hescape d q
    all_goals assumption
  | case8 c s hescape hbrace hhash harrow hopen hclose =>
    rw [nextPiece?, if_neg hopen, if_neg hclose] at h
    · obtain ⟨-, h⟩ := Prod.mk.inj (Option.some.inj h)
      obtain ⟨-, rfl⟩ := Prod.mk.inj h
      exact exists_taken_char fun d q => hescape d q
    all_goals assumption

/-! ## The relation -/

inductive Reads : BracketState → Text → List Piece → BracketState → Text → Prop
  | stop (state : BracketState) (t : Text) : Reads state t [] state t
  | piece {state state' state'' : BracketState} {t r rest : Text} {p : Piece} {ps : List Piece} :
    nextPiece? state t = some (p, state', r) → Reads state' r ps state'' rest → Reads state t (p :: ps) state'' rest

variable {state state' state'' : BracketState} {t r rest : Text} {p : Piece} {ps qs : List Piece}

theorem Reads.single (h : nextPiece? state t = some (p, state', r)) : Reads state t [p] state' r := .piece h (.stop _ _)

theorem Reads.append (h : Reads state t ps state' r) (h' : Reads state' r qs state'' rest) :
    Reads state t (ps ++ qs) state'' rest := by
  induction h with
  | stop => exact h'
  | piece hpiece _ ih => exact .piece hpiece (ih h')

/-- What is read first does not depend on what is read behind it. -/
theorem piecesOf_of_reads (h : Reads state t ps state' r) : piecesOf state t = (piecesOf state' r).map (ps ++ ·) := by
  induction h with
  | stop state t =>
    show _ = (piecesOf state t).map id
    rw [Except.map_id]
    rfl
  | @piece state state' state'' t r rest p ps hpiece _ ih =>
    cases t with
    | nil => cases hpiece
    | cons c s =>
      rw [piecesOf_cons, hpiece]
      dsimp only
      rw [ih]
      cases piecesOf state'' rest with
      | error e => rfl
      | ok qs => rfl

theorem piecesOf_eq_ok_iff : piecesOf state t = .ok ps ↔ ∃ state', Reads state t ps state' [] ∧ state' ≠ .opened := by
  constructor
  · intro h
    induction hn : t.length using Nat.strongRecOn generalizing state t ps with
    | ind n ih =>
      cases t with
      | nil =>
        rw [piecesOf_nil] at h
        split at h
        · cases h
        · next hstate =>
          obtain rfl := Except.ok.inj h
          exact ⟨state, .stop _ _, hstate⟩
      | cons c s =>
        rw [piecesOf_cons] at h
        cases hpiece : nextPiece? state (c :: s) with
        | none => rw [hpiece] at h; cases h
        | some q =>
          obtain ⟨p, state', r⟩ := q
          rw [hpiece] at h
          dsimp only at h
          cases hrest : piecesOf state' r with
          | error e => rw [hrest] at h; cases h
          | ok qs =>
            rw [hrest] at h
            obtain rfl := Except.ok.inj h
            obtain ⟨taken, htaken, hne, -⟩ := exists_taken hpiece
            have hlength : r.length < n := by
              rw [← hn, htaken, List.length_append]
              have := List.length_pos_iff.2 hne
              omega
            obtain ⟨final, hreads, hfinal⟩ := ih r.length hlength hrest rfl
            exact ⟨final, .piece hpiece hreads, hfinal⟩
  · rintro ⟨state', h, hstate⟩
    rw [piecesOf_of_reads h, piecesOf_nil, if_neg hstate]
    show Except.ok (ps ++ []) = _
    rw [List.append_nil]

/-- The situation behind some pieces of a line that can be read comes up when the line is read. -/
theorem Reads.split (h : Reads state t ps state' r) {all : List Piece} (hall : piecesOf state t = .ok all) :
    ∃ behind, piecesOf state' r = .ok behind ∧ all = ps ++ behind := by
  rw [piecesOf_of_reads h] at hall
  cases hbehind : piecesOf state' r with
  | error e => rw [hbehind] at hall; cases hall
  | ok behind =>
    rw [hbehind] at hall
    exact ⟨behind, rfl, (Except.ok.inj hall).symm⟩

theorem length_lt_of_nextPiece? (h : nextPiece? state t = some (p, state', r)) : r.length < t.length := by
  obtain ⟨taken, rfl, hne, -⟩ := exists_taken h
  have := List.length_pos_iff.2 hne
  rw [List.length_append]
  omega

theorem Reads.length_le (h : Reads state t ps state' r) : r.length ≤ t.length := by
  induction h with
  | stop => exact Nat.le_refl _
  | piece hpiece _ ih =>
    have := length_lt_of_nextPiece? hpiece
    omega

/-- There is one way to read a text, so of two situations that come up the later one is read from the earlier one. -/
theorem Reads.behind (h : Reads state t ps state' r) (h' : Reads state t qs state'' rest) (hle : rest.length ≤ r.length) :
    ∃ more, Reads state' r more state'' rest := by
  induction h generalizing qs with
  | stop => exact ⟨qs, h'⟩
  | piece hpiece hreads ih =>
    cases h' with
    | stop =>
      have hlt := length_lt_of_nextPiece? hpiece
      have := hreads.length_le
      omega
    | piece hpiece' hreads' =>
      obtain ⟨rfl, heq⟩ := Prod.mk.inj (Option.some.inj (hpiece.symm.trans hpiece'))
      obtain ⟨rfl, rfl⟩ := Prod.mk.inj heq
      exact ih hreads' hle

theorem Reads.eq_of_length (h : Reads state t ps state' r) (hlength : r.length = t.length) : state = state' ∧ t = r := by
  cases h with
  | stop => exact ⟨rfl, rfl⟩
  | piece hpiece hreads =>
    have hlt := length_lt_of_nextPiece? hpiece
    have := hreads.length_le
    omega

theorem Reads.state_eq (h : Reads state t ps state' r) (h' : Reads state t qs state'' r) : state' = state'' := by
  obtain ⟨more, hmore⟩ := h.behind h' (Nat.le_refl _)
  exact (hmore.eq_of_length rfl).1

/-- A place that a piece is read over does not come up. -/
theorem Reads.not_inside (h : Reads state t ps state' r) {state₁ : BracketState} {r₁ : Text}
    (hnext : nextPiece? state' r = some (p, state₁, r₁)) (hlt : r₁.length < rest.length) (hle : rest.length < r.length) :
    ¬Reads state t qs state'' rest := by
  intro h'
  obtain ⟨more, hmore⟩ := h.behind h' (Nat.le_of_lt hle)
  cases hmore with
  | stop => omega
  | piece hpiece hreads =>
    obtain ⟨-, heq⟩ := Prod.mk.inj (Option.some.inj (hnext.symm.trans hpiece))
    obtain ⟨-, rfl⟩ := Prod.mk.inj heq
    have := hreads.length_le
    omega

/-- Where a backslash is next, it is not escaped. -/
theorem endsPending_of_reads (h : Reads state t ps state' r) (hr : r.head? = some '\\') :
    ∃ s, t = s ++ r ∧ endsPending false s = false := by
  induction h with
  | stop state t => exact ⟨[], rfl, rfl⟩
  | @piece state state' state'' t r rest p ps hpiece hreads ih =>
    obtain ⟨s, rfl, hs⟩ := ih hr
    obtain ⟨taken, rfl, -, htaken⟩ := exists_taken hpiece
    refine ⟨taken ++ s, (List.append_assoc _ _ _).symm, ?_⟩
    rcases htaken with htaken | htaken
    · rw [endsPending_append, htaken, hs]
    · cases s with
      | nil => exact absurd hr htaken
      | cons c s =>
        have hc : (c == '\\') = false := beq_false_of_ne fun hc => htaken (congrArg some hc)
        rw [endsPending, hc] at hs
        rw [endsPending_append, endsPending, hc]
        exact hs

/-- A tag outside an open bracket ends at the next tag, so behind the first one of them there are only tags. -/
theorem forall_tag_of_reads (h : Reads state t ps state' []) (hstate : state ≠ .opened) (ht : t.head? = some '#') :
    ∀ p ∈ ps, ∃ body, p = .tag body := by
  generalize hrest : ([] : Text) = rest at h
  induction h with
  | stop state t => exact fun p hp => absurd hp List.not_mem_nil
  | @piece state state' state'' t r rest p ps hpiece hreads ih =>
    obtain ⟨s, rfl⟩ := List.head?_eq_some_iff.1 ht
    obtain ⟨hp, h⟩ := Prod.mk.inj (Option.some.inj hpiece)
    obtain ⟨rfl, rfl⟩ := Prod.mk.inj h
    intro q hq
    rcases List.mem_cons.1 hq with rfl | hq
    · exact ⟨_, hp.symm⟩
    · cases hr : s.dropWhile (goesOnTag state) with
      | nil =>
        rw [hr] at hreads
        cases hreads with
        | stop => cases hq
        | piece h => cases h
      | cons c r =>
        have hstop := List.head?_dropWhile_not (goesOnTag state) s
        rw [hr] at hstop
        have hc : c = '#' := by
          by_contra hc
          have hstop : goesOnTag state c = false := hstop
          rw [goesOnTag, beq_false_of_ne hstate, bne_iff_ne.2 hc] at hstop
          exact Bool.noConfusion hstop
        exact ih hstate (by rw [hr, hc]; rfl) hrest q hq

end LineTags
