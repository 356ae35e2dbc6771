import LineTags.Proofs.Story.TaggedForm

/-!
# Where the tag of a line stands for the reader

The search for the place of a tag and the reader look at the same line in two ways. The search counts brackets and braces from the choice marks on; the reader drops a label first and reads piece by piece. What both agree on is recorded in `Placed`: the tag stands at the end of the code, or in a choice, behind an opening bracket and right before a closing one that no backslash escapes. Whether this leaves the line as it was is then decided by `Fits` alone.
-/

namespace LineTags

open Text CommentedLine LineForm

variable {identifier : Text}

/-! ### The bracket that is searched for -/

theorem endsPending_cons_of_ne {c : Char} (hc : c ≠ '\\') (pending : Bool) (t : Text) :
    endsPending pending (c :: t) = endsPending false t := by
  rw [endsPending, beq_false_of_ne hc]
  rfl

/-- The bracket is not escaped, and an opening one stands before it. -/
theorem take_of_closingBracket? {depth : Nat} {opened : Bool} {t : Text} {k : Nat}
    (h : closingBracket? depth opened t = some k) :
    endsPending false (t.take k) = false ∧ (opened = false → '[' ∈ t.take k) := by
  have hlone : ∀ {depth : Nat} {opened : Bool} {c : Char} {r : Text} {j : Nat},
      (∀ d s, c = '\\' → r = d :: s → False) → closingBracket? depth opened r = some j → c ≠ '\\' := by
    rintro depth opened c r j hescape hj rfl
    cases r with
    | nil => cases hj
    | cons d s => exact hescape d s rfl rfl
  fun_induction closingBracket? depth opened t generalizing k with
  | case1 => cases h
  | case2 depth opened c r ih =>
    obtain ⟨j, hj, rfl⟩ := Option.map_eq_some_iff.1 h
    obtain ⟨hpending, hmem⟩ := ih hj
    refine ⟨?_, fun hopened => ?_⟩
    · show endsPending (c == '\\' && !true) (r.take j) = false
      rwa [Bool.not_true, Bool.and_false]
    · exact List.mem_cons_of_mem _ (List.mem_cons_of_mem _ (hmem hopened))
  | case3 depth opened r ih =>
    obtain ⟨j, hj, rfl⟩ := Option.map_eq_some_iff.1 h
    obtain ⟨hpending, hmem⟩ := ih hj
    exact ⟨hpending, fun hopened => List.mem_cons_of_mem _ (hmem hopened)⟩
  | case4 opened c r hescape hbrace depth ih =>
    obtain ⟨j, hj, rfl⟩ := Option.map_eq_some_iff.1 h
    obtain ⟨hpending, hmem⟩ := ih hj
    rw [List.take_succ_cons, endsPending_cons_of_ne (hlone hescape hj)]
    exact ⟨hpending, fun hopened => List.mem_cons_of_mem _ (hmem hopened)⟩
  | case5 opened c r hescape hbrace hclose =>
    obtain rfl := Option.some.inj h
    exact ⟨rfl, fun hopened => absurd hclose.2 (by rw [hopened]; decide)⟩
  | case6 opened c r hescape hbrace hclose ih =>
    obtain ⟨j, hj, rfl⟩ := Option.map_eq_some_iff.1 h
    obtain ⟨hpending, hmem⟩ := ih hj
    rw [List.take_succ_cons, endsPending_cons_of_ne (hlone hescape hj)]
    refine ⟨hpending, fun hopened => ?_⟩
    by_cases hc : c = '['
    · exact List.mem_cons.2 (.inl hc.symm)
    · refine List.mem_cons_of_mem _ (hmem ?_)
      rw [hopened, beq_false_of_ne hc]
      rfl

/-- Marks stand behind blanks. -/
theorem exists_marks {isMark : Char → Bool} {t : Text} (h : marksLength isMark t ≠ 0) :
    ∃ lead c r, t = lead ++ c :: r ∧ (∀ d ∈ lead, isBlank d) ∧ isMark c ∧ lead.length < marksLength isMark t := by
  induction t with
  | nil => exact absurd rfl h
  | cons c r ih =>
    rw [marksLength] at h ⊢
    by_cases hmark : isMark c
    · rw [if_pos hmark]
      refine ⟨[], c, r, rfl, fun d hd => absurd hd List.not_mem_nil, hmark, ?_⟩
      rw [List.length_nil]
      omega
    rw [if_neg hmark] at h ⊢
    by_cases hblank : isBlank c
    · rw [if_pos hblank] at h ⊢
      cases hmarks : marksLength isMark r with
      | zero => rw [hmarks] at h; exact absurd rfl h
      | succ n =>
        obtain ⟨lead, d, s, rfl, hlead, hd, hlength⟩ := ih (by omega)
        refine ⟨c :: lead, d, s, rfl, ?_, hd, ?_⟩
        · intro e he
          rcases List.mem_cons.1 he with rfl | he
          · exact hblank
          · exact hlead e he
        · show (c :: lead).length < n + 2
          rw [List.length_cons]
          omega
    · rw [if_neg hblank] at h
      exact absurd rfl h

/-- The code of a choice cut at the place of its tag: behind an opening bracket, then blanks and a closing bracket. -/
theorem exists_cut_bracket {code b : Text} (h : beforeChoiceBracket? code = some b) :
    ∃ lead c p q w y, (∀ d ∈ lead, isBlank d) ∧ isChoiceMark c ∧ EndsDark ('[' :: q) ∧ (∀ d ∈ w, isBlank d) ∧
      (w = [] → endsPending false q = false) ∧ b = lead ++ (c :: p ++ '[' :: q) ++ w ∧ code = b ++ ']' :: y := by
  obtain ⟨y, hy⟩ := eq_append_of_beforeChoiceBracket? h
  unfold beforeChoiceBracket? at h
  split at h
  · cases h
  · next hmarks =>
    obtain ⟨k, hk, hb⟩ := Option.map_eq_some_iff.1 h
    obtain ⟨lead, c, r, hcode, hlead, hc, hlength⟩ := exists_marks hmarks
    obtain ⟨hpending, hmem⟩ := take_of_closingBracket? hk
    obtain ⟨p₁, q₁, htake⟩ := List.append_of_mem (hmem rfl)
    obtain ⟨w, hw, hq₁⟩ := exists_blanks_stripEnd ('[' :: q₁)
    have hdark := stripEnd_endsDark ('[' :: q₁)
    have hmarked : ∃ p₀, code.take (marksLength isChoiceMark code) = lead ++ c :: p₀ := by
      obtain ⟨n, hn⟩ := Nat.exists_eq_add_of_lt hlength
      refine ⟨r.take n, ?_⟩
      rw [hn, hcode, List.take_append, List.take_of_length_le (by omega)]
      have hrest : lead.length + n + 1 - lead.length = n + 1 := by omega
      rw [hrest, List.take_succ_cons]
    obtain ⟨p₀, hp₀⟩ := hmarked
    rcases hcore : stripEnd ('[' :: q₁) with _ | ⟨d, q⟩
    · rw [hcore, List.nil_append] at hq₁
      exact absurd (hw '[' (hq₁ ▸ List.mem_cons_self)) (by decide)
    rw [hcore, List.cons_append] at hq₁
    obtain rfl : '[' = d := (List.cons.inj hq₁).1
    have hbehind : q₁ = q ++ w := (List.cons.inj hq₁).2
    rw [hcore] at hdark
    refine ⟨lead, c, p₀ ++ p₁, q, w, y, hlead, hc, hdark, hw, ?_, ?_, hy⟩
    · rintro rfl
      rw [htake, endsPending_append, endsPending_cons_of_ne (by decide), hbehind, List.append_nil] at hpending
      exact hpending
    · rw [← hb, List.take_add, hp₀, htake, hbehind]
      simp

/-! ### The place for the reader -/

/-- The old code and the code with the tag, without the blanks around them. Given is the bracket, with what is behind it, if the tag stands before one. -/
inductive Placed (identifier : Text) : Option Text → Text → Text → Prop
  | atEnd {code : Text} : code ≠ [] → EndsDark code → Placed identifier none code (code ++ ' ' :: formatTag identifier)
  | beforeBracket {c : Char} {p q w y : Text} : isChoiceMark c → EndsDark ('[' :: q) → (∀ d ∈ w, isBlank d) →
    (w = [] → endsPending false q = false) →
    Placed identifier (some (']' :: y)) (c :: p ++ '[' :: q ++ (w ++ ']' :: y))
      (c :: p ++ '[' :: q ++ (' ' :: formatTag identifier ++ (w ++ ']' :: y)))

/-- The bracket that the tag of a line is put before, with what is behind it. -/
def bracketOf (line : Text) : Option Text :=
  (beforeChoiceBracket? (codeOf line)).map fun b => stripEnd ((codeOf line).drop b.length)

theorem endsDark_spacedTag (hword : IsWord identifier) (t : Text) : EndsDark (t ++ ' ' :: formatTag identifier) := by
  have hsplit : t ++ ' ' :: formatTag identifier = (t ++ [' ', '#']) ++ tagText identifier := by simp [formatTag_eq]
  rw [hsplit]
  refine (endsDark_append (t := tagText identifier) (List.cons_ne_nil _ _)).2 fun c hc => ?_
  rw [(tagText_chars hword (List.mem_of_getLast? hc)).1]
  decide

theorem isBlankText_false_of_mem {c : Char} {t : Text} (hc : c ∈ t) (hdark : isBlank c = false) : isBlankText t = false := by
  by_contra hblank
  have := isBlankText_iff.1 (Bool.of_not_eq_false hblank) c hc
  rw [hdark] at this
  exact Bool.noConfusion this

theorem strip_append_lead {lead : Text} (hlead : ∀ d ∈ lead, isBlank d) {c : Char} (hc : isBlank c = false) (r : Text) :
    strip (lead ++ c :: r) = stripEnd (c :: r) := by
  rw [strip, stripStart_append_of_blank (isBlankText_iff.2 hlead), stripStart, List.dropWhile_cons_of_neg]
  rw [hc]
  decide

theorem isBlank_of_isChoiceMark {c : Char} (hc : isChoiceMark c) : isBlank c = false := by
  rw [isChoiceMark, Bool.or_eq_true, beq_iff_eq, beq_iff_eq] at hc
  rcases hc with rfl | rfl
  · decide
  · decide

/-- A tag at the end of the code, with the blanks there behind it. -/
theorem placed_atEnd (hword : IsWord identifier) {code : Text} (hcode : isBlankText code = false) {w : Text}
    (hw : ∀ c ∈ w, isBlank c) (hsplit : code = stripEnd code ++ w) :
    Placed identifier none (strip code) (strip (stripEnd code ++ (' ' :: formatTag identifier ++ w))) := by
  have hstart := stripStart_ne_nil hcode
  have hdark : EndsDark (stripStart (stripEnd code)) := endsDark_stripStart (stripEnd_endsDark code)
  have hcore : isBlankText (stripEnd code) = false := by
    by_contra hblank
    have hnil := eq_nil_of_endsDark (stripEnd_endsDark code) (Bool.of_not_eq_false hblank)
    rw [stripEnd_eq_nil_iff.1 hnil] at hcode
    cases hcode
  have hold : strip code = stripStart (stripEnd code) := by
    conv => lhs; rw [hsplit]
    rw [strip_append_blanks _ hw, strip, stripEnd_of_endsDark hdark]
  have hnew : strip (stripEnd code ++ (' ' :: formatTag identifier ++ w)) =
      stripStart (stripEnd code) ++ ' ' :: formatTag identifier := by
    rw [← List.append_assoc, strip_append_blanks _ hw, strip, stripStart_append hcore,
      stripEnd_of_endsDark (endsDark_spacedTag hword _)]
  rw [hold, hnew]
  exact .atEnd (stripStart_ne_nil hcore) hdark

theorem placed_insertTag (hword : IsWord identifier) {line : Text} (hcode : hasNoCode line = false) :
    Placed identifier (bracketOf line) (strip (codeOf line)) (strip (codeOf (insertTag line identifier))) := by
  obtain ⟨before, behind, hcut, hdark, hbehind, hlength, hinsert⟩ := exists_insertTag_eq hcode identifier
  have hnew : codeOf (insertTag line identifier) = before ++ (' ' :: formatTag identifier ++ behind) := by
    rw [codeOf, hinsert, ofLine_of_cut hcut hbehind hword]
  rw [hnew, bracketOf]
  cases hb : beforeChoiceBracket? (codeOf line) with
  | none =>
    rw [tagColumn, hb, Option.getD_none] at hlength
    obtain ⟨w, hw, hsplit⟩ := exists_blanks_stripEnd (codeOf line)
    obtain ⟨rfl, rfl⟩ := List.append_inj (hcut.symm.trans hsplit) hlength
    exact placed_atEnd hword hcode hw hsplit
  | some b =>
    rw [tagColumn, hb, Option.getD_some] at hlength
    obtain ⟨lead, c, p, q, w, y, hlead, hc, hq, hw, hescape, hsplit, hline⟩ := exists_cut_bracket hb
    have hcblank := isBlank_of_isChoiceMark hc
    have hend : EndsDark (lead ++ (c :: p ++ '[' :: q)) := by
      rw [← List.append_assoc, endsDark_append (List.cons_ne_nil _ _)]
      exact hq
    have hbefore : before = lead ++ (c :: p ++ '[' :: q) ∧ behind = w ++ ']' :: y := by
      rw [hsplit, stripEnd_append_blanks hw, stripEnd_of_endsDark hend] at hlength
      refine List.append_inj ?_ hlength
      rw [← hcut, hline, hsplit, List.append_assoc]
    obtain ⟨rfl, rfl⟩ := hbefore
    have hbracket : isBlankText (']' :: y) = false := isBlankText_false_of_mem List.mem_cons_self (by decide)
    obtain ⟨z, hz⟩ : ∃ z, stripEnd (']' :: y) = ']' :: z := by
      obtain ⟨v, hv, hsplit⟩ := exists_blanks_stripEnd (']' :: y)
      rcases hcore : stripEnd (']' :: y) with _ | ⟨d, z⟩
      · rw [stripEnd_eq_nil_iff.1 hcore] at hbracket
        cases hbracket
      · rw [hcore, List.cons_append] at hsplit
        exact ⟨z, by rw [(List.cons.inj hsplit).1]⟩
    have hdrop : (codeOf line).drop b.length = ']' :: y := by rw [hline, List.drop_left]
    have hstrip : ∀ x, strip (lead ++ (c :: p ++ '[' :: q) ++ (x ++ (w ++ ']' :: y))) =
        c :: p ++ '[' :: q ++ (x ++ (w ++ ']' :: z)) := by
      intro x
      have hassoc : lead ++ (c :: p ++ '[' :: q) ++ (x ++ (w ++ ']' :: y)) =
          lead ++ c :: ((p ++ '[' :: q ++ (x ++ w)) ++ ']' :: y) := by simp
      rw [hassoc, strip_append_lead hlead hcblank, ← List.cons_append, stripEnd_append hbracket, hz]
      simp
    have hold := hstrip []
    rw [List.nil_append, List.nil_append] at hold
    rw [Option.map_some, hdrop, hz, hcut, hold, hstrip]
    exact .beforeBracket hc hq hw hescape

/-! ### Byte order marks -/

theorem codeOf_cons_of_isPlain {c : Char} (hc : IsPlain c) (r : Text) : codeOf (c :: r) = c :: codeOf r := by
  have hscan : scan false r = some (ofLine r) := ofLine_eq_iff.1 rfl
  have hline : ofLine (c :: r) = (ofLine r).prepend c := by
    rw [ofLine_eq_iff, scan_plain hc, hscan]
    rfl
  rw [codeOf, hline]
  rfl

theorem codeOf_append_of_isPlain {marks : Text} (hmarks : ∀ c ∈ marks, IsPlain c) (r : Text) :
    codeOf (marks ++ r) = marks ++ codeOf r := by
  induction marks with
  | nil => rfl
  | cons c marks ih =>
    rw [List.cons_append, codeOf_cons_of_isPlain (hmarks c List.mem_cons_self),
      ih fun d hd => hmarks d (List.mem_cons_of_mem _ hd), List.cons_append]

theorem commentOf_append_of_isPlain {marks : Text} (hmarks : ∀ c ∈ marks, IsPlain c) (r : Text) :
    commentOf (marks ++ r) = commentOf r := by
  have hwhole := codeOf_append_commentOf (marks ++ r)
  rw [codeOf_append_of_isPlain hmarks, List.append_assoc] at hwhole
  have hrest := List.append_cancel_left hwhole
  conv at hrest => rhs; rw [← codeOf_append_commentOf r]
  exact List.append_cancel_left hrest

theorem dropMarks_of_head? {t : Text} (ht : t.head? ≠ some '\uFEFF') : dropMarks t = t := by
  cases t with
  | nil => rfl
  | cons c t =>
    refine List.dropWhile_cons_of_neg ?_
    rw [beq_iff_eq]
    rintro rfl
    exact ht rfl

theorem dropMarks_append {marks : Text} (hmarks : ∀ c ∈ marks, c = '\uFEFF') (t : Text) :
    dropMarks (marks ++ t) = dropMarks t :=
  List.dropWhile_append_of_pos fun c hc => beq_iff_eq.2 (hmarks c hc)

theorem dropMarks_insertTag {read : Text} (hread : read.head? ≠ some '\uFEFF') (hcode : hasNoCode read = false)
    (identifier : Text) : dropMarks (insertTag read identifier) = insertTag read identifier := by
  obtain ⟨before, behind, hcut, -, -, -, hinsert⟩ := exists_insertTag_eq hcode identifier
  refine dropMarks_of_head? ?_
  rw [hinsert]
  cases before with
  | nil => exact fun h => absurd (Option.some.inj h) (by decide)
  | cons c before =>
    rw [← codeOf_append_commentOf read, hcut] at hread
    exact hread

/-- Behind byte order marks no bracket is searched for. -/
theorem beforeChoiceBracket?_marked (code : Text) : beforeChoiceBracket? ('\uFEFF' :: code) = none := by
  have hzero : marksLength isChoiceMark ('\uFEFF' :: code) = 0 := marksLength_cons_of_not (by decide) (by decide) _
  unfold beforeChoiceBracket?
  rw [hzero]
  rfl

/-- A line is byte order marks and what is read of it. -/
theorem exists_marks_append (line : Text) : ∃ marks read, line = marks ++ read ∧ (∀ c ∈ marks, c = '\uFEFF') ∧
    read.head? ≠ some '\uFEFF' ∧ dropMarks line = read := by
  refine ⟨line.takeWhile (· == '\uFEFF'), dropMarks line, List.takeWhile_append_dropWhile.symm, fun c hc => ?_, ?_, rfl⟩
  · have htest : (c == '\uFEFF') = true := List.mem_takeWhile_imp (p := (· == '\uFEFF')) hc
    exact eq_of_beq htest
  · intro hhead
    have hstop := List.head?_dropWhile_not (· == '\uFEFF') line
    rw [show (line.dropWhile (· == '\uFEFF')).head? = some '\uFEFF' from hhead] at hstop
    exact absurd hstop (by decide)

theorem isPlain_of_mark {c : Char} (hc : c = '\uFEFF') : IsPlain c := by
  rw [hc]
  exact ⟨by decide, by decide, by decide⟩

theorem placed_insertTag_marked (hword : IsWord identifier) {marks read : Text}
    (hmarks : ∀ c ∈ '\uFEFF' :: marks, c = '\uFEFF') (hread : read.head? ≠ some '\uFEFF') (hcode : hasNoCode read = false) :
    Placed identifier (bracketOf ('\uFEFF' :: marks ++ read)) (strip (codeOf read))
      (strip (codeOf (dropMarks (insertTag ('\uFEFF' :: marks ++ read) identifier)))) := by
  have hplain : ∀ c ∈ '\uFEFF' :: marks, IsPlain c := fun c hc => isPlain_of_mark (hmarks c hc)
  have hline := codeOf_append_of_isPlain hplain read
  have hnone : beforeChoiceBracket? (codeOf ('\uFEFF' :: marks ++ read)) = none := by
    rw [hline]
    exact beforeChoiceBracket?_marked _
  have hsome : hasNoCode ('\uFEFF' :: marks ++ read) = false := by
    rw [hasNoCode, hline]
    exact isBlankText_false_of_mem List.mem_cons_self (by decide)
  obtain ⟨before, behind, hcut, -, -, hlength, hinsert⟩ := exists_insertTag_eq hsome identifier
  obtain ⟨w, hw, hcore⟩ := exists_blanks_stripEnd (codeOf read)
  rw [tagColumn, hnone, Option.getD_none, hline, stripEnd_append hcode] at hlength
  have hcuts : before ++ behind = ('\uFEFF' :: marks ++ stripEnd (codeOf read)) ++ w := by
    rw [← hcut, hline, List.append_assoc, ← hcore]
  obtain ⟨rfl, rfl⟩ := List.append_inj hcuts hlength
  have hbehind : StartsIn FollowsTag behind := by
    cases behind with
    | nil => exact startsIn_nil
    | cons c behind => exact startsIn_cons.2 (.inl (hw c List.mem_cons_self))
  have hnew : dropMarks (insertTag ('\uFEFF' :: marks ++ read) identifier) =
      stripEnd (codeOf read) ++ (' ' :: formatTag identifier ++ behind ++ commentOf read) := by
    rw [hinsert, commentOf_append_of_isPlain hplain, List.append_assoc, dropMarks_append hmarks, dropMarks_of_head?]
    rcases hstart : stripEnd (codeOf read) with _ | ⟨c, r⟩
    · exact fun h => absurd (Option.some.inj h) (by decide)
    · rw [← codeOf_append_commentOf read, hcore, hstart] at hread
      exact hread
  have hcode' : codeOf (stripEnd (codeOf read) ++ (' ' :: formatTag identifier ++ behind ++ commentOf read)) =
      stripEnd (codeOf read) ++ (' ' :: formatTag identifier ++ behind) := by
    rw [codeOf, ofLine_of_cut hcore hbehind hword]
  rw [bracketOf, hnone, Option.map_none, hnew, hcode']
  exact placed_atEnd hword hcode hw hcore

/-- The marks at the start of a file hide the choice marks of its first line from the search. -/
theorem placed_insertTag_dropMarks (hword : IsWord identifier) {line : Text}
    (hcode : hasNoCode (dropMarks line) = false) :
    Placed identifier (bracketOf line) (strip (codeOf (dropMarks line)))
      (strip (codeOf (dropMarks (insertTag line identifier)))) := by
  obtain ⟨marks, read, rfl, hmarks, hread, hdrop⟩ := exists_marks_append line
  rw [hdrop] at hcode ⊢
  cases marks with
  | nil =>
    rw [List.nil_append, dropMarks_insertTag hread hcode]
    exact placed_insertTag hword hcode
  | cons m marks =>
    obtain rfl := hmarks m List.mem_cons_self
    exact placed_insertTag_marked hword hmarks hread hcode

/-! ### Two outcomes -/

/-- Whether a line stays what it was when its tag is put before the bracket, or at the end of its code if there is none. -/
def Fits (state : BracketState) (code body : Text) : Option Text → Prop
  | none => isStub code = false ∧ ∀ ps state', ¬Reads state body ps state' ['\\']
  | some behind => ∃ ps, Reads state body ps .opened behind

variable {bracket : Option Text} {old new body : Text} {role : Role} {state : BracketState} {ps : List Piece}

theorem fits_atEnd (hstub : isStub old = false) (hlast : body.getLast? ≠ some '\\') : Fits state old body none := by
  refine ⟨hstub, fun qs state' h => ?_⟩
  obtain ⟨s, rfl, -⟩ := endsPending_of_reads h rfl
  exact hlast List.getLast?_concat

/-- The narrative part of a choice up to the place before its bracket, whatever stands there. -/
theorem exists_narrative?_bracket {c : Char} {p q w : Text} (hc : isChoiceMark c) (hq : EndsDark ('[' :: q))
    (hescape : w = [] → endsPending false q = false) :
    ∃ b, EndsDark b ∧ (w = [] → endsPending false b = false) ∧
      ∀ x, (ofCode (c :: p ++ '[' :: q ++ x)).narrative? = some (.choice, .awaited, b ++ x) := by
  obtain ⟨p', hp'⟩ := exists_ofCode_bracket hc p
  refine ⟨p' ++ '[' :: q, (endsDark_append (List.cons_ne_nil _ _)).2 hq, fun hnil => ?_, fun x => ?_⟩
  · rw [endsPending_append, endsPending_cons_of_ne (by decide), hescape hnil]
  · rw [List.append_assoc, List.cons_append (a := '['), hp', List.append_assoc]
    rfl

/-- A line with its tag: it fits and has this one tag more, or it does not and says something else. -/
theorem Placed.cases (hplaced : Placed identifier bracket old new) (hid : isIdentifier identifier)
    (hform : (ofCode old).narrative? = some (role, state, body)) (hbody : body ≠ []) (hold : piecesOf state body = .ok ps)
    (hfree : ∀ s, .tag s ∈ ps → Candidate.identifierOfTag? s = none) :
    (Fits state old body bracket ∧ ∃ body' ps', (ofCode new).narrative? = some (role, state, body') ∧
      piecesOf state body' = .ok ps' ∧ TagAdded (tagText identifier) ps ps') ∨
    (¬Fits state old body bracket ∧ ∀ body' ps', (ofCode new).narrative? = some (role, state, body') →
      piecesOf state body' = .ok ps' → Differ (tagText identifier) ps ps') := by
  cases hplaced with
  | atEnd hne hdark =>
    have hend := endsDark_of_narrative? hdark hform hbody
    cases hstub : isStub old with
    | true =>
      refine .inr ⟨fun hfits => ?_, fun body' ps' hnew => ?_⟩
      · rw [hfits.1] at hstub
        cases hstub
      · have hnone := narrative?_append_of_isStub (u := tagText identifier) hdark hstub
        rw [formatTag_eq, hnone] at hnew
        cases hnew
    | false =>
      have hnew := narrative?_append (u := tagText identifier) hdark hform hbody hstub
      by_cases hlone : ∃ qs state', Reads state body qs state' ['\\']
      · obtain ⟨qs, state', hlone⟩ := hlone
        refine .inr ⟨fun hfits => hfits.2 qs state' hlone, fun body' ps' hnew' hread => ?_⟩
        obtain ⟨-, heq⟩ := Prod.mk.inj (Option.some.inj (hnew.symm.trans hnew'))
        obtain rfl := (Prod.mk.inj heq).2
        exact differ_end hend hold hlone hread
      · have hlone : ∀ qs state', ¬Reads state body qs state' ['\\'] := fun qs state' h => hlone ⟨qs, state', h⟩
        obtain ⟨ps', hread, hadded⟩ := tagAdded_end (isWord_of_isIdentifier hid) hend hold hlone
        exact .inl ⟨⟨hstub, hlone⟩, _, ps', hnew, hread, hadded⟩
  | @beforeBracket c p q w y hc hq hw hescape =>
    obtain ⟨b, hend, hpending, hcode⟩ := exists_narrative?_bracket (p := p) hc hq hescape
    rw [hcode] at hform
    obtain ⟨rfl, heq⟩ := Prod.mk.inj (Option.some.inj hform)
    obtain ⟨rfl, rfl⟩ := Prod.mk.inj heq
    have hnew := hcode (' ' :: formatTag identifier ++ (w ++ ']' :: y))
    obtain ⟨hfits, ps', hread, hadded⟩ | ⟨hnot, hdiffer⟩ := tagged_bracket hid hend hw hpending hold hfree
    · exact .inl ⟨hfits, _, ps', hnew, hread, hadded⟩
    · refine .inr ⟨fun ⟨qs, hqs⟩ => hnot qs hqs, fun body' ps' hnew' hread => ?_⟩
      obtain ⟨-, heq⟩ := Prod.mk.inj (Option.some.inj (hnew.symm.trans hnew'))
      obtain rfl := (Prod.mk.inj heq).2
      exact hdiffer ps' hread

end LineTags
