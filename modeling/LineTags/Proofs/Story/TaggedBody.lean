import LineTags.Proofs.Story.Continuation
import LineTags.Proofs.Story.Outline

/-!
# A tag in the narrative part of a line

At the end of a line the added tag is read as a tag, unless a lone backslash stands there: it then takes the space in front of the tag with it and is gone. Before a closing bracket the added tag ends at this bracket exactly if the reader closes the bracketed part there. If the reader does not, the bracket is in an interpolation, which the tag makes longer, or in a tag, which is cut in two, or it is plain text, and this text becomes part of the added tag.
-/

namespace LineTags

open Text

variable {identifier : Text}

/-! ### Reading an added tag -/

theorem goesOnTag_of_ne {state : BracketState} {c : Char} (hhash : c ≠ '#') (hclose : state = .opened → c ≠ ']') :
    goesOnTag state c = true := by
  rw [goesOnTag, bne_iff_ne.2 hhash, Bool.true_and, Bool.not_eq_true', Bool.and_eq_false_iff]
  by_cases hstate : state = .opened
  · exact .inr (beq_false_of_ne (hclose hstate))
  · exact .inl (beq_false_of_ne hstate)

theorem not_isBlank_of_isIdentifierChar {c : Char} (hc : isIdentifierChar c) : isBlank c = false := by
  by_contra hblank
  have := (EndsTag.of_isBlank (Bool.of_not_eq_false hblank)).1
  rw [hc] at this
  exact Bool.noConfusion this

/-- The characters of a tag are visible and none of those that end a tag or open something. -/
theorem tagText_chars (hword : IsWord identifier) {c : Char} (hc : c ∈ tagText identifier) :
    isBlank c = false ∧ c ≠ '#' ∧ c ≠ ']' ∧ c ≠ '\x7b' ∧ c ≠ '\x7d' := by
  simp only [tagText, List.mem_cons] at hc
  rcases hc with rfl | rfl | rfl | hc
  · decide
  · decide
  · decide
  · have hchar := hword c hc
    refine ⟨not_isBlank_of_isIdentifierChar hchar, ?_, ?_, ?_, ?_⟩
    all_goals exact ne_of_isIdentifierChar hchar (by decide)

theorem blank_chars {c : Char} (hc : isBlank c) :
    c ≠ '\\' ∧ c ≠ '\x7b' ∧ c ≠ '\x7d' ∧ c ≠ '#' ∧ c ≠ '-' ∧ c ≠ '[' ∧ c ≠ ']' := by
  refine ⟨?_, ?_, ?_, ?_, ?_, ?_, ?_⟩
  all_goals
    rintro rfl
    exact absurd hc (by decide)

theorem goesOnTag_of_isBlank {state : BracketState} {c : Char} (hc : isBlank c) : goesOnTag state c = true := by
  obtain ⟨-, -, -, hhash, -, -, hclose⟩ := blank_chars hc
  exact goesOnTag_of_ne hhash fun _ => hclose

theorem goesOnTag_tagText (hword : IsWord identifier) {state : BracketState} :
    ∀ c ∈ tagText identifier, goesOnTag state c = true := by
  intro c hc
  obtain ⟨-, hhash, hclose, -⟩ := tagText_chars hword hc
  exact goesOnTag_of_ne hhash fun _ => hclose

theorem strip_of_forall_dark {t : Text} (ht : ∀ c ∈ t, isBlank c = false) : strip t = t := by
  have hstart : stripStart t = t := by
    cases t with
    | nil => rfl
    | cons c t =>
      refine List.dropWhile_cons_of_neg ?_
      rw [ht c List.mem_cons_self]
      decide
  rw [strip, hstart, stripEnd_of_endsDark]
  intro c hc
  rw [ht c (List.mem_of_getLast? hc)]
  decide

theorem strip_tagText (hword : IsWord identifier) : strip (tagText identifier) = tagText identifier :=
  strip_of_forall_dark fun _ hc => (tagText_chars hword hc).1

theorem reads_blanks (state : BracketState) {w : Text} (hw : ∀ c ∈ w, isBlank c) (r : Text) :
    Reads state (w ++ r) (w.map .char) state r := by
  induction w with
  | nil => exact .stop _ _
  | cons c w ih =>
    obtain ⟨hescape, hbrace, -, hhash, hminus, hopen, hclose⟩ := blank_chars (hw c List.mem_cons_self)
    refine .piece ?_ (ih fun d hd => hw d (List.mem_cons_of_mem _ hd))
    rw [List.cons_append, nextPiece?_other state (fun h => absurd h hescape) hbrace hhash (fun h => absurd h hminus),
      if_neg fun h => hopen h.1, if_neg fun h => hclose h.1]

theorem nextPiece?_tag {state : BracketState} {body r : Text} (hbody : ∀ c ∈ body, goesOnTag state c = true)
    (hr : StartsIn (goesOnTag state · = false) r) :
    nextPiece? state ('#' :: body ++ r) = some (.tag (strip body), state, r) := by
  have htake : (body ++ r).takeWhile (goesOnTag state) = body := by
    rw [takeWhile_append _ hr, List.takeWhile_eq_self_iff.2 hbody]
  have hdrop : (body ++ r).dropWhile (goesOnTag state) = r := by
    rw [dropWhile_append _ hr, List.dropWhile_eq_nil_iff.2 hbody, List.nil_append]
  rw [List.cons_append, nextPiece?, htake, hdrop]

/-- A tag read up to some text `z` in which nothing ends it. -/
theorem nextPiece?_tag_append {state : BracketState} {body r : Text} (hbody : ∀ c ∈ body, goesOnTag state c = true)
    (z : Text) (hz : ∀ c ∈ z, goesOnTag state c = true) (hr : StartsIn (goesOnTag state · = false) r) :
    nextPiece? state ('#' :: body ++ (z ++ r)) = some (.tag (strip (body ++ z)), state, r) := by
  have hall : ∀ c ∈ body ++ z, goesOnTag state c = true := by
    intro c hc
    rcases List.mem_append.1 hc with hc | hc
    · exact hbody c hc
    · exact hz c hc
  have := nextPiece?_tag hall hr
  rwa [List.cons_append, List.append_assoc] at this

theorem startsIn_hash {state : BracketState} (r : Text) : StartsIn (goesOnTag state · = false) ('#' :: r) :=
  startsIn_cons.2 (by rw [goesOnTag]; rfl)

/-- The added tag is one piece where the text behind its blanks ends it. -/
theorem nextPiece?_formatTag (hword : IsWord identifier) {state : BracketState} {w r : Text}
    (hw : ∀ c ∈ w, isBlank c) (hr : StartsIn (goesOnTag state · = false) r) :
    nextPiece? state (formatTag identifier ++ (w ++ r)) = some (.tag (tagText identifier), state, r) := by
  rw [formatTag_eq, nextPiece?_tag_append (goesOnTag_tagText hword) w (fun c hc => goesOnTag_of_isBlank (hw c hc)) hr,
    strip_append_blanks _ hw, strip_tagText hword]

variable {w r : Text}

theorem reads_spacedTag (state : BracketState) (hword : IsWord identifier) (hw : ∀ c ∈ w, isBlank c)
    (hr : StartsIn (goesOnTag state · = false) r) :
    Reads state (' ' :: formatTag identifier ++ (w ++ r)) [.char ' ', .tag (tagText identifier)] state r := by
  have hspace : Reads state ([' '] ++ (formatTag identifier ++ (w ++ r))) ([' '].map .char) state _ :=
    reads_blanks state (List.forall_mem_singleton.2 (by decide)) _
  exact hspace.append (.single (nextPiece?_formatTag hword hw hr))

/-- A backslash makes no difference to the space behind it. -/
theorem reads_escapedTag (state : BracketState) (hword : IsWord identifier) (hw : ∀ c ∈ w, isBlank c)
    (hr : StartsIn (goesOnTag state · = false) r) :
    Reads state ('\\' :: (' ' :: formatTag identifier ++ (w ++ r))) [.char ' ', .tag (tagText identifier)] state r :=
  .piece rfl (.single (nextPiece?_formatTag hword hw hr))

theorem reads_tag_spacedTag (state : BracketState) (hword : IsWord identifier) (hw : ∀ c ∈ w, isBlank c)
    (hr : StartsIn (goesOnTag state · = false) r) {body : Text} (hbody : ∀ c ∈ body, goesOnTag state c = true) :
    Reads state ('#' :: body ++ (' ' :: formatTag identifier ++ (w ++ r)))
      [.tag (strip body), .tag (tagText identifier)] state r := by
  have hspace : ∀ c ∈ [' '], goesOnTag state c = true := fun c hc => by
    rw [List.mem_singleton.1 hc]
    exact goesOnTag_of_isBlank (by decide)
  have hbehind : StartsIn (goesOnTag state · = false) (formatTag identifier ++ (w ++ r)) := startsIn_hash _
  have hfirst := nextPiece?_tag_append hbody [' '] hspace hbehind
  rw [strip_append_blanks body (List.forall_mem_singleton.2 (by decide))] at hfirst
  exact .piece hfirst (.single (nextPiece?_formatTag hword hw hr))

theorem stops_spacedTag (identifier behind : Text) : Stops (' ' :: formatTag identifier ++ behind) := by
  have := stops_blanks_append (w := [' ']) (List.forall_mem_singleton.2 (by decide)) (c := '#') (by decide) (by decide +kernel)
    (fun h => absurd h (List.cons_ne_nil _ _)) (tagText identifier ++ behind)
  exact this

theorem stops_bracket (hw : ∀ c ∈ w, isBlank c) (y : Text) : Stops (w ++ ']' :: y) :=
  stops_blanks_append hw (by decide) (by decide +kernel) (fun _ => .inr rfl) y

variable {state : BracketState}

/-! ### At the end of a line -/

theorem piecesOf_eq_error_of_openBrace {s : Text} (hs : cutAtBrace? 0 s = none) :
    piecesOf state ('\x7b' :: s) = .error .openBrace := by
  rw [piecesOf_cons, nextPiece?, hs]
  rfl

/-- Behind the end of a line that reads nothing is left, and no bracket is open. -/
theorem eq_of_reads_nil {t : Text} {old ps : List Piece} {state' : BracketState} (hold : piecesOf state t = .ok old)
    (h : Reads state t ps state' []) : old = ps ∧ state' ≠ .opened := by
  obtain ⟨behind, hbehind, rfl⟩ := h.split hold
  rw [piecesOf_nil] at hbehind
  split at hbehind
  · cases hbehind
  · next hstate =>
    obtain rfl := Except.ok.inj hbehind
    exact ⟨List.append_nil _, hstate⟩

theorem tagAdded_end (hword : IsWord identifier) {b : Text} (hb : EndsDark b) {old : List Piece}
    (hold : piecesOf state b = .ok old) (hlone : ∀ ps state', ¬Reads state b ps state' ['\\']) :
    ∃ new, piecesOf state (b ++ ' ' :: formatTag identifier) = .ok new ∧ TagAdded (tagText identifier) old new := by
  have hstops : Stops (' ' :: formatTag identifier) := by
    have := stops_spacedTag identifier []
    rwa [List.append_nil] at this
  have hnone : ∀ {state' : BracketState}, StartsIn (goesOnTag state' · = false) [] := startsIn_nil
  cases exists_arrival state hb with
  | between ps state' reads =>
    have hreads := reads [] stops_nil
    rw [List.append_nil] at hreads
    obtain ⟨rfl, hstate⟩ := eq_of_reads_nil hold hreads
    have htag : Reads state' (' ' :: formatTag identifier) [.char ' ', .tag (tagText identifier)] state' [] := by
      have := reads_spacedTag state' hword (w := []) (by simp) hnone
      rwa [List.append_nil, List.append_nil] at this
    refine ⟨_, piecesOf_eq_ok_iff.2 ⟨state', (reads _ hstops).append htag, hstate⟩, ?_⟩
    exact ⟨old, [], [], [' '], rfl, by decide, by simp, by simp, by simp⟩
  | escaping ps state' reads =>
    have hreads := reads [] stops_nil
    rw [List.append_nil] at hreads
    exact absurd hreads (hlone ps state')
  | inTag ps state' body goesOn reads =>
    have hreads := reads [] stops_nil
    rw [List.append_nil] at hreads
    have hlast := hreads.append (.single (nextPiece?_tag goesOn hnone))
    obtain ⟨rfl, hstate⟩ := eq_of_reads_nil hold hlast
    have htag : Reads state' ('#' :: body ++ ' ' :: formatTag identifier)
        [.tag (strip body), .tag (tagText identifier)] state' [] := by
      have := reads_tag_spacedTag state' hword (w := []) (by simp) hnone goesOn
      rwa [List.append_nil, List.append_nil] at this
    refine ⟨_, piecesOf_eq_ok_iff.2 ⟨state', (reads _ hstops).append htag, hstate⟩, ?_⟩
    exact ⟨ps ++ [.tag (strip body)], [], [], [], rfl, rfl, by simp, by simp, by simp⟩
  | inBraces ps state' s opened reads =>
    have hreads := reads [] stops_nil
    rw [List.append_nil, List.append_nil] at hreads
    obtain ⟨behind, hbehind, -⟩ := hreads.split hold
    rw [piecesOf_eq_error_of_openBrace opened] at hbehind
    cases hbehind

/-- The visible characters of a line. -/
def visible : Weights where
  char c := if isBlank c then 0 else 1
  interpolation _ := 0
  tag _ := 0
  blank _ hc := if_pos hc

theorem visible_of_forall_tag {ps : List Piece} (hps : ∀ p ∈ ps, ∃ t, p = .tag t) : visible.ofPieces ps = 0 := by
  induction ps with
  | nil => rfl
  | cons p ps ih =>
    obtain ⟨t, rfl⟩ := hps p List.mem_cons_self
    rw [Weights.ofPieces_cons, ih fun q hq => hps q (List.mem_cons_of_mem _ hq)]
    rfl

/-- Outside an open bracket nothing behind the added tag is read as text. -/
theorem visible_formatTag {v : Text} (hstate : state ≠ .opened) {ps : List Piece}
    (h : piecesOf state (formatTag identifier ++ v) = .ok ps) : visible.ofPieces ps = 0 := by
  obtain ⟨state', hreads, -⟩ := piecesOf_eq_ok_iff.1 h
  exact visible_of_forall_tag (forall_tag_of_reads hreads hstate rfl)

/-- A backslash with nothing behind it is plain text. -/
theorem reads_backslash (state : BracketState) : Reads state ['\\'] [.char '\\'] state [] := by
  refine .single ?_
  rw [nextPiece?_other state (fun _ => rfl) (by decide) (by decide) (by decide), if_neg (by simp), if_neg (by simp)]

theorem differ_end {b : Text} (hb : EndsDark b) {old new ps : List Piece} {state' : BracketState}
    (hold : piecesOf state b = .ok old) (hlone : Reads state b ps state' ['\\'])
    (hnew : piecesOf state (b ++ ' ' :: formatTag identifier) = .ok new) : Differ (tagText identifier) old new := by
  obtain ⟨rfl, hstate⟩ := eq_of_reads_nil hold (hlone.append (reads_backslash state'))
  have hstops : Stops (' ' :: formatTag identifier) := by
    have := stops_spacedTag identifier []
    rwa [List.append_nil] at this
  have hspace : Reads state (b ++ ' ' :: formatTag identifier) (ps ++ [.char ' ']) state' (formatTag identifier) :=
    (hlone.append_stops hb (List.cons_ne_nil _ _) hstops).append (.single rfl)
  obtain ⟨behind, hbehind, rfl⟩ := hspace.split hnew
  rw [← List.append_nil (formatTag identifier)] at hbehind
  refine ⟨visible, rfl, ?_⟩
  rw [Weights.ofPieces_append, Weights.ofPieces_append, Weights.ofPieces_append, visible_formatTag hstate hbehind]
  show visible.ofPieces ps + 1 ≠ visible.ofPieces ps + 0 + 0
  omega

/-! ### Before a closing bracket -/

theorem cutAtBrace?_of_none {depth : Nat} {s : Text} (hs : cutAtBrace? depth s = none) :
    ∃ depth', ∀ x, cutAtBrace? depth (s ++ x) = (cutAtBrace? depth' x).map fun (a, r) => (s ++ a, r) := by
  fun_induction cutAtBrace? depth s with
  | case1 depth => exact ⟨depth, fun x => by simp⟩
  | case2 depth s ih =>
    obtain ⟨depth', h⟩ := ih (Option.map_eq_none_iff.1 hs)
    refine ⟨depth', fun x => ?_⟩
    rw [List.cons_append, cutAtBrace?, h, Option.map_map]
    rfl
  | case3 s => cases hs
  | case4 s depth ih =>
    obtain ⟨depth', h⟩ := ih (Option.map_eq_none_iff.1 hs)
    refine ⟨depth', fun x => ?_⟩
    rw [List.cons_append, cutAtBrace?, h]
    dsimp only
    rw [Option.map_map]
    rfl
  | case5 depth c s hopen hclose ih =>
    obtain ⟨depth', h⟩ := ih (Option.map_eq_none_iff.1 hs)
    refine ⟨depth', fun x => ?_⟩
    rw [List.cons_append, cutAtBrace?, h, Option.map_map]
    · rfl
    · exact hopen
    · exact hclose

theorem cutAtBrace?_append_of_ne {s : Text} (hs : ∀ c ∈ s, c ≠ '\x7b' ∧ c ≠ '\x7d') (depth : Nat) (x : Text) :
    cutAtBrace? depth (s ++ x) = (cutAtBrace? depth x).map fun (a, r) => (s ++ a, r) := by
  induction s with
  | nil => simp
  | cons c s ih =>
    obtain ⟨hopen, hclose⟩ := hs c List.mem_cons_self
    rw [List.cons_append, cutAtBrace?, ih fun d hd => hs d (List.mem_cons_of_mem _ hd), Option.map_map]
    · rfl
    · exact hopen
    · exact hclose

theorem spacedTag_no_braces (hword : IsWord identifier) :
    ∀ c ∈ ' ' :: formatTag identifier, c ≠ '\x7b' ∧ c ≠ '\x7d' := by
  intro c hc
  rw [formatTag_eq] at hc
  rcases List.mem_cons.1 hc with rfl | hc
  · decide
  rcases List.mem_cons.1 hc with rfl | hc
  · decide
  · obtain ⟨-, -, -, hbraces⟩ := tagText_chars hword hc
    exact hbraces

/-- The total length of the interpolations of a line. -/
def interpolated : Weights where
  char _ := 0
  interpolation body := body.length
  tag _ := 0
  blank _ _ := rfl

/-- The number of tags of a line, one of which does not count. -/
def tagsExcept (t : Text) : Weights where
  char _ := 0
  interpolation _ := 0
  tag s := if s = t then 0 else 1
  blank _ _ := rfl

theorem nextPiece?_bracket (hstate : state ≠ .opened) (y : Text) :
    nextPiece? state (']' :: y) = some (.char ']', state, y) := by
  rw [nextPiece?_other state (fun h => absurd h (by decide)) (by decide) (by decide) (fun h => absurd h (by decide)),
    if_neg (fun h => absurd h.1 (by decide)), if_neg fun h => hstate h.2]

theorem mem_strip {c : Char} {t : Text} (hc : c ∈ t) (hdark : isBlank c = false) : c ∈ strip t := by
  obtain ⟨w, hw, hend⟩ := exists_blanks_stripEnd (stripStart t)
  have hstart : t = t.takeWhile isBlank ++ (stripEnd (stripStart t) ++ w) := by
    rw [← hend]
    exact List.takeWhile_append_dropWhile.symm
  have hnot : ∀ {u : Text}, (∀ d ∈ u, isBlank d) → c ∉ u := by
    intro u hu hmem
    have hblank := hu c hmem
    rw [hdark] at hblank
    exact Bool.noConfusion hblank
  rw [hstart, List.mem_append, List.mem_append] at hc
  rcases hc with hc | hc | hc
  · exact absurd hc (hnot fun d hd => List.mem_takeWhile_imp hd)
  · exact hc
  · exact absurd hc (hnot hw)

theorem identifierOfTag?_append (hid : isIdentifier identifier) {q : Text} (hq : StartsIn EndsTag q) :
    Candidate.identifierOfTag? (tagText identifier ++ q) = some identifier := by
  have hstart := tagAtStart?_formatTag hid hq
  rw [formatTag_eq, List.cons_append] at hstart
  rw [Candidate.identifierOfTag?, firstTag?, findTags, tagsFrom, hstart]
  rfl

/-- A tag that would be the added one but for a bracket and what is behind it. -/
theorem identifierOfTag?_of_strip (hid : isIdentifier identifier) {body z : Text} (hbody : strip body = tagText identifier)
    (hw : ∀ c ∈ w, isBlank c) : Candidate.identifierOfTag? (strip (body ++ (w ++ ']' :: z))) = some identifier := by
  have hblank : isBlankText body = false := by
    by_contra hblank
    have hnil : strip body = [] := by
      rw [strip, stripStart_of_isBlankText (Bool.of_not_eq_false hblank)]
      rfl
    rw [hbody] at hnil
    cases hnil
  obtain ⟨u, hu, hcore⟩ := exists_blanks_stripEnd (stripStart body)
  have hcore : stripStart body = tagText identifier ++ u := by
    rw [← hbody]
    exact hcore
  have hend : strip (body ++ (w ++ ']' :: z)) = tagText identifier ++ (u ++ w ++ stripEnd (']' :: z)) := by
    obtain ⟨v, hv, hz⟩ := exists_blanks_stripEnd (']' :: z)
    have hne : stripEnd (']' :: z) ≠ [] := by
      intro hnil
      have hbracket := isBlankText_iff.1 (stripEnd_eq_nil_iff.1 hnil) ']' List.mem_cons_self
      exact absurd hbracket (by decide)
    have hsplit : stripStart body ++ (w ++ ']' :: z) =
        (tagText identifier ++ (u ++ w ++ stripEnd (']' :: z))) ++ v := by
      conv => lhs; rw [hcore, hz]
      simp only [List.append_assoc]
    rw [strip, stripStart_append hblank, hsplit, stripEnd_append_blanks hv, stripEnd_of_endsDark]
    rw [← List.append_assoc, endsDark_append hne]
    exact stripEnd_endsDark _
  have hstarts : StartsIn EndsTag (u ++ w ++ stripEnd (']' :: z)) := by
    have hblanks : ∀ c ∈ u ++ w, isBlank c := by
      intro c hc
      rcases List.mem_append.1 hc with hc | hc
      · exact hu c hc
      · exact hw c hc
    cases huw : u ++ w with
    | nil =>
      rw [List.nil_append]
      intro c hc
      obtain ⟨v, -, hz⟩ := exists_blanks_stripEnd (']' :: z)
      obtain ⟨q, hq⟩ := List.head?_eq_some_iff.1 hc
      rw [hq, List.cons_append] at hz
      rw [← (List.cons.inj hz).1]
      exact FollowsTag.endsTag (.inr rfl)
    | cons c q =>
      refine startsIn_cons.2 (EndsTag.of_isBlank (hblanks c ?_))
      rw [huw]
      exact List.mem_cons_self
  rw [hend]
  exact identifierOfTag?_append hid hstarts

variable {y told tnew : Text} {old new ps : List Piece} {state' : BracketState}

theorem tagAdded_bracket {t : Text} (ps : List Piece) {w v : Text} (hw : isBlankText w) (hv : isBlankText v)
    (hold : piecesOf state told = .ok old)
    (h : Reads state told (ps ++ w.map .char) .opened (']' :: y))
    (h' : Reads state tnew (ps ++ v.map .char ++ [.tag t]) .opened (']' :: y)) :
    ∃ new, piecesOf state tnew = .ok new ∧ TagAdded t old new := by
  obtain ⟨qs, hqs, rfl⟩ := h.split hold
  refine ⟨ps ++ v.map .char ++ [.tag t] ++ qs, ?_, ps, qs, w, v, hw, hv, ?_, rfl, ?_⟩
  · rw [piecesOf_of_reads h', hqs]
    rfl
  · have hclose : Reads .opened (']' :: y) [.bracket] .closed y := .single rfl
    obtain ⟨rest, -, rfl⟩ := hclose.split hqs
    rintro q hq
    exact (Option.some.inj hq).symm
  · rw [List.append_assoc]
    rfl

/-- The bracket is plain text, and the added tag takes it. -/
theorem differ_plain (hstate : state' ≠ .opened) (hold : piecesOf state told = .ok old) (hnew : piecesOf state tnew = .ok new)
    (h : Reads state told (ps ++ w.map .char) state' (']' :: y)) {v : Text}
    (h' : Reads state tnew (ps ++ [.char ' ']) state' (formatTag identifier ++ v)) : Differ (tagText identifier) old new := by
  obtain ⟨rest, -, rfl⟩ := (h.append (.single (nextPiece?_bracket hstate y))).split hold
  obtain ⟨behind, hbehind, rfl⟩ := h'.split hnew
  refine ⟨visible, rfl, ?_⟩
  simp only [Weights.ofPieces_append, visible_formatTag hstate hbehind]
  show visible.ofPieces ps + _ + 1 + _ ≠ visible.ofPieces ps + 0 + 0
  omega

/-- Where a tag is open the bracket belongs to it, up to where the tag ends. -/
theorem exists_tag_bracket (hw : ∀ c ∈ w, isBlank c) (hstate : state' ≠ .opened) (y : Text) :
    ∃ z r, w ++ ']' :: y = w ++ ']' :: z ++ r ∧ r.length < (']' :: y).length ∧
      (∀ c ∈ w ++ ']' :: z, goesOnTag state' c = true) ∧ StartsIn (goesOnTag state' · = false) r := by
  refine ⟨y.takeWhile (goesOnTag state'), y.dropWhile (goesOnTag state'), ?_, ?_, ?_, ?_⟩
  · rw [List.append_assoc, List.cons_append, List.takeWhile_append_dropWhile]
  · have := length_dropWhile_le (goesOnTag state') y
    rw [List.length_cons]
    omega
  · intro c hc
    rcases List.mem_append.1 hc with hc | hc
    · exact goesOnTag_of_isBlank (hw c hc)
    rcases List.mem_cons.1 hc with rfl | hc
    · exact goesOnTag_of_ne (by decide) fun h => absurd h hstate
    · exact List.mem_takeWhile_imp hc
  · exact startsIn_dropWhile (goesOnTag state') y

/-- The bracket is in a tag, and the added tag is behind that tag. -/
theorem differ_inTag (hid : isIdentifier identifier) (hw : ∀ c ∈ w, isBlank c) (hstate : state' ≠ .opened) {body : Text}
    (hbody : ∀ c ∈ body, goesOnTag state' c = true) (hold : piecesOf state told = .ok old)
    (hfree : ∀ s, .tag s ∈ old → Candidate.identifierOfTag? s = none)
    (h : Reads state told ps state' ('#' :: body ++ (w ++ ']' :: y)))
    (h' : Reads state tnew ps state' ('#' :: body ++ (' ' :: formatTag identifier ++ (w ++ ']' :: y)))) :
    (∀ qs state'', ¬Reads state told qs state'' (']' :: y)) ∧
      ∀ new, piecesOf state tnew = .ok new → Differ (tagText identifier) old new := by
  obtain ⟨z, r, hsplit, hshort, hgoes, hr⟩ := exists_tag_bracket hw hstate y
  have hnext := nextPiece?_tag_append hbody _ hgoes hr
  have hfirst : nextPiece? state' ('#' :: body ++ (' ' :: formatTag identifier ++ (w ++ ']' :: z ++ r))) =
      some (.tag (strip body), state', formatTag identifier ++ (w ++ ']' :: z ++ r)) := by
    have hspace : ∀ c ∈ [' '], goesOnTag state' c = true := fun c hc => by
      rw [List.mem_singleton.1 hc]
      exact goesOnTag_of_isBlank (by decide)
    have := nextPiece?_tag_append hbody [' '] hspace (startsIn_hash (tagText identifier ++ (w ++ ']' :: z ++ r)))
    rwa [strip_append_blanks body (List.forall_mem_singleton.2 (by decide))] at this
  have hsecond := nextPiece?_tag_append (goesOnTag_tagText (isWord_of_isIdentifier hid)) _ hgoes hr
  rw [hsplit] at h h'
  refine ⟨fun qs state'' => ?_, fun new hnew => ?_⟩
  · refine h.not_inside hnext hshort ?_
    have hlength := congrArg List.length hsplit
    simp only [List.length_append, List.length_cons] at hlength ⊢
    omega
  · obtain ⟨rest, hrest, rfl⟩ := (h.append (.single hnext)).split hold
    obtain ⟨behind, hbehind, rfl⟩ := (h'.append (.piece hfirst (.single hsecond))).split hnew
    obtain rfl := Except.ok.inj (hrest.symm.trans hbehind)
    have hnotBody : strip body ≠ tagText identifier := by
      intro heq
      have hnone := hfree (strip (body ++ (w ++ ']' :: z))) (by simp)
      rw [identifierOfTag?_of_strip hid heq hw] at hnone
      cases hnone
    have hnotTag : strip (tagText identifier ++ (w ++ ']' :: z)) ≠ tagText identifier := by
      intro heq
      have hmem : ']' ∈ strip (tagText identifier ++ (w ++ ']' :: z)) := mem_strip (by simp) (by decide)
      rw [heq] at hmem
      obtain ⟨-, -, hclose, -⟩ := tagText_chars (isWord_of_isIdentifier hid) hmem
      exact hclose rfl
    refine ⟨tagsExcept (tagText identifier), if_pos rfl, ?_⟩
    simp only [Weights.ofPieces_append, Weights.ofPieces_cons, Weights.ofPiece, tagsExcept, if_neg hnotBody, if_neg hnotTag]
    show _ + (_ + 0) + _ ≠ _ + (1 + (1 + 0)) + _
    split <;> omega

theorem length_lt_of_brace {x₁ r : Text} (hw : ∀ c ∈ w, isBlank c) (h : w ++ ']' :: y = x₁ ++ '\x7d' :: r) :
    r.length < (']' :: y).length := by
  obtain ⟨a, -, ha⟩ | ⟨a, ha, hr⟩ := List.append_eq_append_iff.1 h
  · rcases a with _ | ⟨d, a⟩
    · cases ha
    · have hlength := congrArg List.length ha
      simp only [List.length_append, List.length_cons] at hlength ⊢
      omega
  · rcases a with _ | ⟨d, a⟩
    · cases hr
    · have hd : d = '\x7d' := (List.cons.inj hr).1.symm
      have hblank := hw d (by rw [ha]; simp)
      rw [hd] at hblank
      exact absurd hblank (by decide)

/-- The bracket is in an interpolation, and so is the added tag. -/
theorem exists_interpolation_bracket (hword : IsWord identifier) {s : Text} (hs : cutAtBrace? 0 s = none)
    (hold : piecesOf state told = .ok old) (h : Reads state told ps state' ('\x7b' :: s ++ (w ++ ']' :: y))) :
    ∃ x r, w ++ ']' :: y = x ++ '\x7d' :: r ∧
      nextPiece? state' ('\x7b' :: s ++ (w ++ ']' :: y)) = some (.interpolation (s ++ x), state', r) ∧
      nextPiece? state' ('\x7b' :: s ++ (' ' :: formatTag identifier ++ (w ++ ']' :: y))) =
        some (.interpolation (s ++ (' ' :: formatTag identifier ++ x)), state', r) := by
  obtain ⟨depth, hdepth⟩ := cutAtBrace?_of_none hs
  have hcutNew : cutAtBrace? 0 (s ++ (' ' :: formatTag identifier ++ (w ++ ']' :: y))) =
      (cutAtBrace? depth (w ++ ']' :: y)).map fun (a, r) => (s ++ (' ' :: formatTag identifier ++ a), r) := by
    rw [hdepth, cutAtBrace?_append_of_ne (spacedTag_no_braces hword), Option.map_map]
    rfl
  cases hcut : cutAtBrace? depth (w ++ ']' :: y) with
  | none =>
    obtain ⟨rest, hrest, -⟩ := h.split hold
    rw [List.cons_append, piecesOf_eq_error_of_openBrace] at hrest
    · cases hrest
    · rw [hdepth, hcut]
      rfl
  | some found =>
    obtain ⟨x, r⟩ := found
    refine ⟨x, r, eq_of_cutAtBrace? hcut, ?_, ?_⟩
    · rw [List.cons_append, nextPiece?, hdepth, hcut]
      rfl
    · rw [List.cons_append, nextPiece?, hcutNew, hcut]
      rfl

theorem differ_inBraces (hword : IsWord identifier) (hw : ∀ c ∈ w, isBlank c) {s : Text}
    (hs : cutAtBrace? 0 s = none) (hold : piecesOf state told = .ok old)
    (h : Reads state told ps state' ('\x7b' :: s ++ (w ++ ']' :: y)))
    (h' : Reads state tnew ps state' ('\x7b' :: s ++ (' ' :: formatTag identifier ++ (w ++ ']' :: y)))) :
    (∀ qs state'', ¬Reads state told qs state'' (']' :: y)) ∧
      ∀ new, piecesOf state tnew = .ok new → Differ (tagText identifier) old new := by
  obtain ⟨x, r, hsplit, hnext, hnext'⟩ := exists_interpolation_bracket hword hs hold h
  refine ⟨fun qs state'' => ?_, fun new hnew => ?_⟩
  · refine h.not_inside hnext (length_lt_of_brace hw hsplit) ?_
    simp only [List.length_append, List.length_cons]
    omega
  · obtain ⟨rest, hrest, rfl⟩ := (h.append (.single hnext)).split hold
    obtain ⟨behind, hbehind, rfl⟩ := (h'.append (.single hnext')).split hnew
    obtain rfl := Except.ok.inj (hrest.symm.trans hbehind)
    refine ⟨interpolated, rfl, ?_⟩
    simp only [Weights.ofPieces_append, Weights.ofPieces_cons, Weights.ofPiece, interpolated, List.length_append,
      List.length_cons]
    omega

section

variable {b : Text} (hword : IsWord identifier) (hw : ∀ c ∈ w, isBlank c)
  (hold : piecesOf state (b ++ (w ++ ']' :: y)) = .ok old)

include hword hw hold

/-- Behind a whole piece the bracketed part is closed with one tag more. -/
theorem tagAdded_between (reads : ∀ x, Stops x → Reads state (b ++ x) ps .opened x) :
    (∃ qs, Reads state (b ++ (w ++ ']' :: y)) qs .opened (']' :: y)) ∧
      ∃ new, piecesOf state (b ++ (' ' :: formatTag identifier ++ (w ++ ']' :: y))) = .ok new ∧
        TagAdded (tagText identifier) old new := by
  have h := (reads _ (stops_bracket hw y)).append (reads_blanks .opened hw (']' :: y))
  have h' := (reads _ (stops_spacedTag identifier (w ++ ']' :: y))).append
    (reads_spacedTag .opened hword hw (startsIn_cons.2 (by decide)))
  refine ⟨⟨_, h⟩, tagAdded_bracket ps (v := [' ']) (isBlankText_iff.2 hw) (by decide) hold h ?_⟩
  simpa using h'

/-- So it is behind a backslash with a blank behind it. -/
theorem tagAdded_escaping (hne : w ≠ []) (reads : ∀ x, Stops x → Reads state (b ++ x) ps .opened ('\\' :: x)) :
    (∃ qs, Reads state (b ++ (w ++ ']' :: y)) qs .opened (']' :: y)) ∧
      ∃ new, piecesOf state (b ++ (' ' :: formatTag identifier ++ (w ++ ']' :: y))) = .ok new ∧
        TagAdded (tagText identifier) old new := by
  obtain ⟨c, v, rfl⟩ := List.exists_cons_of_ne_nil hne
  have hescaped : Reads .opened ('\\' :: (c :: v ++ ']' :: y)) ((c :: v).map .char) .opened (']' :: y) :=
    .piece rfl (reads_blanks .opened (fun d hd => hw d (List.mem_cons_of_mem _ hd)) _)
  have h := (reads _ (stops_bracket hw y)).append hescaped
  have h' := (reads _ (stops_spacedTag identifier (c :: v ++ ']' :: y))).append
    (reads_escapedTag .opened hword hw (startsIn_cons.2 (by decide)))
  refine ⟨⟨_, h⟩, tagAdded_bracket ps (v := [' ']) (isBlankText_iff.2 hw) (by decide) hold h ?_⟩
  simpa using h'

/-- And so it is behind a tag, which ends at the bracket too. -/
theorem tagAdded_inTag {body : Text} (hbody : ∀ c ∈ body, goesOnTag .opened c = true)
    (reads : ∀ x, Stops x → Reads state (b ++ x) ps .opened ('#' :: body ++ x)) :
    (∃ qs, Reads state (b ++ (w ++ ']' :: y)) qs .opened (']' :: y)) ∧
      ∃ new, piecesOf state (b ++ (' ' :: formatTag identifier ++ (w ++ ']' :: y))) = .ok new ∧
        TagAdded (tagText identifier) old new := by
  have hclose : StartsIn (goesOnTag .opened · = false) (']' :: y) := startsIn_cons.2 (by decide)
  have hnext := nextPiece?_tag_append hbody w (fun c hc => goesOnTag_of_isBlank (hw c hc)) hclose
  rw [strip_append_blanks body hw] at hnext
  have h := (reads _ (stops_bracket hw y)).append (.single hnext)
  have h' := (reads _ (stops_spacedTag identifier (w ++ ']' :: y))).append
    (reads_tag_spacedTag .opened hword hw hclose hbody)
  refine ⟨⟨_, h⟩, tagAdded_bracket (ps ++ [.tag (strip body)]) (w := []) (v := []) rfl rfl hold (y := y) ?_ ?_⟩
  · simpa using h
  · simpa using h'

end

/-- The search for the bracket passes over brackets behind a backslash. -/
theorem ne_nil_of_escaping {b : Text} (hescape : w = [] → endsPending false b = false)
    (reads : ∀ x, Stops x → Reads state (b ++ x) ps state' ('\\' :: x)) : w ≠ [] := by
  intro hnil
  have hlone := reads [] stops_nil
  rw [List.append_nil] at hlone
  obtain ⟨s, rfl, hs⟩ := endsPending_of_reads hlone rfl
  have hpending := hescape hnil
  rw [endsPending_append, hs] at hpending
  exact absurd hpending (by decide)

/-- Before a bracket: either the reader closes the bracketed part there and the line has one tag more, or it does not and the line becomes another one. -/
theorem tagged_bracket (hid : isIdentifier identifier) {b : Text} (hb : EndsDark b) (hw : ∀ c ∈ w, isBlank c)
    (hescape : w = [] → endsPending false b = false) (hold : piecesOf state (b ++ (w ++ ']' :: y)) = .ok old)
    (hfree : ∀ s, .tag s ∈ old → Candidate.identifierOfTag? s = none) :
    ((∃ qs, Reads state (b ++ (w ++ ']' :: y)) qs .opened (']' :: y)) ∧
      ∃ new, piecesOf state (b ++ (' ' :: formatTag identifier ++ (w ++ ']' :: y))) = .ok new ∧
        TagAdded (tagText identifier) old new) ∨
    ((∀ qs, ¬Reads state (b ++ (w ++ ']' :: y)) qs .opened (']' :: y)) ∧
      ∀ new, piecesOf state (b ++ (' ' :: formatTag identifier ++ (w ++ ']' :: y))) = .ok new →
        Differ (tagText identifier) old new) := by
  have hword := isWord_of_isIdentifier hid
  have holdStops := stops_bracket hw y
  have hnewStops := stops_spacedTag identifier (w ++ ']' :: y)
  cases exists_arrival state hb with
  | between ps state' reads =>
    by_cases hstate : state' = .opened
    · subst hstate
      exact .inl (tagAdded_between hword hw hold reads)
    · have h := (reads _ holdStops).append (reads_blanks state' hw (']' :: y))
      refine .inr ⟨fun qs hqs => hstate (h.state_eq hqs), fun new hnew => ?_⟩
      exact differ_plain hstate hold hnew h
        ((reads _ hnewStops).append (reads_blanks state' (List.forall_mem_singleton.2 (by decide)) _))
  | escaping ps state' reads =>
    have hne : w ≠ [] := ne_nil_of_escaping hescape reads
    by_cases hstate : state' = .opened
    · subst hstate
      exact .inl (tagAdded_escaping hword hw hold hne reads)
    · obtain ⟨c, v, rfl⟩ := List.exists_cons_of_ne_nil hne
      have h : Reads state (b ++ (c :: v ++ ']' :: y)) (ps ++ (c :: v).map .char) state' (']' :: y) := by
        refine (reads _ holdStops).append (.piece rfl ?_)
        exact reads_blanks state' (fun d hd => hw d (List.mem_cons_of_mem _ hd)) _
      refine .inr ⟨fun qs hqs => hstate (h.state_eq hqs), fun new hnew => ?_⟩
      exact differ_plain hstate hold hnew h ((reads _ hnewStops).append (.single rfl))
  | inTag ps state' body goesOn reads =>
    by_cases hstate : state' = .opened
    · subst hstate
      exact .inl (tagAdded_inTag hword hw hold goesOn reads)
    · obtain ⟨hnot, hdiffer⟩ := differ_inTag hid hw hstate goesOn hold hfree (reads _ holdStops) (reads _ hnewStops)
      exact .inr ⟨fun qs => hnot qs .opened, hdiffer⟩
  | inBraces ps state' s opened reads =>
    obtain ⟨hnot, hdiffer⟩ := differ_inBraces hword hw opened hold (reads _ holdStops) (reads _ hnewStops)
    exact .inr ⟨fun qs => hnot qs .opened, hdiffer⟩

end LineTags
