import LineTags.Proofs.Minting.Agreement
import LineTags.Proofs.Minting.WantingBefore

/-!
# What the reader makes of a new tag

The search for the place of a tag and the reader count braces differently: behind a backslash a brace does not count for the search, while the reader looks for the end of an interpolation without regard to backslashes. So the bracket that the tag is put before may lie inside an interpolation for the reader, and the tag is lost there. Everywhere else it is read as a tag. It may take a visible character along, namely a lone backslash at the end of the line or a bracket that closes nothing, and with the bracket all that follows; if the line shows no other text, it is no line of text any more.
-/

namespace LineTags

open Text LineForm

/-! ### The piece around a place -/

section

variable {state state' state'' : BracketState} {t r behind : Text} {p q : Piece} {ps qs all : List Piece}

/-- Two ways to read up to the same place take the same pieces. -/
theorem Reads.pieces_eq (h : Reads state t ps state' r) (h' : Reads state t qs state'' r) (hall : piecesOf state t = .ok all) :
    ps = qs := by
  obtain rfl := h.state_eq h'
  obtain ⟨rest, hrest, rfl⟩ := h.split hall
  obtain ⟨rest', hrest', heq⟩ := h'.split hall
  rw [Except.ok.inj (hrest.symm.trans hrest')] at heq
  exact List.append_cancel_right heq

/-- A piece of a text that starts before a place and ends behind it. The place is given by what stands behind it. -/
def ReadAcross (state : BracketState) (t behind : Text) (p : Piece) : Prop :=
  ∃ ps state' u state'' r, Reads state t ps state' u ∧ nextPiece? state' u = some (p, state'', r) ∧
    r.length < behind.length ∧ behind.length < u.length

theorem ReadAcross.not_reads (h : ReadAcross state t behind p) : ¬Reads state t qs state' behind := by
  obtain ⟨ps, state₁, u, state₂, r, hreads, hnext, hlt, hle⟩ := h
  exact hreads.not_inside hnext hlt hle

theorem ReadAcross.eq (h : ReadAcross state t behind p) (h' : ReadAcross state t behind q) : p = q := by
  obtain ⟨ps, state₁, u, state₂, r, hreads, hnext, hlt, hle⟩ := h
  obtain ⟨qs, state₁', u', state₂', r', hreads', hnext', hlt', hle'⟩ := h'
  have hle₁ : u.length ≤ u'.length := by
    by_contra hlonger
    exact hreads.not_inside hnext (Nat.lt_trans hlt hle') (Nat.lt_of_not_le hlonger) hreads'
  have hle₂ : u'.length ≤ u.length := by
    by_contra hlonger
    exact hreads'.not_inside hnext' (Nat.lt_trans hlt' hle) (Nat.lt_of_not_le hlonger) hreads
  obtain ⟨more, hmore⟩ := hreads.behind hreads' hle₂
  obtain ⟨rfl, rfl⟩ := hmore.eq_of_length (Nat.le_antisymm hle₂ hle₁)
  exact (Prod.mk.inj (Option.some.inj (hnext.symm.trans hnext'))).1

/-- Whether the bracket that a tag is put before is part of an interpolation. -/
def IsEnclosed (state : BracketState) (body : Text) (bracket : Option Text) : Prop :=
  ∃ behind ∈ bracket, ∃ content, ReadAcross state body behind (.interpolation content)

/-- The pieces in front of a tag that takes along what is next, a lone backslash or a bracket that closes nothing. -/
def TakesAlong (state : BracketState) (body : Text) : Option Text → List Piece → Prop
  | none, ps => ∃ state', Reads state body ps state' ['\\']
  | some behind, ps => ∃ state', state' ≠ .opened ∧ Reads state body ps state' behind

/-- What is read up to the bracket does not enclose it. -/
theorem Reads.not_isEnclosed (h : Reads state t ps state' behind) : ¬IsEnclosed state t (some behind) := by
  rintro ⟨behind', hbehind, content, hacross⟩
  obtain rfl := Option.some.inj hbehind
  exact hacross.not_reads h

/-- A bracket that is part of a piece is not what is next to a tag. -/
theorem ReadAcross.not_takesAlong (h : ReadAcross state t behind p) (ps : List Piece) : ¬TakesAlong state t (some behind) ps := by
  rintro ⟨state', -, hreads⟩
  exact h.not_reads hreads

theorem TakesAlong.eq {bracket : Option Text} (h : TakesAlong state t bracket ps) (h' : TakesAlong state t bracket qs)
    (hall : piecesOf state t = .ok all) : ps = qs := by
  cases bracket with
  | none =>
    obtain ⟨_, hreads⟩ := h
    obtain ⟨_, hreads'⟩ := h'
    exact hreads.pieces_eq hreads' hall
  | some behind =>
    obtain ⟨_, -, hreads⟩ := h
    obtain ⟨_, -, hreads'⟩ := h'
    exact hreads.pieces_eq hreads' hall

end

/-! ### Seen or lost -/

variable {identifier : Text}

/-- The identifiers among some pieces. -/
def idsOf (ps : List Piece) : List Text := ps.filterMap Piece.identifier?

theorem idsOf_append (ps qs : List Piece) : idsOf (ps ++ qs) = idsOf ps ++ idsOf qs := List.filterMap_append

theorem idsOf_chars (w : Text) : idsOf (w.map .char) = [] := by
  rw [idsOf, List.filterMap_map, List.filterMap_eq_nil_iff]
  exact fun c _ => rfl

/-- The new pieces have a tag with the identifier. In front of it there are no new identifiers, and behind it there are none or nothing but tags. -/
def Shows (identifier : Text) (old new : List Piece) : Prop :=
  ∃ before t behind, new = before ++ .tag t :: behind ∧ Candidate.identifierOfTag? t = some identifier ∧
    idsOf before ⊆ idsOf old ∧ (idsOf behind ⊆ idsOf old ∨ ∀ p ∈ behind, ∃ s, p = .tag s)

/-- What is read of a line with a tag, compared to what was read before. -/
structure Sighting (identifier : Text) (state : BracketState) (body : Text) (bracket : Option Text)
    (old new : List Piece) : Prop where
  tag : (¬IsEnclosed state body bracket ∧ Shows identifier old new) ∨ (IsEnclosed state body bracket ∧ idsOf new = idsOf old)
  text : (∃ ps, TakesAlong state body bracket ps ∧ visible.ofPieces new = visible.ofPieces ps) ∨
    ((∀ ps, ¬TakesAlong state body bracket ps) ∧ visible.ofPieces new = visible.ofPieces old)

theorem Shows.mem {old new : List Piece} (h : Shows identifier old new) : identifier ∈ idsOf new := by
  obtain ⟨before, t, behind, rfl, ht, -, -⟩ := h
  rw [idsOf_append]
  refine List.mem_append_right _ (List.mem_filterMap.2 ⟨.tag t, List.mem_cons_self, ht⟩)

theorem Shows.of_tagAdded {old new : List Piece} (hid : isIdentifier identifier)
    (h : TagAdded (tagText identifier) old new) : Shows identifier old new ∧ visible.ofPieces new = visible.ofPieces old := by
  obtain ⟨ps, qs, w, v, hw, hv, -, rfl, rfl⟩ := h
  have hblank : ∀ {u : Text}, isBlankText u = true → visible.ofPieces (u.map .char) = 0 := by
    intro u hu
    rw [Weights.ofPieces, List.map_map]
    exact visible.sum_of_blanks (isBlankText_iff.1 hu)
  refine ⟨⟨_, _, _, rfl, identifierOfTag?_tagText hid, ?_, .inl ?_⟩, ?_⟩
  · rw [idsOf_append, idsOf_append, idsOf_append, idsOf_chars, idsOf_chars, List.append_nil]
    exact List.subset_append_left _ _
  · rw [idsOf_append]
    exact List.subset_append_right _ _
  · simp only [Weights.ofPieces_append, Weights.ofPieces_cons, hblank hw, hblank hv]
    show _ + 0 + (0 + _) = _ + 0 + _
    omega

theorem attachedIds_of_forall_tag {ps : List Piece} (h : ∀ p ∈ ps, ∃ t, p = .tag t) : attachedIds ps = [] := by
  induction ps with
  | nil => rfl
  | cons p ps ih =>
    obtain ⟨t, rfl⟩ := h p List.mem_cons_self
    exact ih fun q hq => h q (List.mem_cons_of_mem _ hq)

/-- A text in front of the first tag with an identifier has this one attached or, if more text stands between, none. -/
theorem eq_of_attached_append {t : Text} {before behind : List Piece} (ht : Candidate.identifierOfTag? t = some identifier)
    (hbefore : idsOf before = []) (hbehind : attachedIds behind = []) :
    (∀ x ∈ attachedTo? (before ++ .tag t :: behind), x = identifier) ∧
      ∀ x ∈ attachedIds (before ++ .tag t :: behind), x = identifier := by
  induction before with
  | nil =>
    have hnone : attachedIds ([] ++ .tag t :: behind) = [] := hbehind
    refine ⟨fun x hx => ?_, fun x hx => ?_⟩
    · rw [List.nil_append, attachedTo?, ht, Option.some_or] at hx
      exact (Option.some.inj hx).symm
    · rw [hnone] at hx
      cases hx
  | cons p ps ih =>
    cases p with
    | char c =>
      obtain ⟨hto, hids⟩ := ih hbefore
      refine ⟨fun x hx => ?_, fun x hx => ?_⟩
      · rw [List.cons_append, attachedTo?] at hx
        split at hx
        · exact hto x hx
        · cases hx
      · rw [List.cons_append, attachedIds, List.mem_append] at hx
        rcases hx with hx | hx
        · split at hx
          · cases hx
          · exact hto x (Option.mem_toList.1 hx)
        · exact hids x hx
    | tag s =>
      have hs : Candidate.identifierOfTag? s = none := List.filterMap_eq_nil_iff.1 hbefore (.tag s) List.mem_cons_self
      have hps : idsOf ps = [] := List.filterMap_eq_nil_iff.2 fun q hq =>
        List.filterMap_eq_nil_iff.1 hbefore q (List.mem_cons_of_mem _ hq)
      obtain ⟨hto, hids⟩ := ih hps
      refine ⟨fun x hx => ?_, hids⟩
      rw [List.cons_append, attachedTo?, hs, Option.none_or] at hx
      exact hto x hx
    | bracket | interpolation content | divert target => exact ih hbefore

/-- Where no identifier was before, the new one is found. -/
theorem Shows.mem_foundIn {old new : List Piece} (h : Shows identifier old new) (hnone : idsOf old = []) :
    identifier ∈ foundIn new := by
  have hmem := h.mem
  obtain ⟨before, t, behind, rfl, ht, hbefore, hbehind⟩ := h
  rw [hnone] at hbefore hbehind
  have hrest : attachedIds behind = [] := hbehind.elim
    (fun h => List.eq_nil_of_subset_nil (List.Subset.trans (attachedIds_subset behind) h)) attachedIds_of_forall_tag
  have hids := (eq_of_attached_append ht (List.eq_nil_of_subset_nil hbefore) hrest).2
  unfold foundIn
  split
  · exact hmem
  · next hne =>
    obtain ⟨x, hx⟩ := List.exists_mem_of_ne_nil _ hne
    exact hids x hx ▸ hx

/-! ### The four ways to arrive at the place -/

section

variable {state : BracketState} {b w y : Text} {old new : List Piece}

/-- A tag has the identifier that stands behind its `#`, whatever ends it. -/
theorem identifier?_tag (state : BracketState) (s : Text) :
    (Piece.tag (strip (s.takeWhile (goesOnTag state)))).identifier? = tagAtStart? ('#' :: stripStart s) := by
  have hids : hashedIds s = hashedIds (s.dropWhile (goesOnTag state)) := by
    conv => lhs; rw [← List.takeWhile_append_dropWhile (p := goesOnTag state) (l := s)]
    exact hashedIds_append_of_not_mem (not_mem_takeWhile_goesOnTag state s) _
  have hwhole := hashedIds_hash state s
  rw [hashedIds, if_pos rfl, hids] at hwhole
  have hlists := List.append_cancel_right hwhole
  refine Option.ext fun x => ?_
  have hiff : x ∈ (tagAtStart? ('#' :: stripStart s)).toList ↔ _ := Iff.of_eq (congrArg (x ∈ ·) hlists)
  rw [Option.mem_toList, Option.mem_toList] at hiff
  exact hiff.symm

theorem startsIn_endsTag_bracket {w : Text} (hw : ∀ c ∈ w, isBlank c) (y : Text) : StartsIn EndsTag (w ++ ']' :: y) :=
  (stops_bracket hw y).follows.mono fun _ hc => hc.endsTag

/-- The added tag and what is read behind it, where it ends with its word. -/
theorem exists_formatTag (hid : isIdentifier identifier) {x : Text} (hx : StartsIn EndsTag x) {ps : List Piece}
    (h : piecesOf state (formatTag identifier ++ x) = .ok ps) :
    ∃ t behind, ps = .tag t :: behind ∧ Candidate.identifierOfTag? t = some identifier ∧
      piecesOf state (x.dropWhile (goesOnTag state)) = .ok behind := by
  have hnext : nextPiece? state ('#' :: (tagText identifier ++ x)) =
      some (.tag (strip ((tagText identifier ++ x).takeWhile (goesOnTag state))), state,
        (tagText identifier ++ x).dropWhile (goesOnTag state)) := rfl
  obtain ⟨behind, hbehind, rfl⟩ := (Reads.single hnext).split h
  refine ⟨_, behind, rfl, ?_, ?_⟩
  · refine (identifier?_tag state _).trans ?_
    have hstart : stripStart (tagText identifier ++ x) = tagText identifier ++ x := rfl
    rw [hstart]
    exact tagAtStart?_formatTag hid hx
  · rwa [List.dropWhile_append_of_pos (goesOnTag_tagText (isWord_of_isIdentifier hid))] at hbehind

/-- An open tag goes on with what follows. -/
theorem nextPiece?_openTag {body : Text} (hbody : ∀ c ∈ body, goesOnTag state c = true) (x : Text) :
    nextPiece? state ('#' :: body ++ x) =
      some (.tag (strip ((body ++ x).takeWhile (goesOnTag state))), state, x.dropWhile (goesOnTag state)) := by
  have hdrop : (body ++ x).dropWhile (goesOnTag state) = x.dropWhile (goesOnTag state) := List.dropWhile_append_of_pos hbody
  rw [← hdrop]
  rfl

variable {told tnew : Text} {state' : BracketState} {ps : List Piece}

section

variable (hid : isIdentifier identifier) (hold : piecesOf state told = .ok old) (hnew : piecesOf state tnew = .ok new)

include hid hold hnew

omit hold in
/-- The reader closes the bracketed part at the bracket. -/
theorem sighting_closing (hreads : ∃ qs, Reads state told qs .opened (']' :: y))
    (hadded : ∃ new, piecesOf state tnew = .ok new ∧ TagAdded (tagText identifier) old new) :
    Sighting identifier state told (some (']' :: y)) old new := by
  obtain ⟨qs, hreads⟩ := hreads
  obtain ⟨new', hnew', hadded⟩ := hadded
  obtain rfl := Except.ok.inj (hnew'.symm.trans hnew)
  obtain ⟨hshows, htext⟩ := Shows.of_tagAdded hid hadded
  refine ⟨.inl ⟨hreads.not_isEnclosed, hshows⟩, .inr ⟨?_, htext⟩⟩
  rintro ps ⟨state', hstate, hreads'⟩
  exact hstate (hreads'.state_eq hreads)

/-- The bracket is plain text. -/
theorem sighting_plain (hstate : state' ≠ .opened) (hw : ∀ c ∈ w, isBlank c)
    (h : Reads state told (ps ++ w.map .char) state' (']' :: y))
    (h' : Reads state tnew (ps ++ [.char ' ']) state' (formatTag identifier ++ (w ++ ']' :: y))) :
    Sighting identifier state told (some (']' :: y)) old new := by
  obtain ⟨rest, -, rfl⟩ := h.split hold
  obtain ⟨tags, htags, rfl⟩ := h'.split hnew
  have hnone : visible.ofPieces tags = 0 := visible_formatTag hstate htags
  have hall : ∀ p ∈ tags, ∃ s, p = .tag s := by
    obtain ⟨stop, hreads, -⟩ := piecesOf_eq_ok_iff.1 htags
    exact forall_tag_of_reads hreads hstate rfl
  obtain ⟨t, behind, rfl, ht, -⟩ := exists_formatTag hid (startsIn_endsTag_bracket hw y) htags
  refine ⟨.inl ⟨h.not_isEnclosed, _, t, behind, rfl, ht, ?_, .inr fun p hp => hall p (List.mem_cons_of_mem _ hp)⟩,
    .inl ⟨_, ⟨state', hstate, h⟩, ?_⟩⟩
  · rw [idsOf_append, idsOf_append, idsOf_append]
    exact List.Subset.trans (List.append_subset.2 ⟨List.Subset.refl _, List.nil_subset _⟩)
      (List.Subset.trans (List.subset_append_left _ _) (List.subset_append_left _ _))
  · have hblank : visible.ofPieces (w.map .char) = 0 := by
      rw [Weights.ofPieces, List.map_map]
      exact visible.sum_of_blanks hw
    rw [Weights.ofPieces_append, Weights.ofPieces_append, Weights.ofPieces_append, hnone, hblank]
    rfl

/-- The bracket is in a tag, which goes on to the added one. -/
theorem sighting_inTag (hstate : state' ≠ .opened) (hw : ∀ c ∈ w, isBlank c) {body : Text}
    (hbody : ∀ c ∈ body, goesOnTag state' c = true) (h : Reads state told ps state' ('#' :: body ++ (w ++ ']' :: y)))
    (h' : Reads state tnew ps state' ('#' :: body ++ (' ' :: formatTag identifier ++ (w ++ ']' :: y)))) :
    Sighting identifier state told (some (']' :: y)) old new := by
  have hnext := nextPiece?_openTag hbody (w ++ ']' :: y)
  have hnext' := nextPiece?_openTag hbody (' ' :: formatTag identifier ++ (w ++ ']' :: y))
  have hspace : (' ' :: formatTag identifier ++ (w ++ ']' :: y)).dropWhile (goesOnTag state') =
      formatTag identifier ++ (w ++ ']' :: y) := by
    rw [List.cons_append, List.dropWhile_cons_of_pos (goesOnTag_of_isBlank (by decide)), formatTag_eq, List.cons_append,
      List.dropWhile_cons_of_neg]
    exact Bool.false_ne_true
  have hshort : ((w ++ ']' :: y).dropWhile (goesOnTag state')).length < (']' :: y).length := by
    rw [List.dropWhile_append_of_pos fun c hc => goesOnTag_of_isBlank (hw c hc),
      List.dropWhile_cons_of_pos (goesOnTag_of_ne (by decide) fun hopened => absurd hopened hstate)]
    exact Nat.lt_succ_of_le (length_dropWhile_le _ _)
  have hacross : ReadAcross state told (']' :: y)
      (.tag (strip ((body ++ (w ++ ']' :: y)).takeWhile (goesOnTag state')))) := by
    refine ⟨ps, state', _, state', _, h, hnext, hshort, ?_⟩
    simp only [List.length_append, List.length_cons]
    omega
  obtain ⟨rest, hrest, rfl⟩ := (h.append (.single hnext)).split hold
  obtain ⟨tags, htags, rfl⟩ := (h'.append (.single hnext')).split hnew
  rw [hspace] at htags
  obtain ⟨t, behind, rfl, ht, hbehind⟩ := exists_formatTag hid (startsIn_endsTag_bracket hw y) htags
  obtain rfl := Except.ok.inj (hrest.symm.trans hbehind)
  have hsame : idsOf [.tag (strip ((body ++ (' ' :: formatTag identifier ++ (w ++ ']' :: y))).takeWhile (goesOnTag state')))] =
      idsOf [.tag (strip ((body ++ (w ++ ']' :: y)).takeWhile (goesOnTag state')))] := by
    rw [idsOf, idsOf, List.filterMap_cons, List.filterMap_cons, identifier?_tag, identifier?_tag,
      (stops_bracket hw y).tagAtStart?_append, (stops_spacedTag identifier _).tagAtStart?_append]
  have htext : ∀ s qs, visible.ofPieces (.tag s :: qs) = visible.ofPieces qs := fun s qs =>
    (visible.ofPieces_cons _ _).trans (Nat.zero_add _)
  refine ⟨.inl ⟨?_, _, t, rest, rfl, ht, ?_, .inl ?_⟩, .inr ⟨hacross.not_takesAlong, ?_⟩⟩
  · rintro ⟨behind', hbracket, content, hinside⟩
    obtain rfl := Option.some.inj hbracket
    cases hinside.eq hacross
  · rw [idsOf_append, idsOf_append, idsOf_append, hsame]
    exact List.subset_append_left _ _
  · rw [idsOf_append]
    exact List.subset_append_right _ _
  · simp only [List.append_assoc, List.singleton_append, Weights.ofPieces_append, htext]

/-- The bracket is in an interpolation. -/
theorem sighting_inBraces (hw : ∀ c ∈ w, isBlank c) {s : Text} (opened : cutAtBrace? 0 s = none)
    (h : Reads state told ps state' ('\x7b' :: s ++ (w ++ ']' :: y)))
    (h' : Reads state tnew ps state' ('\x7b' :: s ++ (' ' :: formatTag identifier ++ (w ++ ']' :: y)))) :
    Sighting identifier state told (some (']' :: y)) old new := by
  obtain ⟨x, r, hsplit, hnext, hnext'⟩ := exists_interpolation_bracket (isWord_of_isIdentifier hid) opened hold h
  have hacross : ReadAcross state told (']' :: y) (.interpolation (s ++ x)) := by
    refine ⟨ps, state', _, state', r, h, hnext, length_lt_of_brace hw hsplit, ?_⟩
    simp only [List.length_append, List.length_cons]
    omega
  obtain ⟨rest, hrest, rfl⟩ := (h.append (.single hnext)).split hold
  obtain ⟨rest', hrest', rfl⟩ := (h'.append (.single hnext')).split hnew
  obtain rfl := Except.ok.inj (hrest.symm.trans hrest')
  refine ⟨.inr ⟨⟨_, rfl, _, hacross⟩, ?_⟩, .inr ⟨hacross.not_takesAlong, ?_⟩⟩
  · rw [idsOf_append, idsOf_append, idsOf_append, idsOf_append]
    rfl
  · rw [Weights.ofPieces_append, Weights.ofPieces_append, Weights.ofPieces_append, Weights.ofPieces_append]
    rfl

end

/-! ### At the place -/

variable (hid : isIdentifier identifier) (hb : EndsDark b)

include hid hb

theorem sighting_end (hold : piecesOf state b = .ok old) (hnew : piecesOf state (b ++ ' ' :: formatTag identifier) = .ok new) :
    Sighting identifier state b none old new := by
  have houtside : ¬IsEnclosed state b none := fun ⟨_, hnone, _⟩ => nomatch hnone
  by_cases hlone : ∃ ps state', Reads state b ps state' ['\\']
  · obtain ⟨ps, state', hlone⟩ := hlone
    have hstops : Stops (' ' :: formatTag identifier) := by
      have := stops_spacedTag identifier []
      rwa [List.append_nil] at this
    have hspace : Reads state (b ++ ' ' :: formatTag identifier) (ps ++ [.char ' ']) state' (formatTag identifier) :=
      (hlone.append_stops hb (List.cons_ne_nil _ _) hstops).append (.single rfl)
    obtain ⟨rfl, hstate⟩ := eq_of_reads_nil hold (hlone.append (reads_backslash state'))
    obtain ⟨tags, htags, rfl⟩ := hspace.split hnew
    rw [← List.append_nil (formatTag identifier)] at htags
    have hnone : visible.ofPieces tags = 0 := visible_formatTag hstate htags
    obtain ⟨t, behind, rfl, ht, hbehind⟩ := exists_formatTag hid startsIn_nil htags
    rw [List.dropWhile_nil, piecesOf_nil, if_neg hstate] at hbehind
    obtain rfl := Except.ok.inj hbehind
    refine ⟨.inl ⟨houtside, _, t, [], rfl, ht, ?_, .inl (List.nil_subset _)⟩, .inl ⟨ps, ⟨state', hlone⟩, ?_⟩⟩
    · rw [idsOf_append, idsOf_append]
      exact List.Subset.refl _
    · rw [Weights.ofPieces_append, Weights.ofPieces_append, hnone]
      rfl
  · obtain ⟨new', hnew', hadded⟩ :=
      tagAdded_end (isWord_of_isIdentifier hid) hb hold fun ps state' h => hlone ⟨ps, state', h⟩
    obtain rfl := Except.ok.inj (hnew'.symm.trans hnew)
    obtain ⟨hshows, htext⟩ := Shows.of_tagAdded hid hadded
    exact ⟨.inl ⟨houtside, hshows⟩, .inr ⟨fun ps ⟨state', h⟩ => hlone ⟨ps, state', h⟩, htext⟩⟩

theorem sighting_bracket (hw : ∀ c ∈ w, isBlank c) (hescape : w = [] → endsPending false b = false)
    (hold : piecesOf state (b ++ (w ++ ']' :: y)) = .ok old)
    (hnew : piecesOf state (b ++ (' ' :: formatTag identifier ++ (w ++ ']' :: y))) = .ok new) :
    Sighting identifier state (b ++ (w ++ ']' :: y)) (some (']' :: y)) old new := by
  have hword := isWord_of_isIdentifier hid
  have holdStops := stops_bracket hw y
  have hnewStops := stops_spacedTag identifier (w ++ ']' :: y)
  cases exists_arrival state hb with
  | between ps state' reads =>
    by_cases hstate : state' = .opened
    · subst hstate
      obtain ⟨hreads, hadded⟩ := tagAdded_between hword hw hold reads
      exact sighting_closing hid hnew hreads hadded
    · exact sighting_plain hid hold hnew hstate hw ((reads _ holdStops).append (reads_blanks state' hw (']' :: y)))
        ((reads _ hnewStops).append (reads_blanks state' (List.forall_mem_singleton.2 (by decide)) _))
  | escaping ps state' reads =>
    have hne : w ≠ [] := ne_nil_of_escaping hescape reads
    by_cases hstate : state' = .opened
    · subst hstate
      obtain ⟨hreads, hadded⟩ := tagAdded_escaping hword hw hold hne reads
      exact sighting_closing hid hnew hreads hadded
    · obtain ⟨c, v, rfl⟩ := List.exists_cons_of_ne_nil hne
      refine sighting_plain hid hold hnew hstate hw ((reads _ holdStops).append (.piece rfl ?_))
        ((reads _ hnewStops).append (.single rfl))
      exact reads_blanks state' (fun d hd => hw d (List.mem_cons_of_mem _ hd)) _
  | inTag ps state' body goesOn reads =>
    by_cases hstate : state' = .opened
    · subst hstate
      obtain ⟨hreads, hadded⟩ := tagAdded_inTag hword hw hold goesOn reads
      exact sighting_closing hid hnew hreads hadded
    · exact sighting_inTag hid hold hnew hstate hw goesOn (reads _ holdStops) (reads _ hnewStops)
  | inBraces ps state' s opened reads =>
    exact sighting_inBraces hid hold hnew hw opened (reads _ holdStops) (reads _ hnewStops)

end

theorem Placed.sighting {bracket : Option Text} {code code' body body' : Text} {role role' : Role}
    {state state' : BracketState} {old new : List Piece} (hplaced : Placed identifier bracket code code')
    (hid : isIdentifier identifier) (hform : (ofCode code).narrative? = some (role, state, body)) (hbody : body ≠ [])
    (hold : piecesOf state body = .ok old) (hform' : (ofCode code').narrative? = some (role', state', body'))
    (hnew : piecesOf state' body' = .ok new) : Sighting identifier state body bracket old new := by
  cases hplaced with
  | atEnd hne hdark =>
    obtain ⟨-, hstub⟩ := isNarrative_of_append hdark hne (isNarrative_of_narrative? hform')
    have happend := narrative?_append (u := tagText identifier) hdark hform hbody hstub
    obtain ⟨-, heq⟩ := Prod.mk.inj (Option.some.inj (happend.symm.trans hform'))
    obtain ⟨rfl, rfl⟩ := Prod.mk.inj heq
    exact sighting_end hid (endsDark_of_narrative? hdark hform hbody) hold hnew
  | @beforeBracket c p q w y hc hq hw hescape =>
    obtain ⟨b, hend, hpending, hcode⟩ := exists_narrative?_bracket (p := p) hc hq hescape
    rw [hcode] at hform hform'
    obtain ⟨-, heq⟩ := Prod.mk.inj (Option.some.inj hform)
    obtain ⟨rfl, rfl⟩ := Prod.mk.inj heq
    obtain ⟨-, heq⟩ := Prod.mk.inj (Option.some.inj hform')
    obtain ⟨rfl, rfl⟩ := Prod.mk.inj heq
    exact sighting_bracket hid hend hw hpending hold hnew

end LineTags
