import LineTags.Proofs.Minting.Wanting
import LineTags.Proofs.Story.TagReading
import Mathlib.Data.List.DropRight

/-!
# What still wants a tag wanted one before

Putting a tag into a line never makes the line want one. The tag may fail to be read as such, and then it changes what is read behind it; but no text comes out of a tag, and every `#` that was read as the start of a tag is still read as one. So the line with the tag shows no text that the line without it did not show, and no identifier gets lost.
-/

namespace LineTags

open Text CommentedLine LineForm

/-! ### The `#` of a text -/

/-- The identifiers behind the `#` of a text, with blanks in front of them, whatever the reader makes of the `#`. -/
def hashedIds : Text → List Text
  | [] => []
  | c :: r => (if c = '#' then (tagAtStart? ('#' :: stripStart r)).toList else []) ++ hashedIds r

section

variable {r s t x : Text} {c : Char}

theorem hashedIds_cons_of_ne (hc : c ≠ '#') (r : Text) : hashedIds (c :: r) = hashedIds r := by
  rw [hashedIds, if_neg hc, List.nil_append]

theorem hashedIds_subset_append (s t : Text) : hashedIds t ⊆ hashedIds (s ++ t) := by
  induction s with
  | nil => exact List.Subset.refl _
  | cons c s ih => exact List.Subset.trans ih (List.subset_append_right _ _)

theorem hashedIds_append_of_not_mem (hs : '#' ∉ s) (t : Text) : hashedIds (s ++ t) = hashedIds t := by
  induction s with
  | nil => rfl
  | cons c s ih =>
    rw [List.mem_cons, not_or] at hs
    rw [List.cons_append, hashedIds_cons_of_ne (Ne.symm hs.1), ih hs.2]

/-- What stands behind a `#` is read up to the next text that no tag goes on with. -/
theorem tagAtStart?_stripStart_append (hx : StartsIn EndsRun x) (hi : (stripStart x).head? ≠ some 'i') (r : Text) :
    tagAtStart? ('#' :: stripStart (r ++ x)) = tagAtStart? ('#' :: stripStart r) := by
  have hnone : ∀ {y : Text}, y.head? ≠ some 'i' → tagAtStart? ('#' :: y) = none := by
    intro y hy
    have hmark : afterMark? ('#' :: y) = none := by
      unfold afterMark?
      split
      · next heq =>
        rw [(List.cons.inj heq).2] at hy
        exact absurd rfl hy
      · rfl
    rw [tagAtStart?, hmark, Option.bind_none]
  cases hr : isBlankText r with
  | true =>
    rw [stripStart_append_of_blank hr, stripStart_of_isBlankText hr, hnone hi, hnone]
    exact fun h => absurd h (by simp)
  | false =>
    rw [stripStart_append hr, ← List.cons_append]
    exact tagAtStart?_append (List.cons_ne_nil _ _) hx

/-- What ends every piece is not taken for the start of an identifier either. -/
theorem Stops.tagAtStart?_append (hx : Stops x) (r : Text) :
    tagAtStart? ('#' :: stripStart (r ++ x)) = tagAtStart? ('#' :: stripStart r) := by
  refine tagAtStart?_stripStart_append (hx.follows.mono fun _ hc => hc.endsTag.endsRun) (fun hhead => ?_) r
  have := hx.noTarget _ hhead
  exact absurd this (by decide +kernel)

theorem Stops.hashedIds_append (hx : Stops x) (t : Text) : hashedIds (t ++ x) = hashedIds t ++ hashedIds x := by
  induction t with
  | nil => rfl
  | cons c t ih =>
    rw [List.cons_append, hashedIds, hashedIds, ih, List.append_assoc, hx.tagAtStart?_append]

/-! ### What is read of them -/

variable {state state' : BracketState} {p : Piece} {ps : List Piece}

/-- Only a `#` starts a tag, and the tag has the identifier behind it. -/
theorem exists_hash_of_nextPiece? {body : Text} (h : nextPiece? state t = some (.tag body, state', r)) :
    ∃ s, t = '#' :: s ∧ state' = state ∧ r = s.dropWhile (goesOnTag state) ∧
      body = strip (s.takeWhile (goesOnTag state)) := by
  fun_cases nextPiece? state t with
  | case1 => cases h
  | case2 c s => cases (Prod.mk.inj (Option.some.inj h)).1
  | case3 s =>
    obtain ⟨q, -, heq⟩ := Option.map_eq_some_iff.1 h
    cases (Prod.mk.inj heq).1
  | case4 s =>
    obtain ⟨hbody, hrest⟩ := Prod.mk.inj (Option.some.inj h)
    obtain ⟨hstate, hr⟩ := Prod.mk.inj hrest
    exact ⟨s, rfl, hstate.symm, hr.symm, (Piece.tag.inj hbody).symm⟩
  | case5 s => cases (Prod.mk.inj (Option.some.inj h)).1
  | case6 c s hescape hbrace hhash harrow hopen =>
    rw [nextPiece?, if_pos hopen] at h
    · cases (Prod.mk.inj (Option.some.inj h)).1
    all_goals assumption
  | case7 c s hescape hbrace hhash harrow hopen hclose =>
    rw [nextPiece?, if_neg hopen, if_pos hclose] at h
    · cases (Prod.mk.inj (Option.some.inj h)).1
    all_goals assumption
  | case8 c s hescape hbrace hhash harrow hopen hclose =>
    rw [nextPiece?, if_neg hopen, if_neg hclose] at h
    · cases (Prod.mk.inj (Option.some.inj h)).1
    all_goals assumption

/-- What ends a tag is not taken for the start of an identifier. -/
theorem head?_stripStart_dropWhile_goesOnTag (state : BracketState) (s : Text) :
    (stripStart (s.dropWhile (goesOnTag state))).head? ≠ some 'i' := by
  intro hhead
  have hgoes := List.head?_dropWhile_not (goesOnTag state) s
  rcases hrest : s.dropWhile (goesOnTag state) with _ | ⟨c, q⟩
  · rw [hrest] at hhead
    cases hhead
  · rw [hrest] at hhead hgoes
    have hstop : goesOnTag state c = false := hgoes
    have hc : isBlank c = false := by
      by_contra hblank
      rw [goesOnTag_of_isBlank (Bool.of_not_eq_false hblank)] at hstop
      cases hstop
    rw [stripStart, List.dropWhile_cons_of_neg (by simp [hc])] at hhead
    obtain rfl : c = 'i' := Option.some.inj hhead
    rw [goesOnTag_of_ne (by decide) fun _ => by decide] at hstop
    cases hstop

/-- The identifier of a tag and the identifiers behind the `#` of the rest are those of the whole. -/
theorem hashedIds_hash (state : BracketState) (s : Text) :
    hashedIds ('#' :: s) = (Piece.tag (strip (s.takeWhile (goesOnTag state)))).identifier?.toList ++
      hashedIds (s.dropWhile (goesOnTag state)) := by
  have hstop := startsIn_dropWhile_goesOnTag state s
  have hhash := not_mem_takeWhile_goesOnTag state s
  have htrimmed : stripStart (stripStart (s.takeWhile (goesOnTag state))) = stripStart (s.takeWhile (goesOnTag state)) :=
    List.dropWhile_idempotent _ _
  have hhead : StartsIn (isBlank · = false) (stripStart (s.takeWhile (goesOnTag state))) := startsIn_dropWhile isBlank _
  have hsub : '#' ∉ stripStart (s.takeWhile (goesOnTag state)) := fun hmem => hhash (List.dropWhile_subset _ hmem)
  have htag := identifierOfTag?_strip hsub hhead (startsIn_nil (p := EndsRun))
  rw [strip, htrimmed, ← strip, List.append_nil] at htag
  have hids : hashedIds s = hashedIds (s.dropWhile (goesOnTag state)) := by
    conv => lhs; rw [← List.takeWhile_append_dropWhile (p := goesOnTag state) (l := s)]
    exact hashedIds_append_of_not_mem hhash _
  have hbehind := tagAtStart?_stripStart_append hstop (head?_stripStart_dropWhile_goesOnTag state s)
    (s.takeWhile (goesOnTag state))
  rw [List.takeWhile_append_dropWhile] at hbehind
  rw [hashedIds, if_pos rfl, hids, Piece.identifier?, htag, hbehind]

/-- The reader finds no identifier that is not behind a `#`. -/
theorem identifiers_subset_hashedIds (h : Reads state t ps state' r) : ps.filterMap Piece.identifier? ⊆ hashedIds t := by
  induction h with
  | stop state t => exact List.nil_subset _
  | @piece state state' state'' t r rest p ps hpiece hreads ih =>
    cases p with
    | tag body =>
      obtain ⟨s, rfl, -, rfl, rfl⟩ := exists_hash_of_nextPiece? hpiece
      rw [hashedIds_hash state, List.filterMap_cons]
      cases Piece.identifier? (.tag (strip (s.takeWhile (goesOnTag state)))) with
      | none => exact ih
      | some identifier => exact List.cons_subset_cons _ ih
    | char c | bracket | interpolation body | divert target =>
      obtain ⟨taken, rfl, -, -⟩ := exists_taken hpiece
      exact List.Subset.trans ih (hashedIds_subset_append taken r)

/-- Outside an open bracket every `#` behind a `#` starts a tag. -/
theorem hashedIds_subset_identifiers (h : Reads state t ps state' []) (hstate : state ≠ .opened) (ht : t.head? = some '#') :
    hashedIds t ⊆ ps.filterMap Piece.identifier? := by
  generalize hrest : ([] : Text) = rest at h
  induction h with
  | stop state t =>
    rw [← hrest] at ht
    cases ht
  | @piece state state' state'' t r rest p ps hpiece hreads ih =>
    obtain ⟨s, rfl⟩ := List.head?_eq_some_iff.1 ht
    obtain ⟨rfl, heq⟩ := Prod.mk.inj (Option.some.inj hpiece)
    obtain ⟨rfl, rfl⟩ := Prod.mk.inj heq
    have hbehind : hashedIds (s.dropWhile (goesOnTag state)) ⊆ ps.filterMap Piece.identifier? := by
      rcases hr : s.dropWhile (goesOnTag state) with _ | ⟨c, q⟩
      · exact List.nil_subset _
      · have hstop := List.head?_dropWhile_not (goesOnTag state) s
        rw [hr] at hstop
        have hc : c = '#' := by
          by_contra hc
          have hstop : goesOnTag state c = false := hstop
          rw [goesOnTag_of_ne hc fun hopened => absurd hopened hstate] at hstop
          cases hstop
        rw [← hr]
        exact ih hstate (by rw [hr, hc]; rfl) hrest
    rw [hashedIds_hash state, List.filterMap_cons]
    cases Piece.identifier? (.tag (strip (s.takeWhile (goesOnTag state)))) with
    | none => exact hbehind
    | some identifier => exact List.cons_subset_cons _ hbehind

end

/-! ### What is read of the line with the tag -/

/-- The new pieces show no more text than the old ones, and every identifier of the old ones is among theirs. -/
structure NoMoreToTag (old new : List Piece) : Prop where
  text : visible.ofPieces new ≤ visible.ofPieces old
  identifiers : old.filterMap Piece.identifier? ⊆ new.filterMap Piece.identifier?

namespace NoMoreToTag

variable {old new : List Piece}

theorem append (h : NoMoreToTag old new) (ps : List Piece) : NoMoreToTag (ps ++ old) (ps ++ new) where
  text := by
    rw [Weights.ofPieces_append, Weights.ofPieces_append]
    exact Nat.add_le_add_left h.text _
  identifiers := by
    rw [List.filterMap_append, List.filterMap_append]
    exact List.append_subset.2 ⟨List.subset_append_left _ _, List.Subset.trans h.identifiers (List.subset_append_right _ _)⟩

theorem space (h : NoMoreToTag old new) : NoMoreToTag old (.char ' ' :: new) where
  text := by
    rw [Weights.ofPieces_cons]
    exact (Nat.zero_add _).trans_le h.text
  identifiers := h.identifiers

theorem of_tagAdded {t : Text} (h : TagAdded t old new) : NoMoreToTag old new := by
  obtain ⟨ps, qs, w, w', hw, hw', -, rfl, rfl⟩ := h
  have hblank : ∀ {v : Text}, isBlankText v = true →
      visible.ofPieces (v.map .char) = 0 ∧ (v.map Piece.char).filterMap Piece.identifier? = [] := by
    intro v hv
    constructor
    · rw [Weights.ofPieces, List.map_map]
      exact visible.sum_of_blanks (isBlankText_iff.1 hv)
    · rw [List.filterMap_map, List.filterMap_eq_nil_iff]
      exact fun c _ => rfl
  rw [List.append_assoc, List.append_assoc]
  refine append ⟨?_, ?_⟩ ps
  · rw [Weights.ofPieces_append, Weights.ofPieces_append, Weights.ofPieces_cons, (hblank hw).1, (hblank hw').1]
    show 0 + (0 + _) ≤ 0 + _
    omega
  · rw [List.filterMap_append, List.filterMap_append, (hblank hw).2, (hblank hw').2, List.nil_append, List.nil_append]
    exact ((List.sublist_cons_self _ _).filterMap _).subset

/-- From a `#` on, outside an open bracket, there is no text, and no identifier is lost. -/
theorem of_hash {state : BracketState} (hstate : state ≠ .opened) {told tnew : Text} (hold : piecesOf state told = .ok old)
    (hnew : piecesOf state tnew = .ok new) (hhash : tnew.head? = some '#') (hsub : hashedIds told ⊆ hashedIds tnew) :
    NoMoreToTag old new := by
  obtain ⟨stop, hreads, -⟩ := piecesOf_eq_ok_iff.1 hnew
  obtain ⟨stop', hreads', -⟩ := piecesOf_eq_ok_iff.1 hold
  refine ⟨?_, ?_⟩
  · rw [visible_of_forall_tag (forall_tag_of_reads hreads hstate hhash)]
    exact Nat.zero_le _
  · exact List.Subset.trans (identifiers_subset_hashedIds hreads')
      (List.Subset.trans hsub (hashedIds_subset_identifiers hreads hstate hhash))

end NoMoreToTag

/-- A tag before a bracket that the reader does not close the bracketed part at, wherever the reader arrives there but inside braces. -/
theorem noMoreToTag_open {identifier b : Text} {state state' : BracketState} {old new : List Piece}
    (hstate : state' ≠ .opened) {ps : List Piece} {w y u : Text} (hw : ∀ c ∈ w, isBlank c)
    (reads : ∀ x, Stops x → Reads state (b ++ x) ps state' (u ++ x))
    (hspace : ∀ r, Reads state' (u ++ ' ' :: '#' :: r) [.char ' '] state' ('#' :: r) ∧ hashedIds u = [] ∨ u.head? = some '#')
    (hold : piecesOf state (b ++ (w ++ ']' :: y)) = .ok old)
    (hnew : piecesOf state (b ++ (' ' :: formatTag identifier ++ (w ++ ']' :: y))) = .ok new) : NoMoreToTag old new := by
  have hstops := stops_bracket hw y
  have hstops' := stops_spacedTag identifier (w ++ ']' :: y)
  have hsub : hashedIds (w ++ ']' :: y) ⊆ hashedIds (formatTag identifier ++ (w ++ ']' :: y)) := hashedIds_subset_append _ _
  obtain ⟨rest, hrest, rfl⟩ := (reads _ hstops).split hold
  obtain ⟨behind, hbehind, rfl⟩ := (reads _ hstops').split hnew
  refine NoMoreToTag.append ?_ ps
  obtain ⟨hspace, hnone⟩ | hhash := hspace (tagText identifier ++ (w ++ ']' :: y))
  · obtain ⟨tags, htags, rfl⟩ := hspace.split hbehind
    refine (NoMoreToTag.of_hash hstate hrest htags rfl ?_).space
    rw [hstops.hashedIds_append, hnone, List.nil_append]
    exact hsub
  · refine .of_hash hstate hrest hbehind ?_ ?_
    · rw [List.head?_append, hhash]
      rfl
    · rw [hstops.hashedIds_append, hstops'.hashedIds_append, List.cons_append, hashedIds_cons_of_ne (by decide)]
      exact List.append_subset.2 ⟨List.subset_append_left _ _, List.Subset.trans hsub (List.subset_append_right _ _)⟩

section

variable {identifier : Text} (hword : IsWord identifier) {state : BracketState} {b : Text} (hb : EndsDark b)
  {old new : List Piece}

include hword hb

/-- A tag at the end. Behind a lone backslash it is read from its `#` on. -/
theorem noMoreToTag_end (hold : piecesOf state b = .ok old)
    (hnew : piecesOf state (b ++ ' ' :: formatTag identifier) = .ok new) : NoMoreToTag old new := by
  by_cases hlone : ∃ ps state', Reads state b ps state' ['\\']
  · obtain ⟨ps, state', hlone⟩ := hlone
    have hstops : Stops (' ' :: formatTag identifier) := by
      have := stops_spacedTag identifier []
      rwa [List.append_nil] at this
    have hspace : Reads state' ('\\' :: ' ' :: formatTag identifier) [.char ' '] state' (formatTag identifier) := .single rfl
    obtain ⟨rfl, hstate⟩ := eq_of_reads_nil hold (hlone.append (reads_backslash state'))
    obtain ⟨behind, hbehind, rfl⟩ :=
      ((hlone.append_stops hb (List.cons_ne_nil _ _) hstops).append hspace).split hnew
    have hrest := piecesOf_eq_ok_iff.2 ⟨state', reads_backslash state', hstate⟩
    rw [List.append_assoc]
    exact (NoMoreToTag.of_hash hstate hrest hbehind rfl (List.nil_subset _)).space.append ps
  · obtain ⟨new', hnew', hadded⟩ := tagAdded_end hword hb hold fun ps state' h => hlone ⟨ps, state', h⟩
    obtain rfl := Except.ok.inj (hnew'.symm.trans hnew)
    exact .of_tagAdded hadded

/-- A tag before a bracket. -/
theorem noMoreToTag_bracket {w y : Text} (hw : ∀ c ∈ w, isBlank c) (hescape : w = [] → endsPending false b = false)
    (hold : piecesOf state (b ++ (w ++ ']' :: y)) = .ok old)
    (hnew : piecesOf state (b ++ (' ' :: formatTag identifier ++ (w ++ ']' :: y))) = .ok new) : NoMoreToTag old new := by
  have hclosed : (∃ new', piecesOf state (b ++ (' ' :: formatTag identifier ++ (w ++ ']' :: y))) = .ok new' ∧
      TagAdded (tagText identifier) old new') → NoMoreToTag old new := by
    rintro ⟨new', hnew', hadded⟩
    obtain rfl := Except.ok.inj (hnew'.symm.trans hnew)
    exact .of_tagAdded hadded
  cases exists_arrival state hb with
  | between ps state' reads =>
    by_cases hstate : state' = .opened
    · subst hstate
      exact hclosed (tagAdded_between hword hw hold reads).2
    · refine noMoreToTag_open hstate hw (u := []) reads (fun r => .inl ⟨?_, rfl⟩) hold hnew
      exact reads_blanks state' (w := [' ']) (List.forall_mem_singleton.2 (by decide)) _
  | escaping ps state' reads =>
    by_cases hstate : state' = .opened
    · subst hstate
      exact hclosed (tagAdded_escaping hword hw hold (ne_nil_of_escaping hescape reads) reads).2
    · exact noMoreToTag_open hstate hw (u := ['\\']) reads (fun r => .inl ⟨.single rfl, rfl⟩) hold hnew
  | inTag ps state' body goesOn reads =>
    by_cases hstate : state' = .opened
    · subst hstate
      exact hclosed (tagAdded_inTag hword hw hold goesOn reads).2
    · exact noMoreToTag_open hstate hw (u := '#' :: body) reads (fun r => .inr rfl) hold hnew
  | inBraces ps state' s opened reads =>
    have h := reads _ (stops_bracket hw y)
    obtain ⟨x, r, -, hnext, hnext'⟩ := exists_interpolation_bracket hword opened hold h
    obtain ⟨rest, hrest, rfl⟩ := (h.append (.single hnext)).split hold
    obtain ⟨behind, hbehind, rfl⟩ :=
      ((reads _ (stops_spacedTag identifier (w ++ ']' :: y))).append (.single hnext')).split hnew
    obtain rfl := Except.ok.inj (hrest.symm.trans hbehind)
    rw [List.append_assoc, List.append_assoc]
    refine NoMoreToTag.append ⟨?_, ?_⟩ ps
    · rw [Weights.ofPieces_append, Weights.ofPieces_append]
      exact Nat.le_refl _
    · exact List.Subset.refl _

end

/-! ### The line with the tag -/

theorem sum_visible_pos_iff (t : Text) : 0 < (t.map visible.char).sum ↔ isBlankText t = false := by
  rw [List.sum_pos_iff_exists_pos_nat, ← Bool.not_eq_true, isBlankText_iff]
  constructor
  · rintro ⟨n, hn, hpos⟩ hblank
    obtain ⟨c, hc, rfl⟩ := List.mem_map.1 hn
    rw [visible.blank c (hblank c hc)] at hpos
    exact absurd hpos (Nat.lt_irrefl 0)
  · intro hdark
    by_contra hnone
    refine hdark fun c hc => ?_
    by_contra hvisible
    exact hnone ⟨1, List.mem_map.2 ⟨c, hc, if_neg hvisible⟩, Nat.one_pos⟩

/-- Whatever is outlined of a branch has no weight. -/
theorem ofNode_of_mem_outline? {role : Role} {p : Option Place} {content : List Node} {m : Node}
    (hm : m ∈ (Node.outline? (fun _ _ => false) (.branch role p content)).toList) : visible.ofNode m = 0 := by
  obtain ⟨content', rfl⟩ : ∃ content', m = .branch role p content' := by
    unfold Node.outline? at hm
    split at hm
    · exact ⟨_, List.mem_singleton.1 hm⟩
    · exact ⟨_, List.mem_singleton.1 hm⟩
  unfold Weights.ofNode
  split
  · contradiction
  · contradiction
  · rfl
  · rfl

/-- Text is read of a line exactly if some of its plain characters are visible. -/
theorem exists_text_iff (place : Place) (ps : List Piece) :
    (∃ t, .text t (some place) ∈ nodesOf place ps ∧ isBlankText t = false) ↔ 0 < visible.ofPieces ps := by
  have hweight : visible.ofNodes (Node.outlines (fun _ _ => false) (nodesOf place ps)) = visible.ofPieces ps :=
    visible.ofNodes_outlines_nodesOf (fun _ h => absurd h Bool.false_ne_true) ps
  rw [← hweight, Weights.ofNodes, List.sum_pos_iff_exists_pos_nat, Node.outlines_eq_flatMap]
  constructor
  · rintro ⟨t, ht, hdark⟩
    have hshown : .text (strip t) (some place) ∈ (Node.outline? (fun _ _ => false) (.text t (some place))).toList := by
      rw [Node.outline?, hdark]
      exact List.mem_singleton_self _
    refine ⟨_, List.mem_map_of_mem (List.mem_flatMap.2 ⟨_, ht, hshown⟩), ?_⟩
    show 0 < ((strip t).map visible.char).sum
    rw [visible.sum_strip]
    exact (sum_visible_pos_iff t).2 hdark
  · rintro ⟨weight, hweight, hpos⟩
    obtain ⟨m, hm, rfl⟩ := List.mem_map.1 hweight
    obtain ⟨n, hn, hm⟩ := List.mem_flatMap.1 hm
    have hpart := StoryReader.isPart_nodesOf place ps n hn
    cases n with
    | text t p =>
      obtain rfl : p = some place := hpart
      rw [Node.outline?] at hm
      split at hm
      · cases hm
      · next hblank => exact ⟨t, hn, Bool.of_not_eq_true hblank⟩
    | tag t p =>
      rw [List.mem_singleton.1 hm] at hpos
      exact absurd hpos (Nat.lt_irrefl 0)
    | branch role p content =>
      rw [ofNode_of_mem_outline? hm] at hpos
      exact absurd hpos (Nat.lt_irrefl 0)

theorem wantsTag_iff {line : Text} : WantsTag line ↔
    ∃ ps, piecesIn? line = some ps ∧ 0 < visible.ofPieces ps ∧ ps.filterMap Piece.identifier? = [] := by
  constructor
  · rintro ⟨role, state, body, ps, hform, hpieces, ⟨place, t, ht, hblank⟩, hnone⟩
    exact ⟨ps, piecesIn?_eq_some_iff.2 ⟨role, state, body, hform, hpieces⟩, (exists_text_iff place ps).1 ⟨t, ht, hblank⟩, hnone⟩
  · rintro ⟨ps, hpieces, hvisible, hnone⟩
    obtain ⟨role, state, body, hform, hpieces⟩ := piecesIn?_eq_some_iff.1 hpieces
    exact ⟨role, state, body, ps, hform, hpieces, ⟨⟨none, 0⟩, (exists_text_iff _ ps).2 hvisible⟩, hnone⟩

/-- A line that can be read, if it is narrative. -/
def IsReadable (line : Text) : Prop :=
  ∀ role state body, (ofCode (strip (codeOf line))).narrative? = some (role, state, body) → ∃ ps, piecesOf state body = .ok ps

namespace StoryReader

/-- Every line was read of a file that was read. -/
theorem isReadable_of_readLines {library : Library} {readFile : Text → Text → Progress → Outcome (List Node × Progress)}
    {file : Text} {line : Nat} {ls : List Text} {page page' : Page} {progress progress' : Progress}
    (h : readLines library readFile file line ls page progress = .ok (page', progress')) : ∀ l ∈ ls, IsReadable l := by
  induction ls generalizing line page progress with
  | nil => exact fun l hl => absurd hl List.not_mem_nil
  | cons l ls ih =>
    obtain ⟨mid, progress₁, heffect, hrest⟩ := readLines_cons_ok h
    intro l' hl'
    rcases List.mem_cons.1 hl' with rfl | hl'
    · intro role state body hform
      generalize ofCode (strip (codeOf l')) = form at heffect hform
      cases heffect with
      | empty | repeated | included | knot | stitch => cases hform
      | branch hbranch =>
        rw [lineBranch?_narrative hform] at hbranch
        cases hread : piecesOf state body with
        | ok ps => exact ⟨ps, rfl⟩
        | error fault =>
          rw [hread] at hbranch
          cases hbranch
    · exact ih hrest l' hl'

end StoryReader

theorem isReadable_of_parse {library : Library} {file t : Text} {story : Story} (h : Story.parse library file t = .ok story)
    {i : Nat} {line : Text} (hline : (lines t)[i]? = some line) : IsReadable (readAs i line) := by
  obtain ⟨page, progress, hlines, -⟩ := exists_page_of_parse h
  exact StoryReader.isReadable_of_readLines hlines _
    (List.mem_of_getElem? (getElem?_lines_dropMarks.2 ⟨line, hline, rfl⟩))

section

variable {identifier code body : Text} {role : Role} {state : BracketState} {ps : List Piece}

theorem state_ne_opened {form : LineForm} (h : form.narrative? = some (role, state, body)) : state ≠ .opened := by
  cases form <;> cases h <;> exact nofun

/-- A line of nothing but tags shows no text. -/
theorem visible_of_hash (h : (ofCode ('#' :: code)).narrative? = some (role, state, body))
    (hpieces : piecesOf state body = .ok ps) : visible.ofPieces ps = 0 := by
  have hform : ofCode ('#' :: code) = .narrative ('#' :: code) :=
    ofCode_of_isNarrative ⟨rfl, rfl, rfl, rfl, rfl, rfl, rfl⟩
  obtain ⟨stop, hreads, -⟩ := piecesOf_eq_ok_iff.1 hpieces
  rw [hform] at h
  obtain ⟨-, heq⟩ := Prod.mk.inj (Option.some.inj h)
  obtain ⟨rfl, rfl⟩ := Prod.mk.inj heq
  exact visible_of_forall_tag (forall_tag_of_reads hreads nofun rfl)

/-- If text is read of a line with a tag, then the line is narrative without it, and it has no more to tag. -/
theorem Placed.noMoreToTag {bracket : Option Text} {old new : Text} (hplaced : Placed identifier bracket old new)
    (hword : IsWord identifier)
    (hread : ∀ role state body, (ofCode old).narrative? = some (role, state, body) → ∃ ps, piecesOf state body = .ok ps)
    (hform : (ofCode new).narrative? = some (role, state, body)) (hpieces : piecesOf state body = .ok ps)
    (hvisible : 0 < visible.ofPieces ps) :
    ∃ role state body qs, (ofCode old).narrative? = some (role, state, body) ∧ piecesOf state body = .ok qs ∧
      NoMoreToTag qs ps := by
  cases hplaced with
  | atEnd hne hdark =>
    rw [formatTag_eq] at hform
    obtain ⟨role', state', body', hold, heq | ⟨hend, heq⟩⟩ := narrative?_of_append hdark hne hform
    · obtain ⟨-, heq⟩ := Prod.mk.inj heq
      obtain ⟨rfl, rfl⟩ := Prod.mk.inj heq
      rw [← List.append_nil ('#' :: _), ← formatTag_eq] at hpieces
      rw [visible_formatTag (state_ne_opened hold) hpieces] at hvisible
      exact absurd hvisible (Nat.lt_irrefl 0)
    · obtain ⟨-, heq⟩ := Prod.mk.inj heq
      obtain ⟨rfl, rfl⟩ := Prod.mk.inj heq
      obtain ⟨qs, hqs⟩ := hread _ _ _ hold
      exact ⟨_, _, _, qs, hold, hqs, noMoreToTag_end hword hend hqs hpieces⟩
  | @beforeBracket c p q w y hc hq hw hescape =>
    obtain ⟨b, hend, hpending, hcode⟩ := exists_narrative?_bracket (p := p) hc hq hescape
    rw [hcode] at hform
    obtain ⟨-, heq⟩ := Prod.mk.inj (Option.some.inj hform)
    obtain ⟨rfl, rfl⟩ := Prod.mk.inj heq
    obtain ⟨qs, hqs⟩ := hread _ _ _ (hcode _)
    exact ⟨_, _, _, qs, hcode _, hqs, noMoreToTag_bracket hword hend hw hpending hqs hpieces⟩

/-- Where nothing but blanks and a comment is behind the byte order marks of a line, the tag goes in right behind these. -/
theorem exists_dropMarks_insertTag {marks read : Text} (hmarks : ∀ c ∈ marks, c = '\uFEFF')
    (hcode : hasNoCode (marks ++ read) = false) (hnone : hasNoCode read = true) (identifier : Text) :
    ∃ rest, dropMarks (insertTag (marks ++ read) identifier) = ' ' :: '#' :: rest := by
  obtain ⟨before, behind, hcut, -, -, hlength, hinsert⟩ := exists_insertTag_eq hcode identifier
  have hline := codeOf_append_of_isPlain (fun c hc => isPlain_of_mark (hmarks c hc)) read
  have hbefore : before = marks := by
    rcases marks with _ | ⟨m, marks⟩
    · rw [List.nil_append, hnone] at hcode
      cases hcode
    obtain rfl := hmarks m List.mem_cons_self
    have hdark : EndsDark ('\uFEFF' :: marks) := fun c hc => by
      rw [hmarks c (List.mem_of_getLast? hc)]
      decide
    rw [tagColumn, hline, List.cons_append, beforeChoiceBracket?_marked, Option.getD_none, ← List.cons_append,
      stripEnd_append_blanks (isBlankText_iff.1 hnone), stripEnd_of_endsDark hdark] at hlength
    exact (List.append_inj (hcut.symm.trans hline) hlength).1
  refine ⟨tagText identifier ++ behind ++ commentOf (marks ++ read), ?_⟩
  rw [hinsert, hbefore, dropMarks_append hmarks]
  exact dropMarks_of_head? fun h => absurd (Option.some.inj h) (by decide)

/-- Where the code of a line is nothing but byte order marks, the tag is all that is read of it. -/
theorem visible_of_marks {i : Nat} {line : Text} (hcode : hasNoCode line = false) (hnone : hasNoCode (readAs i line) = true)
    (hpieces : piecesIn? (readAs i (insertTag line identifier)) = some ps) : visible.ofPieces ps = 0 := by
  have hzero : i = 0 := by
    by_contra hother
    rw [readAs, if_neg hother, hcode] at hnone
    cases hnone
  subst hzero
  rw [readAs, if_pos rfl] at hnone hpieces
  obtain ⟨marks, read, rfl, hmarks, -, hdrop⟩ := exists_marks_append line
  rw [hdrop] at hnone
  obtain ⟨tail, hread⟩ := exists_dropMarks_insertTag hmarks hcode hnone identifier
  have hplain : ∀ c ∈ [' ', '#'], IsPlain c := by
    intro c hc
    rcases List.mem_cons.1 hc with rfl | hc
    · exact ⟨by decide, by decide, by decide⟩
    · rw [List.mem_singleton.1 hc]
      exact ⟨by decide, by decide, by decide⟩
  obtain ⟨role, state, body, hform, hbody⟩ := piecesIn?_eq_some_iff.1 hpieces
  rw [hread, show ' ' :: '#' :: tail = [' ', '#'] ++ tail from rfl, codeOf_append_of_isPlain hplain] at hform
  generalize codeOf tail = rest at hform
  have hstrip : strip ([' ', '#'] ++ rest) = stripEnd ('#' :: rest) := rfl
  obtain ⟨u, hu⟩ : ∃ u, stripEnd ('#' :: rest) = '#' :: u := by
    cases hrest : isBlankText rest with
    | true => exact ⟨[], stripEnd_append_blanks (t := ['#']) (isBlankText_iff.1 hrest)⟩
    | false => exact ⟨_, stripEnd_append hrest ['#']⟩
  rw [hstrip, hu] at hform
  exact visible_of_hash hform hbody

/-- A line that wants a tag although one was put into it wanted one before. -/
theorem wantsTag_of_insertTag (hword : IsWord identifier) {i : Nat} {line : Text} (hcode : hasNoCode line = false)
    (hread : IsReadable (readAs i line)) (h : WantsTag (readAs i (insertTag line identifier))) : WantsTag (readAs i line) := by
  obtain ⟨ps, hps, hvisible, hnone⟩ := wantsTag_iff.1 h
  cases hread' : hasNoCode (readAs i line) with
  | true =>
    rw [visible_of_marks hcode hread' hps] at hvisible
    exact absurd hvisible (Nat.lt_irrefl 0)
  | false =>
    obtain ⟨role, state, body, hform, hpieces⟩ := piecesIn?_eq_some_iff.1 hps
    obtain ⟨role', state', body', qs, hold, hqs, hless⟩ :=
      (placed_readAs hword i hread').noMoreToTag hword hread hform hpieces hvisible
    refine wantsTag_iff.2 ⟨qs, piecesIn?_eq_some_iff.2 ⟨_, _, _, hold, hqs⟩, hvisible.trans_le hless.text, ?_⟩
    have hsub := hless.identifiers
    rw [hnone] at hsub
    exact List.eq_nil_of_subset_nil hsub

end

end LineTags
