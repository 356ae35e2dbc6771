import LineTags.Proofs.Minting.Wanting
import LineTags.Proofs.Story.TagReading
import LineTags.Proofs.Story.Tagging

/-!
# Which lines have a tag

A line counts as tagged for the codec if a managed tag stands in its code, and for a run if the reader has found an identifier among what it read of the line: one that is attached to a text, or else any. The two need not agree. What a run finds depends on the pieces of the line alone, so whether they agree can be told from the line; and on a line with plain tags, and one at most, they do.
-/

namespace LineTags

open Text LineForm Node

/-! ### Identifiers that are attached to a text -/

/-- The identifier that is attached to a text which ends before some pieces: the first one before the next visible character. -/
def attachedTo? : List Piece → Option Text
  | [] => none
  | .tag t :: ps => (Candidate.identifierOfTag? t).or (attachedTo? ps)
  | .char c :: ps => if isBlank c then attachedTo? ps else none
  | _ :: ps => attachedTo? ps

/-- The identifiers that are attached to the texts of a line. -/
def attachedIds : List Piece → List Text
  | [] => []
  | .char c :: ps => (if isBlank c then [] else (attachedTo? ps).toList) ++ attachedIds ps
  | _ :: ps => attachedIds ps

theorem attachedTo?_subset {ps : List Piece} {identifier : Text} (h : attachedTo? ps = some identifier) :
    identifier ∈ ps.filterMap Piece.identifier? := by
  induction ps with
  | nil => cases h
  | cons p ps ih =>
    cases p with
    | tag t =>
      rw [attachedTo?] at h
      rw [List.filterMap_cons, Piece.identifier?]
      cases hid : Candidate.identifierOfTag? t with
      | none =>
        rw [hid, Option.none_or] at h
        exact ih h
      | some first =>
        rw [hid, Option.some_or] at h
        rw [Option.some.inj h]
        exact List.mem_cons_self
    | char c =>
      rw [attachedTo?] at h
      split at h
      · exact ih h
      · cases h
    | bracket | interpolation body | divert target => exact ih h

theorem attachedIds_subset (ps : List Piece) : attachedIds ps ⊆ ps.filterMap Piece.identifier? := by
  induction ps with
  | nil => exact List.Subset.refl _
  | cons p ps ih =>
    cases p with
    | char c =>
      intro identifier h
      show identifier ∈ ps.filterMap Piece.identifier?
      rw [attachedIds, List.mem_append] at h
      rcases h with h | h
      · split at h
        · cases h
        · exact attachedTo?_subset (Option.mem_toList.1 h)
      · exact ih h
    | tag t =>
      intro identifier h
      rw [List.filterMap_cons]
      cases Piece.identifier? (.tag t) with
      | none => exact ih h
      | some first => exact List.mem_cons_of_mem _ (ih h)
    | bracket | interpolation body | divert target => exact ih

/-! ### The same among nodes -/

/-- The identifiers attached to the texts among some nodes. -/
def attachedAmong : List Node → List Text
  | [] => []
  | .text t _ :: ns => (if isBlankText t then [] else (Candidate.attachedIn? ns).toList) ++ attachedAmong ns
  | _ :: ns => attachedAmong ns

theorem filterMap_attached?_ofNodes {place : Place} {ancestry : List Container} {siblings ns : List Node} {index : Nat}
    (hns : ∀ n ∈ ns, StoryReader.IsPart place n) (hdrop : siblings.drop index = ns) :
    (Candidate.ofNodes ancestry siblings index ns).filterMap Candidate.attached? = attachedAmong ns := by
  induction ns generalizing index with
  | nil => rfl
  | cons n ns ih =>
    have hbehind : siblings.drop (index + 1) = ns := by
      rw [← List.drop_drop, hdrop]
      rfl
    have hrest := ih (fun m hm => hns m (List.mem_cons_of_mem _ hm)) hbehind
    have hn := hns n List.mem_cons_self
    rw [Candidate.ofNodes, List.filterMap_append, hrest]
    cases n with
    | text t p =>
      obtain rfl : p = some place := hn
      rw [Candidate.ofNode, attachedAmong]
      split
      · rfl
      · rw [List.filterMap_cons, Candidate.attached?, hbehind]
        cases Candidate.attachedIn? ns <;> rfl
    | tag t p => rfl
    | branch role p content =>
      rcases hn with hlogic | ⟨⟨target, rfl⟩, rfl⟩
      · rw [Candidate.ofNode_logic _ _ _ _ _ hlogic]
        rfl
      · rfl

theorem mem_of_mem_nodesFrom {place : Place} {ps : List Piece} {c : Char} (h : c ∈ (nodesFrom place ps).1) :
    .char c ∈ ps := by
  induction ps with
  | nil => cases h
  | cons p ps ih =>
    cases p with
    | char d =>
      rcases List.mem_cons.1 (show c ∈ d :: (nodesFrom place ps).1 from h) with rfl | h
      · exact List.mem_cons_self
      · exact List.mem_cons_of_mem _ (ih h)
    | bracket | interpolation body | tag t | divert target => cases h

section

variable {place : Place} {t : Text} {ns : List Node} (hfeed : '\n' ∉ t)

include hfeed

/-- A text that is blank, or none at all, is passed over. -/
theorem attachedIn?_textNode :
    Candidate.attachedIn? (textNode place t ++ ns) = if isBlankText t then Candidate.attachedIn? ns else none := by
  cases t with
  | nil => rfl
  | cons c t =>
    show Candidate.attachedIn? (.text (c :: t) (some place) :: ns) = _
    rw [Candidate.attachedIn?]
    cases isBlankText (c :: t) with
    | true => exact if_neg fun h => h.elim hfeed fun h => Bool.false_ne_true h
    | false => exact if_pos (.inr rfl)

omit hfeed in
theorem attachedAmong_textNode : attachedAmong (textNode place t ++ ns) =
    (if isBlankText t then [] else (Candidate.attachedIn? ns).toList) ++ attachedAmong ns := by
  cases t <;> rfl

end

section

variable {place : Place} {ps : List Piece}

theorem attachedIn?_nodesOf (hfeed : .char '\n' ∉ ps) : Candidate.attachedIn? (nodesOf place ps) = attachedTo? ps := by
  induction ps with
  | nil => rfl
  | cons p ps ih =>
    have hrest := ih fun hmem => hfeed (List.mem_cons_of_mem _ hmem)
    cases p with
    | char c =>
      have hnone : '\n' ∉ (nodesFrom place ps).1 := fun hmem => hfeed (List.mem_cons_of_mem _ (mem_of_mem_nodesFrom hmem))
      have hcons : '\n' ∉ c :: (nodesFrom place ps).1 := fun hmem => by
        rcases List.mem_cons.1 hmem with rfl | hmem
        · exact hfeed List.mem_cons_self
        · exact hnone hmem
      have hnodes : nodesOf place (.char c :: ps) = textNode place (c :: (nodesFrom place ps).1) ++ (nodesFrom place ps).2 := rfl
      rw [nodesOf, attachedIn?_textNode hnone] at hrest
      rw [hnodes, attachedIn?_textNode hcons, attachedTo?, ← hrest]
      show (if (isBlank c && isBlankText (nodesFrom place ps).1) = true then _ else _) = _
      cases isBlank c <;> rfl
    | tag t =>
      show (Candidate.identifierOfTag? t).or (Candidate.attachedIn? (nodesOf place ps)) = _
      rw [hrest]
      rfl
    | bracket | interpolation body | divert target => exact hrest

theorem attachedAmong_nodesOf (hfeed : .char '\n' ∉ ps) : attachedAmong (nodesOf place ps) = attachedIds ps := by
  induction ps with
  | nil => rfl
  | cons p ps ih =>
    have hbehind : .char '\n' ∉ ps := fun hmem => hfeed (List.mem_cons_of_mem _ hmem)
    have hrest := ih hbehind
    cases p with
    | char c =>
      have hnone : '\n' ∉ (nodesFrom place ps).1 := fun hmem => hbehind (mem_of_mem_nodesFrom hmem)
      have hattached : Candidate.attachedIn? (nodesOf place ps) = attachedTo? ps := attachedIn?_nodesOf hbehind
      have hnodes : nodesOf place (.char c :: ps) = textNode place (c :: (nodesFrom place ps).1) ++ (nodesFrom place ps).2 := rfl
      rw [nodesOf, attachedIn?_textNode hnone] at hattached
      rw [nodesOf, attachedAmong_textNode] at hrest
      rw [hnodes, attachedAmong_textNode, attachedIds, ← hrest, ← hattached]
      show (if (isBlank c && isBlankText (nodesFrom place ps).1) = true then _ else _) ++ _ = _
      cases isBlank c <;> cases isBlankText (nodesFrom place ps).1 <;> simp
    | tag t => exact hrest
    | bracket | interpolation body | divert target => exact hrest

end

/-! ### What a run finds on a line -/

/-- The identifiers that a line carries, told from its pieces: those attached to its texts, or else all that are read. -/
def foundIn (ps : List Piece) : List Text :=
  match attachedIds ps with
  | [] => ps.filterMap Piece.identifier?
  | ids => ids

theorem foundIn_subset (ps : List Piece) : foundIn ps ⊆ ps.filterMap Piece.identifier? := by
  unfold foundIn
  split
  · exact List.Subset.refl _
  · exact attachedIds_subset ps

theorem foundIn_eq_nil_iff {ps : List Piece} : foundIn ps = [] ↔ ps.filterMap Piece.identifier? = [] := by
  constructor
  · intro h
    unfold foundIn at h
    split at h
    · exact h
    · exact absurd h (by assumption)
  · intro h
    exact List.eq_nil_of_subset_nil (h ▸ foundIn_subset ps)

section

variable {library : Library} {root t file u line : Text} {story : Story} {g : LineGroup} {i : Nat} {ps : List Piece}
  (h : Story.parse library root t = .ok story) (hg : g ∈ LineGroup.ofCandidates (Candidate.ofTree story.root))
  (hsource : SourceText library root t file u) (hline : (lines (dropMarks u))[i]? = some line)
  (hfirst : StandsOn g.first file i line ps)

include h hg hsource hline hfirst

/-- The pieces of one group stand on one line. -/
theorem StandsOn.member {m : Candidate} (hm : m ∈ g.members) : StandsOn m file i line ps := by
  have hgathered := LineGroup.gathered_ofCandidates (Candidate.ofTree story.root)
  obtain ⟨file', u', i', line', ps', hsource', hline', hstands⟩ := standsIn_of_parse h (hgathered.mem g hg m hm)
  have hplace := hstands.place.symm.trans ((hgathered.place g hg m hm).trans hfirst.place)
  obtain rfl : file' = file := Option.some.inj (congrArg Place.file hplace)
  have hnumber : ((1 + i' : Nat) : Int) = ((1 + i : Nat) : Int) := congrArg Place.line hplace
  obtain rfl : i' = i := by omega
  obtain rfl := hsource'.eq hsource
  obtain rfl := Option.some.inj (hline'.symm.trans hline)
  obtain rfl := Option.some.inj (hstands.pieces.symm.trans hfirst.pieces)
  exact hstands

/-- The pieces of a group are all that stand on the line, so their identifiers are the ones attached to its texts. -/
theorem StandsOn.mem_attached_iff (hfeed : .char '\n' ∉ ps) {identifier : Text} :
    identifier ∈ g.members.filterMap Candidate.attached? ↔ identifier ∈ attachedIds ps := by
  have hgathered := LineGroup.gathered_ofCandidates (Candidate.ofTree story.root)
  have hneighbours {m : Candidate} (hm : StandsOn m file i line ps) :
      m.neighbours.filterMap Candidate.attached? = attachedIds ps := by
    have hparts : ∀ n ∈ m.siblings, StoryReader.IsPart m.place n := by
      rw [hm.siblings]
      exact StoryReader.isPart_nodesOf _ ps
    rw [Candidate.neighbours, filterMap_attached?_ofNodes hparts rfl, hm.siblings, attachedAmong_nodesOf hfeed]
  constructor
  · intro hmem
    obtain ⟨m, hm, hattached⟩ := List.mem_filterMap.1 hmem
    have hstands := StandsOn.member h hg hsource hline hfirst hm
    rw [← hneighbours hstands]
    have hself := (Candidate.neighbours_of_mem_ofTree (hgathered.mem g hg m hm)).1
    exact List.mem_filterMap.2 ⟨m, hself, hattached⟩
  · intro hmem
    rw [← hneighbours hfirst] at hmem
    obtain ⟨m, hm, hattached⟩ := List.mem_filterMap.1 hmem
    have hplace : m.place = g.first.place := by
      have hparts : ∀ n ∈ g.first.siblings, StoryReader.IsPart g.first.place n := by
        rw [hfirst.siblings]
        exact StoryReader.isPart_nodesOf _ ps
      exact (StoryReader.of_mem_ofNodes hparts hm).1
    have htree := (Candidate.neighbours_of_mem_ofTree (hgathered.mem g hg g.first List.mem_cons_self)).2 hm
    obtain ⟨g', hg', hm'⟩ := hgathered.covers m htree
    -- there is one group only of this place
    obtain rfl : g' = g :=
      List.inj_on_of_nodup_map hgathered.nodup hg' hg ((hgathered.place g' hg' m hm').symm.trans hplace)
    exact List.mem_filterMap.2 ⟨m, hm', hattached⟩

theorem StandsOn.mem_identifiers_iff (hfeed : .char '\n' ∉ ps) {identifier : Text} :
    identifier ∈ g.identifiers ↔ identifier ∈ foundIn ps := by
  have hattached : ∀ {identifier}, identifier ∈ g.members.filterMap Candidate.attached? ↔ identifier ∈ attachedIds ps :=
    StandsOn.mem_attached_iff h hg hsource hline hfirst hfeed
  have hall := lineIdentifiers_of_siblings hfirst.siblings
  unfold LineGroup.identifiers foundIn
  cases hids : g.members.filterMap Candidate.attached? with
  | nil =>
    have hnone : attachedIds ps = [] := List.eq_nil_iff_forall_not_mem.2 fun id hid => by
      have := hattached.2 hid
      rw [hids] at this
      cases this
    rw [hnone]
    dsimp only
    rw [hall]
  | cons first others =>
    cases hps : attachedIds ps with
    | nil =>
      have hfirst : first ∈ attachedIds ps := hattached.1 (hids ▸ List.mem_cons_self)
      rw [hps] at hfirst
      cases hfirst
    | cons first' others' =>
      dsimp only
      rw [← hids, ← hps]
      exact hattached

end

/-! ### Agreement -/

/-- Codec and run agree on a line: it has a tag for both or for neither, and the run finds the identifier that the codec takes. -/
def LineGroup.AgreesWith (g : LineGroup) (line : Text) : Prop :=
  (g.identifiers ≠ [] ↔ (codeTag? line).isSome = true) ∧ ∀ m ∈ codeTag? line, m.identifier ∈ g.identifiers

instance (g : LineGroup) (line : Text) : Decidable (g.AgreesWith line) :=
  inferInstanceAs (Decidable ((_ ↔ _) ∧ _))

/-- The same, told from a line and its pieces: no identifier is read if the codec finds no tag, and else its identifier is found. -/
def ReadAlike (line : Text) (ps : List Piece) : Prop :=
  (codeTag? line = none → ps.filterMap Piece.identifier? = []) ∧ ∀ m ∈ codeTag? line, m.identifier ∈ foundIn ps

instance (line : Text) (ps : List Piece) : Decidable (ReadAlike line ps) :=
  inferInstanceAs (Decidable ((_ → _) ∧ _))

/-- With plain tags and one tag at most, a line is read alike. -/
theorem readAlike_of_plain {i : Nat} {line : Text} {ps : List Piece} (h : piecesIn? (readAs i line) = some ps)
    (hplain : hasPlainTags (codeOf line) = true) (hone : (findTags (codeOf line)).length ≤ 1) : ReadAlike line ps := by
  have hids := identifiers_of_piecesIn? h hplain
  refine ⟨fun htag => ?_, fun m htag => ?_⟩
  · rw [hids, findTags_codeOf_eq_nil_iff.2 htag]
    rfl
  · obtain ⟨others, hothers⟩ : ∃ others, findTags (codeOf line) = m :: others := List.head?_eq_some_iff.1 htag
    rw [hothers] at hids hone
    have hnil : others = [] := List.length_eq_zero_iff.1 (Nat.le_zero.1 (Nat.le_of_succ_le_succ hone))
    rw [hnil] at hids
    -- what is found is not empty and holds nothing but the one tag
    obtain ⟨identifier, hmem⟩ := List.exists_mem_of_ne_nil (foundIn ps) fun hfound => by
      rw [foundIn_eq_nil_iff.1 hfound] at hids
      cases hids
    have hsame := foundIn_subset ps hmem
    rw [hids] at hsame
    rwa [← List.mem_singleton.1 hsame]

/-- On each line of a story, codec and run agree exactly if the line is read alike; they do on lines with one plain tag or none. -/
theorem agreesWith_iff {library : Library} {root t : Text} {story : Story}
    (h : Story.parse library root t = .ok story) {g : LineGroup}
    (hg : g ∈ LineGroup.ofCandidates (Candidate.ofTree story.root)) :
    ∃ file u i line ps, SourceText library root t file u ∧ (lines u)[i]? = some line ∧
      g.first.place = ⟨some file, ((1 + i : Nat) : Int)⟩ ∧ piecesIn? (readAs i line) = some ps ∧
      (g.AgreesWith line ↔ ReadAlike line ps) ∧
      (hasPlainTags (codeOf line) = true → (findTags (codeOf line)).length ≤ 1 → g.AgreesWith line) := by
  have hgathered := LineGroup.gathered_ofCandidates (Candidate.ofTree story.root)
  obtain ⟨file, u, i, l, ps, hsource, hl, hfirst⟩ :=
    standsIn_of_parse h (hgathered.mem g hg g.first List.mem_cons_self)
  obtain ⟨line, hline, rfl⟩ := getElem?_lines_dropMarks.1 hl
  have hfeed : .char '\n' ∉ ps :=
    lineFeed_not_mem_of_piecesIn? hfirst.pieces (lineFeed_not_mem_of_mem_lines (List.mem_of_getElem? hline))
  have hfound : ∀ {identifier}, identifier ∈ g.identifiers ↔ identifier ∈ foundIn ps :=
    StandsOn.mem_identifiers_iff h hg hsource hl hfirst hfeed
  have hempty : g.identifiers = [] ↔ ps.filterMap Piece.identifier? = [] := by
    rw [← foundIn_eq_nil_iff, List.eq_nil_iff_forall_not_mem, List.eq_nil_iff_forall_not_mem]
    exact forall_congr' fun identifier => not_congr hfound
  have hiff : g.AgreesWith line ↔ ReadAlike line ps := by
    unfold LineGroup.AgreesWith ReadAlike
    cases htag : codeTag? line with
    | none => simp [hempty]
    | some m =>
      have hne : m.identifier ∈ g.identifiers → g.identifiers ≠ [] := List.ne_nil_of_mem
      constructor
      · rintro ⟨-, hmem⟩
        exact ⟨nofun, fun n hn => hfound.1 (hmem n hn)⟩
      · rintro ⟨-, hmem⟩
        have hids := hfound.2 (hmem m rfl)
        exact ⟨⟨fun _ => rfl, fun _ => hne hids⟩, fun n hn => hfound.2 (hmem n hn)⟩
  exact ⟨file, u, i, line, ps, hsource, hline, hfirst.place, hfirst.pieces, hiff,
    fun hplain hone => hiff.2 (readAlike_of_plain hfirst.pieces hplain hone)⟩

/-- A choice with a plain tag, and another tag in its comment. -/
def taggedChoice : Text := "* Go [on] #id:AAAA // not #id:BBBB".toList

theorem agreesWith_iff_taggedChoice : ∃ story g, Story.parse {} mainFile taggedChoice = .ok story ∧
    g ∈ LineGroup.ofCandidates (Candidate.ofTree story.root) ∧
    hasPlainTags (codeOf taggedChoice) = true ∧ (findTags (codeOf taggedChoice)).length ≤ 1 ∧
    g.AgreesWith taggedChoice := by
  have hmap : (Story.parse {} mainFile taggedChoice).toOption.map (fun story =>
      (LineGroup.ofCandidates (Candidate.ofTree story.root)).length) = some 1 := by decide +kernel
  obtain ⟨story, hparse, hlength⟩ := exists_parse_of_map hmap
  obtain ⟨g, hg⟩ := List.exists_mem_of_length_pos (hlength ▸ Nat.one_pos)
  obtain ⟨file, u, i, line, ps, hsource, hline, hplace, hpieces, -, hagrees⟩ := agreesWith_iff hparse hg
  have hone : ∀ file u, SourceText {} mainFile taggedChoice file u → u = taggedChoice := fun file u hsource => by
    unfold SourceText at hsource
    split at hsource
    · exact hsource
    · cases hsource
  obtain rfl := hone file u hsource
  have hlines : lines taggedChoice = [taggedChoice] := by decide +kernel
  rw [hlines] at hline
  obtain rfl := List.mem_singleton.1 (List.mem_of_getElem? hline)
  exact ⟨story, g, hparse, hg, by decide +kernel, by decide +kernel, hagrees (by decide +kernel) (by decide +kernel)⟩

/-- A tag in an interpolation is one for the codec only, so the line counts as untagged for a run. -/
theorem not_agreesWith_interpolatedTag : ∃ story g, Story.parse {} mainFile "x \x7b#id:AAAA\x7d".toList = .ok story ∧
    g ∈ LineGroup.ofCandidates (Candidate.ofTree story.root) ∧ g.first.place = ⟨some mainFile, 1⟩ ∧
    lines "x \x7b#id:AAAA\x7d".toList = ["x \x7b#id:AAAA\x7d".toList] ∧
    (codeTag? "x \x7b#id:AAAA\x7d".toList).map TagMatch.identifier = some "AAAA".toList ∧ g.identifiers = [] ∧
    ¬ g.AgreesWith "x \x7b#id:AAAA\x7d".toList := by
  have hmap : (Story.parse {} mainFile "x \x7b#id:AAAA\x7d".toList).toOption.map (fun story =>
      (LineGroup.ofCandidates (Candidate.ofTree story.root)).map fun g =>
        (g.first.place, g.identifiers, decide (g.AgreesWith "x \x7b#id:AAAA\x7d".toList))) =
      some [(⟨some mainFile, 1⟩, [], false)] := by decide +kernel
  obtain ⟨story, hparse, hgroups⟩ := exists_parse_of_map hmap
  obtain ⟨g, hg, hvalues⟩ := List.mem_map.1 (hgroups ▸ List.mem_singleton_self _)
  obtain ⟨hplace, hvalues⟩ := Prod.mk.inj hvalues
  obtain ⟨hids, hagrees⟩ := Prod.mk.inj hvalues
  exact ⟨story, g, hparse, hg, hplace, by decide +kernel, by decide +kernel, hids, of_decide_eq_false hagrees⟩

end LineTags
