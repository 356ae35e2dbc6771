import LineTags.Proofs.Script.RoundTrip

/-!
# What becomes of the tags of a script that is opened and saved

Taking a script apart cuts one tag out of a line, the first, and putting it together gives the tag back only to a line that takes one. So a tag is lost where the line without it has no code left, because nothing else stood in the code or because what stood on both sides of the tag opens a comment, and it makes room for another where the line without it still has a managed tag: one that stood behind it, or one that the cut joined together. On every other line the tag comes back. The identifiers of a script are the same afterwards exactly when no line of the first two kinds lost its own.
-/

namespace LineTags

open Text

theorem isIdentifier_of_tagAtStart? {t identifier : Text} (h : tagAtStart? t = some identifier) :
    isIdentifier identifier := by
  obtain ⟨r, -, hrun⟩ := Option.bind_eq_some_iff.1 h
  dsimp only at hrun
  split at hrun
  · next hid =>
    rw [← Option.some.inj hrun]
    exact hid
  · cases hrun

theorem isIdentifier_of_mem_tagsFrom {column : Nat} {t : Text} {m : TagMatch} (hm : m ∈ tagsFrom column t) :
    isIdentifier m.identifier := by
  induction t generalizing column with
  | nil => cases hm
  | cons c t ih =>
    rw [tagsFrom] at hm
    split at hm
    · next identifier hstart =>
      rcases List.mem_cons.1 hm with rfl | hm
      · exact isIdentifier_of_tagAtStart? hstart
      · exact ih hm
    · exact ih hm

theorem isIdentifier_of_codeTag? {line : Text} {m : TagMatch} (hm : codeTag? line = some m) : isIdentifier m.identifier :=
  isIdentifier_of_mem_tagsFrom (List.mem_of_mem_head? hm)

/-- A line with a managed tag has code: the tag itself. -/
theorem hasNoCode_of_codeTag? {line : Text} {m : TagMatch} (hm : codeTag? line = some m) : hasNoCode line = false := by
  refine Bool.eq_false_iff.2 fun hblank => ?_
  have hhash : '#' ∉ codeOf line := fun hmem => absurd (isBlankText_iff.1 hblank _ hmem) (by decide)
  rw [codeTag?, firstTag?, findTags, tagsFrom_of_not_mem 0 hhash] at hm
  cases hm

theorem eraseFrom_subset (m : TagMatch) (line : Text) : ∀ c ∈ m.eraseFrom line, c ∈ line := by
  intro c hc
  rw [TagMatch.eraseFrom] at hc
  rcases List.mem_append.1 hc with hc | hc
  · split at hc
    · exact List.mem_of_mem_take ((List.dropLast_subset _) hc)
    · exact List.mem_of_mem_take hc
  · exact List.mem_of_mem_drop hc

theorem lineFeed_not_mem_partsOf {line : Text} (hline : '\n' ∉ line) : '\n' ∉ (partsOf line).1 := by
  rw [partsOf]
  split
  · exact fun hmem => hline (eraseFrom_subset _ line _ hmem)
  · exact hline

theorem isIdentifier_of_mem_partsOf {line identifier : Text} (h : identifier ∈ (partsOf line).2) : isIdentifier identifier := by
  rw [partsOf] at h
  split at h
  · next m hm =>
    rw [← Option.some.inj h]
    exact isIdentifier_of_codeTag? hm
  · cases h

/-! ### The lines of a script that is put together -/

theorem lines_reconstruct {clean : Text} {ids : List LineId} (hids : ∀ entry ∈ ids, IsWord entry.identifier) :
    lines (reconstruct clean ids) =
      ((lines clean).zipIdx 1).map fun (line, number) => tagged line (entryFor? ids number) := by
  rw [reconstruct_eq]
  refine lines_unlines ?_ fun line hline => ?_
  · rw [Ne, List.map_eq_nil_iff, List.zipIdx_eq_nil_iff]
    exact lines_ne_nil clean
  · obtain ⟨l, hl, rfl⟩ := List.mem_map.1 hline
    exact lineFeed_not_mem_tagged (lineFeed_not_mem_of_mem_lines (List.fst_mem_of_mem_zipIdx hl))
      fun entry hmem => hids entry (List.mem_of_find?_eq_some hmem)

theorem reconstruct_nil (clean : Text) : reconstruct clean [] = clean := by
  have hsame : ((lines clean).zipIdx 1).map (fun l => tagged l.1 (entryFor? [] l.2)) = lines clean :=
    List.zipIdx_map_fst 1 (lines clean)
  exact (reconstruct_eq clean []).trans ((congrArg unlines hsame).trans (unlines_lines clean))

theorem lines_clean_extract (script : Text) :
    lines (extract script).clean = (lines script).map fun line => (partsOf line).1 := by
  rw [extract_eq]
  refine lines_unlines ?_ fun line hline => ?_
  · rw [Ne, List.map_eq_nil_iff]
    exact lines_ne_nil script
  · obtain ⟨l, hl, rfl⟩ := List.mem_map.1 hline
    exact lineFeed_not_mem_partsOf (lineFeed_not_mem_of_mem_lines hl)

theorem mem_numbered {start : Nat} {parts : List (Text × Option Text)} {entry : LineId} :
    entry ∈ Extraction.numbered start parts ↔
      ∃ k part, parts[k]? = some part ∧ entry.line = (start + k : Nat) ∧ part.2 = some entry.identifier := by
  induction parts generalizing start with
  | nil => simp [Extraction.numbered]
  | cons part parts ih =>
    have hrest : entry ∈ Extraction.numbered (start + 1) parts ↔
        ∃ k p, (part :: parts)[k + 1]? = some p ∧ entry.line = (start + (k + 1) : Nat) ∧ p.2 = some entry.identifier := by
      rw [ih]
      refine exists_congr fun k => exists_congr fun p => ?_
      rw [List.getElem?_cons_succ, Nat.add_assoc, Nat.add_comm 1 k]
    have hsplit : (∃ k p, (part :: parts)[k]? = some p ∧ entry.line = (start + k : Nat) ∧ p.2 = some entry.identifier) ↔
        (entry.line = start ∧ part.2 = some entry.identifier) ∨ entry ∈ Extraction.numbered (start + 1) parts := by
      rw [hrest]
      constructor
      · rintro ⟨_ | k, p, hp, hline, hid⟩
        · obtain rfl : part = p := by simpa using hp
          exact .inl ⟨hline, hid⟩
        · exact .inr ⟨k, p, hp, hline, hid⟩
      · rintro (⟨hline, hid⟩ | ⟨k, p, hp, hline, hid⟩)
        · exact ⟨0, part, rfl, hline, hid⟩
        · exact ⟨k + 1, p, hp, hline, hid⟩
    rw [hsplit]
    obtain ⟨text, _ | identifier⟩ := part
    · simp [Extraction.numbered]
    · obtain ⟨line, i⟩ := entry
      simp [Extraction.numbered, eq_comm]

theorem isIdentifier_of_mem_ids_extract {script : Text} {entry : LineId} (hmem : entry ∈ (extract script).ids) :
    isIdentifier entry.identifier := by
  rw [extract_eq] at hmem
  obtain ⟨k, part, hpart, -, hid⟩ := mem_numbered.1 hmem
  rw [List.getElem?_map] at hpart
  obtain ⟨line, -, rfl⟩ := Option.map_eq_some_iff.1 hpart
  exact isIdentifier_of_mem_partsOf hid

theorem entryFor?_eq_none {ids : List LineId} {number : Nat} (h : ∀ entry ∈ ids, entry.line ≠ number) :
    entryFor? ids number = none :=
  List.find?_eq_none.2 fun entry hmem heq => h entry hmem (beq_iff_eq.1 heq)

/-- A line that one entry names gets this entry, wherever in the list it stands. -/
theorem entryFor?_eq_some {ids : List LineId} {entry : LineId} {number : Nat} (hmem : entry ∈ ids)
    (hline : entry.line = number) (hone : ∀ other ∈ ids, other.line = number → other = entry) :
    entryFor? ids number = some entry := by
  cases hfound : entryFor? ids number with
  | none => exact absurd (beq_iff_eq.2 hline) (List.find?_eq_none.1 hfound entry hmem)
  | some other =>
    have hother : other.line = number := by simpa using List.find?_some hfound
    rw [hone other (List.mem_of_find?_eq_some hfound) hother]

/-- What was numbered is known again about each line. -/
theorem entryFor?_numbered {start k : Nat} {parts : List (Text × Option Text)} {part : Text × Option Text}
    (hpart : parts[k]? = some part) :
    entryFor? (Extraction.numbered start parts) (start + k) = part.2.map fun i => ⟨(start + k : Nat), i⟩ := by
  have hsame : ∀ entry ∈ Extraction.numbered start parts, entry.line = (start + k : Nat) → part.2 = some entry.identifier := by
    intro entry hmem hline
    obtain ⟨j, other, hother, hj, hid⟩ := mem_numbered.1 hmem
    obtain rfl : j = k := by omega
    rw [← hid, Option.some.inj (hother.symm.trans hpart)]
  cases hid : part.2 with
  | none =>
    refine entryFor?_eq_none fun entry hmem hline => ?_
    rw [hsame entry hmem hline] at hid
    cases hid
  | some identifier =>
    refine entryFor?_eq_some (mem_numbered.2 ⟨k, part, hpart, rfl, hid⟩) rfl fun other hmem hline => ?_
    obtain ⟨line, i⟩ := other
    obtain rfl : i = identifier := Option.some.inj ((hsame _ hmem hline).symm.trans hid)
    exact congrArg (LineId.mk · i) hline

/-! ### Opening and saving -/

/-- What a line is after its script was taken apart and put together again. -/
def restored (line : Text) : Text :=
  let (rest, identifier?) := partsOf line
  match identifier? with
  | some identifier => if takesTag rest then insertTag rest identifier else rest
  | none => rest

/-- The identifier that a line has after its script was taken apart and put together again: none if it had none, the one that stands first on the line without the tag, if there is one, and the old one on any other line that has code without the tag. -/
def idKept? (line : Text) : Option Text :=
  (codeTag? line).bind fun m =>
    match codeTag? (m.eraseFrom line) with
    | some n => some n.identifier
    | none => if hasNoCode (m.eraseFrom line) then none else some m.identifier

theorem lines_reconstruct_extract (script : Text) :
    lines (reconstruct (extract script).clean (extract script).ids) = (lines script).map restored := by
  rw [lines_reconstruct fun entry hmem => isWord_of_isIdentifier (isIdentifier_of_mem_ids_extract hmem), lines_clean_extract,
    extract_eq]
  refine List.ext_getElem? fun k => ?_
  rw [List.getElem?_map, List.getElem?_zipIdx, List.getElem?_map, List.getElem?_map]
  cases hline : (lines script)[k]? with
  | none => rfl
  | some line =>
    have hpart : ((lines script).map partsOf)[k]? = some (partsOf line) := by rw [List.getElem?_map, hline, Option.map_some]
    simp only [Option.map_some, entryFor?_numbered hpart, restored]
    cases (partsOf line).2 <;> rfl

theorem snd_partsOf (line : Text) : (partsOf line).2 = (codeTag? line).map TagMatch.identifier := by
  rw [partsOf]
  cases codeTag? line <;> rfl

theorem idOf_restored (line : Text) : (codeTag? (restored line)).map TagMatch.identifier = idKept? line := by
  cases htag : codeTag? line with
  | none =>
    have hsame : restored line = line := by rw [restored, partsOf_of_codeTag?_eq_none htag]
    rw [hsame, idKept?, htag, Option.bind_none, Option.map_none]
  | some m =>
    have hparts : partsOf line = (m.eraseFrom line, some m.identifier) := by rw [partsOf, htag]
    rw [restored, hparts, idKept?, htag, Option.bind_some]
    dsimp only
    cases hrest : codeTag? (m.eraseFrom line) with
    | some n =>
      have hrefused : ¬takesTag (m.eraseFrom line) := fun htakes => by simp [(takesTag_iff.1 htakes).1] at hrest
      rw [if_neg hrefused, hrest, Option.map_some]
    | none =>
      cases hcode : hasNoCode (m.eraseFrom line) with
      | true =>
        have hrefused : ¬takesTag (m.eraseFrom line) := fun htakes => by simp [(takesTag_iff.1 htakes).2] at hcode
        rw [if_neg hrefused, hrest, Option.map_none, if_pos rfl]
      | false =>
        have htakes : takesTag (m.eraseFrom line) := takesTag_iff.2 ⟨hrest, hcode⟩
        rw [if_pos htakes, ← snd_partsOf, partsOf_insertTag htakes (isIdentifier_of_codeTag? htag), if_neg Bool.false_ne_true]

/-- A line keeps its identifier if its code is not all cut away with the tag, and if no managed tag with another identifier is first then. -/
theorem idKept?_eq_iff {line : Text} {m : TagMatch} (htag : codeTag? line = some m) :
    idKept? line = some m.identifier ↔
      hasNoCode (m.eraseFrom line) = false ∧ ∀ n ∈ codeTag? (m.eraseFrom line), n.identifier = m.identifier := by
  rw [idKept?, htag, Option.bind_some]
  cases hrest : codeTag? (m.eraseFrom line) with
  | some n => simp [hasNoCode_of_codeTag? hrest]
  | none => simp

/-- Two readings of a list agree as wholes only if they agree on each member, when the first reads nothing where the second does. -/
theorem filterMap_eq_filterMap_iff {α β : Type} {f g : α → Option β} {l : List α} (hle : ∀ x ∈ l, (f x).isSome → (g x).isSome) :
    l.filterMap f = l.filterMap g ↔ ∀ x ∈ l, f x = g x := by
  refine ⟨fun heq => ?_, List.filterMap_congr⟩
  induction l with
  | nil => simp
  | cons a l ih =>
    have hlength : (l.filterMap f).length ≤ (l.filterMap g).length := by
      rw [List.length_filterMap_eq_countP, List.length_filterMap_eq_countP]
      exact List.countP_mono_left fun x hx => hle x (List.mem_cons_of_mem a hx)
    have hrest := ih fun x hx => hle x (List.mem_cons_of_mem a hx)
    rw [List.filterMap_cons, List.filterMap_cons] at heq
    have hhead := hle a List.mem_cons_self
    rw [List.forall_mem_cons]
    cases hf : f a with
    | none =>
      cases hg : g a with
      | none => exact ⟨rfl, hrest (by simpa only [hf, hg] using heq)⟩
      | some b =>
        have := congrArg List.length heq
        simp only [hf, hg, List.length_cons] at this
        omega
    | some b =>
      cases hg : g a with
      | none => simp [hf, hg] at hhead
      | some c =>
        simp only [hf, hg, List.cons.injEq] at heq
        exact ⟨congrArg some heq.1, hrest heq.2⟩

/-- Opening a script and saving it unedited: what identifier each line has afterwards, and when the script has the same identifiers as before. -/
theorem idsIn_reconstruct_extract (script : Text) :
    let back := reconstruct (extract script).clean (extract script).ids
    ((lines back).map fun line => (codeTag? line).map TagMatch.identifier) = (lines script).map idKept? ∧
      (idsIn back = idsIn script ↔
        ∀ line ∈ lines script, ∀ m ∈ codeTag? line,
          hasNoCode (m.eraseFrom line) = false ∧ ∀ n ∈ codeTag? (m.eraseFrom line), n.identifier = m.identifier) := by
  intro back
  have hlines : (lines back).map (fun line => (codeTag? line).map TagMatch.identifier) = (lines script).map idKept? := by
    rw [lines_reconstruct_extract, List.map_map]
    exact List.map_congr_left fun line _ => idOf_restored line
  have hback : idsIn back = (lines script).filterMap idKept? := by
    have := congrArg (List.filterMap id) hlines
    rwa [List.filterMap_map, List.filterMap_map] at this
  have hsome : ∀ line ∈ lines script, (idKept? line).isSome → ((codeTag? line).map TagMatch.identifier).isSome := by
    intro line _ hkept
    rw [idKept?] at hkept
    rw [Option.isSome_map]
    exact Option.isSome_of_isSome_bind hkept
  refine ⟨hlines, ?_⟩
  rw [hback, idsIn, filterMap_eq_filterMap_iff hsome]
  refine forall₂_congr fun line _ => ?_
  cases htag : codeTag? line with
  | none => simp [idKept?, htag]
  | some m =>
    rw [Option.map_some, idKept?_eq_iff htag]
    simp

/-- A second tag on a line takes the place of the first. -/
theorem idsIn_reconstruct_twoTags :
    let script := "x #id:AAAA #id:BBBB".toList
    idsIn (reconstruct (extract script).clean (extract script).ids) ≠ idsIn script := by decide

/-- A line with nothing but its tag loses it, and so does a line whose slashes come together. -/
example : (lines "#id:AAAA\n/ #id:BBBB/ x\ny #id:CCCC // z".toList).map idKept? = [none, none, some "CCCC".toList] := by decide

end LineTags
