import LineTags.Extraction
import LineTags.Proofs.Tag.Insertion

/-!
# Scripts put together and taken apart

Putting a script together changes its lines one by one, and so does taking it apart, so all is decided on single lines: a line that takes a tag comes back as it was, with the identifier it got, and any other line without a tag comes back as it was and without one. The main statement, `extract_reconstruct`, is that the clean text comes back character by character, together with the entries that found a line to stand on.
-/

namespace LineTags

open Text

/-- A line taken apart as it is. -/
def partsOf (line : Text) : Text × Option Text :=
  match codeTag? line with
  | some m => (m.eraseFrom line, some m.identifier)
  | none => (line, none)

theorem extract_eq (script : Text) :
    extract script =
      ⟨unlines ((lines script).map fun line => (partsOf line).1), Extraction.numbered 1 ((lines script).map partsOf)⟩ := by
  rw [extract, List.map_map]
  rfl

theorem partsOf_of_codeTag?_eq_none {line : Text} (htag : codeTag? line = none) : partsOf line = (line, none) := by
  rw [partsOf, htag]

theorem partsOf_insertTag {line identifier : Text} (hline : takesTag line) (hid : isIdentifier identifier) :
    partsOf (insertTag line identifier) = (line, some identifier) := by
  simp only [takesTag, Bool.and_eq_true, Option.isNone_iff_eq_none, Bool.not_eq_true'] at hline
  obtain ⟨m, hm, rfl, herase⟩ := findTags_codeOf_insertTag hline.2 hline.1 hid
  have htag : codeTag? (insertTag line m.identifier) = some m := by rw [codeTag?, firstTag?, hm, List.head?_cons]
  rw [partsOf, htag]
  dsimp only
  rw [herase]

/-- The line that comes of a clean one and the entry for it, if there is one. -/
def tagged (line : Text) : Option LineId → Text
  | some entry => if takesTag line then insertTag line entry.identifier else line
  | none => line

theorem tagged_of_not_takesTag {line : Text} (h : ¬takesTag line) (label? : Option LineId) : tagged line label? = line := by
  cases label? with
  | none => rfl
  | some entry => rw [tagged, if_neg h]

/-- The entry that decides about a line: the first that names it. -/
def entryFor? (ids : List LineId) (number : Nat) : Option LineId := ids.find? (·.line == (number : Int))

theorem reconstruct_eq (clean : Text) (ids : List LineId) :
    reconstruct clean ids = unlines (((lines clean).zipIdx 1).map fun (line, number) => tagged line (entryFor? ids number)) := by
  rw [reconstruct, List.mapIdx_eq_zipIdx_map, List.zipIdx_succ, List.map_map]
  rfl

theorem map_entryFor? (ids : List LineId) (number : Nat) :
    ((entryFor? ids number).map LineId.identifier).map (fun identifier => (⟨number, identifier⟩ : LineId)) =
      entryFor? ids number := by
  rw [Option.map_map]
  cases hentry : entryFor? ids number with
  | none => rfl
  | some entry =>
    have hline : entry.line = number := by simpa using List.find?_some hentry
    rw [Option.map_some, Option.some.injEq, Function.comp_apply, ← hline]

theorem takesTag_iff {line : Text} : takesTag line ↔ codeTag? line = none ∧ hasNoCode line = false := by
  simp [takesTag]

theorem lineFeed_not_mem_insertTag {line identifier : Text} (hline : '\n' ∉ line) (hword : IsWord identifier) :
    '\n' ∉ insertTag line identifier := by
  by_cases hcode : hasNoCode line
  · have : insertTag line identifier = line := by
      rw [hasNoCode] at hcode
      simp [insertTag, hcode]
    rwa [this]
  · obtain ⟨before, behind, hcut, -, -, -, hinsert⟩ := exists_insertTag_eq (Bool.of_not_eq_true hcode) identifier
    have hparts : '\n' ∉ before ++ behind ++ commentOf line := by
      rwa [← hcut, codeOf_append_commentOf]
    have htag : '\n' ∉ ' ' :: formatTag identifier := by
      intro hmem
      simp only [formatTag, tagMark, List.cons_append, List.nil_append, List.mem_cons] at hmem
      rcases hmem with h | h | h | h | h | hmem
      · exact absurd h (by decide)
      · exact absurd h (by decide)
      · exact absurd h (by decide)
      · exact absurd h (by decide)
      · exact absurd h (by decide)
      · exact hword.not_mem (by decide) hmem
    rw [hinsert]
    simp only [List.mem_append, not_or] at hparts ⊢
    exact ⟨hparts.1.1, ⟨htag, hparts.1.2⟩, hparts.2⟩

theorem lineFeed_not_mem_tagged {line : Text} {label? : Option LineId} (hline : '\n' ∉ line)
    (hentry : ∀ entry ∈ label?, IsWord entry.identifier) : '\n' ∉ tagged line label? := by
  cases label? with
  | none => exact hline
  | some entry =>
    rw [tagged]
    split
    · exact lineFeed_not_mem_insertTag hline (hentry entry rfl)
    · exact hline

theorem partsOf_tagged {line : Text} {label? : Option LineId} (htag : codeTag? line = none)
    (hentry : ∀ entry ∈ label?, isIdentifier entry.identifier) :
    partsOf (tagged line label?) = (line, if hasNoCode line then none else label?.map LineId.identifier) := by
  cases label? with
  | none => rw [tagged, partsOf_of_codeTag?_eq_none htag, Option.map_none, ite_self]
  | some entry =>
    rw [tagged]
    by_cases hcode : hasNoCode line
    · rw [if_neg (fun h => by simp [(takesTag_iff.1 h).2] at hcode), if_pos hcode, partsOf_of_codeTag?_eq_none htag]
    · have htakes : takesTag line := takesTag_iff.2 ⟨htag, Bool.of_not_eq_true hcode⟩
      rw [if_pos htakes, if_neg hcode, partsOf_insertTag htakes (hentry entry rfl), Option.map_some]

theorem numbered_map_zipIdx (start : Nat) (ls : List Text) (identifier? : Text → Nat → Option Text) :
    Extraction.numbered start ((ls.zipIdx start).map fun (line, number) => (line, identifier? line number)) =
      (ls.zipIdx start).filterMap fun (line, number) => (identifier? line number).map fun i => ⟨number, i⟩ := by
  induction ls generalizing start with
  | nil => rfl
  | cons line ls ih =>
    rw [List.zipIdx_cons, List.map_cons, List.filterMap_cons]
    dsimp only
    cases identifier? line start with
    | none => exact ih (start + 1)
    | some i => exact congrArg _ (ih (start + 1))

/-- Taking a script apart undoes putting it together. -/
theorem extract_reconstruct {clean : Text} {ids : List LineId} (hclean : ∀ line ∈ lines clean, codeTag? line = none)
    (hids : ∀ entry ∈ ids, isIdentifier entry.identifier) :
    extract (reconstruct clean ids) =
      ⟨clean, ((lines clean).zipIdx 1).filterMap fun (line, number) =>
        if hasNoCode line then none else ids.find? (·.line == (number : Int))⟩ := by
  have hentry : ∀ number, ∀ entry ∈ entryFor? ids number, isIdentifier entry.identifier :=
    fun number entry hmem => hids entry (List.mem_of_find?_eq_some hmem)
  have hmem : ∀ l ∈ (lines clean).zipIdx 1, l.1 ∈ lines clean := fun l hl => List.fst_mem_of_mem_zipIdx hl
  have hlines : lines (reconstruct clean ids) =
      ((lines clean).zipIdx 1).map fun (line, number) => tagged line (entryFor? ids number) := by
    rw [reconstruct_eq]
    refine lines_unlines ?_ fun line hline => ?_
    · rw [Ne, List.map_eq_nil_iff, List.zipIdx_eq_nil_iff]
      exact lines_ne_nil clean
    · obtain ⟨l, hl, rfl⟩ := List.mem_map.1 hline
      exact lineFeed_not_mem_tagged (lineFeed_not_mem_of_mem_lines (hmem l hl)) fun entry hentry' =>
        isWord_of_isIdentifier (hentry l.2 entry hentry')
  have hparts : (lines (reconstruct clean ids)).map partsOf = ((lines clean).zipIdx 1).map fun (line, number) =>
      (line, if hasNoCode line then none else (entryFor? ids number).map LineId.identifier) := by
    rw [hlines, List.map_map]
    exact List.map_congr_left fun l hl => partsOf_tagged (hclean l.1 (hmem l hl)) (hentry l.2)
  have htexts : (lines (reconstruct clean ids)).map (fun line => (partsOf line).1) = lines clean := by
    have := congrArg (List.map Prod.fst) hparts
    rw [List.map_map, List.map_map] at this
    exact this.trans (List.zipIdx_map_fst 1 (lines clean))
  have hnumbered := numbered_map_zipIdx 1 (lines clean) fun line number =>
    if hasNoCode line then none else (entryFor? ids number).map LineId.identifier
  rw [extract_eq, htexts, hparts, unlines_lines, hnumbered]
  congr 2
  funext l
  dsimp only
  split
  · rfl
  · exact map_entryFor? ids l.2

/-- A script whose lines have a quote that is never closed, a bracketed choice with a comment, and a backslash at the end. -/
theorem extract_reconstruct_mixed :
    let clean := "\"Go// on\n* [Run \\]  ] away // \"now\"\n\n  end\\  \r".toList
    let ids : List LineId := [⟨4, "K_AB12".toList⟩, ⟨2, "ZZ99".toList⟩, ⟨2, "ZZ98".toList⟩, ⟨3, "ZZ97".toList⟩, ⟨9, "ZZ96".toList⟩]
    (∀ line ∈ lines clean, codeTag? line = none) ∧ (∀ entry ∈ ids, isIdentifier entry.identifier) ∧
      extract (reconstruct clean ids) = ⟨clean, [⟨2, "ZZ99".toList⟩, ⟨4, "K_AB12".toList⟩]⟩ := by
  intro clean ids
  have hclean : ∀ line ∈ lines clean, codeTag? line = none := by decide
  have hids : ∀ entry ∈ ids, isIdentifier entry.identifier := by decide
  refine ⟨hclean, hids, ?_⟩
  rw [extract_reconstruct hclean hids]
  decide

end LineTags
