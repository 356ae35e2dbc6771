import LineTags.Proofs.Script.Modes
import LineTags.Proofs.Tag.Repair

/-!
# Repairing what was repaired

The repair puts a space before every mark but one that touches the mark before it, when that one has just got its space: the pass takes the character before a mark and the mark itself together, so the colon that ends a mark is not seen again. A line in which two marks touch behind a character that is no blank is therefore repaired only in part, and repairing it again does more. Every other line is settled by one repair, and every line by two.

Words give no such trouble. What stands in front of the space of a word is an identifier or ends in the code at which the word was cut, and the second pass leaves both alone.
-/

namespace LineTags

open Text

variable {s t u word rest line : Text} {c : Char} {r : Text}

/-- Every mark stands at the start of the text or behind a blank. -/
def MarksApart (t : Text) : Prop := ∀ c, c :: tagMark <:+: t → isBlank c = true

/-- Two marks touch, and a character that is no blank stands before them. -/
def Crowded (t : Text) : Prop := ∃ c, isBlank c = false ∧ c :: (tagMark ++ tagMark) <:+: t

theorem space_not_mem_tagMark : ' ' ∉ tagMark := by
  decide

theorem space_not_mem_marks : ' ' ∉ tagMark ++ tagMark := by
  decide

/-! ## The characters before marks -/

theorem marksApart_nil : MarksApart [] := by
  intro c h
  simp at h

theorem marksApart_cons : MarksApart (c :: r) ↔ (tagMark <+: r → isBlank c = true) ∧ MarksApart r := by
  constructor
  · intro h
    refine ⟨fun hmark => ?_, fun d hd => ?_⟩
    · apply h c
      exact (List.cons_prefix_cons.2 ⟨rfl, hmark⟩).isInfix
    · apply h d
      exact List.infix_cons_iff.2 (.inr hd)
  · intro h d hd
    rcases List.infix_cons_iff.1 hd with hd | hd
    · obtain ⟨rfl, hmark⟩ := List.cons_prefix_cons.1 hd
      exact h.1 hmark
    · exact h.2 d hd

theorem crowded_cons : Crowded (c :: r) ↔ (isBlank c = false ∧ tagMark ++ tagMark <+: r) ∨ Crowded r := by
  constructor
  · rintro ⟨d, hdark, hd⟩
    rcases List.infix_cons_iff.1 hd with hd | hd
    · obtain ⟨rfl, hmarks⟩ := List.cons_prefix_cons.1 hd
      exact .inl ⟨hdark, hmarks⟩
    · exact .inr ⟨d, hdark, hd⟩
  · intro h
    rcases h with ⟨hdark, hmarks⟩ | ⟨d, hdark, hd⟩
    · exact ⟨c, hdark, (List.cons_prefix_cons.2 ⟨rfl, hmarks⟩).isInfix⟩
    · exact ⟨d, hdark, List.infix_cons_iff.2 (.inr hd)⟩

/-- The colon of a mark is no blank. -/
theorem marksApart_mark : MarksApart (tagMark ++ r) ↔ ¬tagMark <+: r ∧ MarksApart r := by
  have hcolon : isBlank ':' = false := by decide
  simp [tagMark, marksApart_cons, List.cons_prefix_cons, hcolon]

theorem crowded_mark : Crowded (tagMark ++ r) ↔ tagMark ++ tagMark <+: r ∨ Crowded r := by
  have hcolon : isBlank ':' = false := by decide
  simp [tagMark, crowded_cons, List.cons_prefix_cons, hcolon]

/-- The second of two marks that touch has the colon of the first one before it. -/
theorem MarksApart.not_touching (h : MarksApart t) : ¬tagMark ++ tagMark <:+: t := by
  intro hmarks
  have hcolon : ':' :: tagMark <:+: tagMark ++ tagMark := by decide
  exact absurd (h ':' (hcolon.trans hmarks)) (by decide)

theorem SetApart.marksApart (h : SetApart s t) (hs : MarksApart s) : MarksApart t := by
  intro c hc
  by_contra hdark
  have hspace : ' ' ∉ c :: tagMark := by
    simp only [List.mem_cons, not_or]
    refine ⟨?_, space_not_mem_tagMark⟩
    rintro rfl
    exact hdark (by decide)
  exact hdark (hs c (h.isInfix hspace hc))

theorem SetApart.not_crowded (h : SetApart s t) (hs : ¬Crowded s) : ¬Crowded t := by
  rintro ⟨c, hdark, hc⟩
  apply hs
  refine ⟨c, hdark, h.isInfix ?_ hc⟩
  simp only [List.mem_cons, not_or]
  refine ⟨?_, space_not_mem_marks⟩
  rintro rfl
  exact absurd hdark (by decide)

/-! ## The pass over the marks -/

theorem spaceMarks_mark (r : Text) : spaceMarks (tagMark ++ r) = '#' :: 'i' :: 'd' :: spaceMarks (':' :: r) := rfl

theorem isPrefix_spaceMarks_iff : tagMark <+: spaceMarks t ↔ tagMark <+: t := by
  constructor
  · exact fun h => (setApart_spaceMarks t).isPrefix space_not_mem_tagMark h
  · rintro ⟨r, rfl⟩
    obtain ⟨u, hu⟩ := List.head?_eq_some_iff.1 (setApart_spaceMarks (':' :: r)).head?_eq
    rw [spaceMarks_mark, hu]
    exact ⟨u, rfl⟩

/-- No two marks touch at the start of what comes out. -/
theorem not_isPrefix_spaceMarks : ¬tagMark ++ tagMark <+: spaceMarks t := by
  intro h
  obtain ⟨r, rfl⟩ := (setApart_spaceMarks t).isPrefix space_not_mem_marks h
  have hspace : spaceMarks (tagMark ++ tagMark ++ r) = tagMark ++ ' ' :: tagMark ++ spaceMarks r := rfl
  rw [hspace] at h
  simp [tagMark] at h

theorem marksApart_spaceMarks (h : ¬Crowded t) : MarksApart (spaceMarks t) := by
  fun_induction spaceMarks t with
  | case1 => exact marksApart_nil
  | case2 c r hblank ih =>
    rw [crowded_cons, not_or] at h
    exact marksApart_cons.2 ⟨fun _ => hblank, ih h.2⟩
  | case3 c r hdark ih =>
    have htext : c :: '#' :: 'i' :: 'd' :: ':' :: r = c :: (tagMark ++ r) := rfl
    have hspaced : c :: ' ' :: '#' :: 'i' :: 'd' :: ':' :: spaceMarks r = c :: ' ' :: (tagMark ++ spaceMarks r) := rfl
    rw [htext, crowded_cons, crowded_mark, not_or, not_or, List.prefix_append_right_inj] at h
    obtain ⟨hfirst, -, hrest⟩ := h
    have hmark : ¬tagMark <+: r := fun hmark => hfirst ⟨Bool.eq_false_iff.2 hdark, hmark⟩
    rw [hspaced, marksApart_cons, marksApart_cons, marksApart_mark, isPrefix_spaceMarks_iff]
    refine ⟨fun hstart => ?_, fun _ => by decide, hmark, ih hrest⟩
    exact absurd (List.cons_prefix_cons.1 hstart).1 (by decide)
  | case4 c r hnot ih =>
    rw [crowded_cons, not_or] at h
    refine marksApart_cons.2 ⟨fun hmark => ?_, ih h.2⟩
    obtain ⟨u, rfl⟩ := isPrefix_spaceMarks_iff.1 hmark
    exact absurd rfl (hnot u)

theorem touching_spaceMarks (h : Crowded t) : tagMark ++ tagMark <:+: spaceMarks t := by
  fun_induction spaceMarks t with
  | case1 =>
    obtain ⟨c, -, hc⟩ := h
    simp at hc
  | case2 c r hblank ih =>
    rcases crowded_cons.1 h with ⟨hdark, -⟩ | h
    · rw [hblank] at hdark
      cases hdark
    · exact List.infix_cons_iff.2 (.inr (ih h))
  | case3 c r hdark ih =>
    have htext : c :: '#' :: 'i' :: 'd' :: ':' :: r = c :: (tagMark ++ r) := rfl
    have hmark : tagMark <+: r ∨ Crowded r := by
      rw [htext, crowded_cons, crowded_mark, List.prefix_append_right_inj] at h
      rcases h with ⟨-, hmark⟩ | hmarks | h
      · exact .inl hmark
      · exact .inl ((List.prefix_append _ _).trans hmarks)
      · exact .inr h
    rcases hmark with hmark | h
    · obtain ⟨u, hu⟩ := isPrefix_spaceMarks_iff.2 hmark
      exact ⟨[c, ' '], u, by simp [← hu, tagMark]⟩
    · exact (ih h).trans ⟨c :: ' ' :: tagMark, [], by simp [tagMark]⟩
  | case4 c r hnot ih =>
    rcases crowded_cons.1 h with ⟨-, ⟨u, rfl⟩⟩ | h
    · exact absurd rfl (hnot (tagMark ++ u))
    · exact List.infix_cons_iff.2 (.inr (ih h))

/-- One pass leaves no line crowded, for of two marks that still touch the first has its space. -/
theorem not_crowded_spaceMarks (t : Text) : ¬Crowded (spaceMarks t) := by
  fun_induction spaceMarks t with
  | case1 =>
    rintro ⟨c, -, hc⟩
    simp at hc
  | case2 c r hblank ih =>
    rw [crowded_cons, not_or]
    exact ⟨fun h => by simp [hblank] at h, ih⟩
  | case3 c r hdark ih =>
    have hspaced : c :: ' ' :: '#' :: 'i' :: 'd' :: ':' :: spaceMarks r = c :: ' ' :: (tagMark ++ spaceMarks r) := rfl
    rw [hspaced, crowded_cons, crowded_cons, crowded_mark, not_or, not_or, not_or]
    refine ⟨fun h => ?_, fun h => absurd h.1 (by decide), not_isPrefix_spaceMarks, ih⟩
    exact absurd (List.cons_prefix_cons.1 h.2).1 (by decide)
  | case4 c r hnot ih =>
    rw [crowded_cons, not_or]
    exact ⟨fun h => not_isPrefix_spaceMarks h.2, ih⟩

/-- The pass has nothing to do exactly if the marks stand apart. -/
theorem spaceMarks_eq_self_iff : spaceMarks t = t ↔ MarksApart t := by
  fun_induction spaceMarks t with
  | case1 => exact iff_of_true rfl marksApart_nil
  | case2 c r hblank ih => simp [marksApart_cons, ← ih, hblank]
  | case3 c r hdark ih =>
    apply iff_of_false
    · simp
    · intro h
      have hmark : tagMark <+: '#' :: 'i' :: 'd' :: ':' :: r := ⟨r, rfl⟩
      exact hdark ((marksApart_cons.1 h).1 hmark)
  | case4 c r hnot ih =>
    have hmark : ¬tagMark <+: r := by
      rintro ⟨u, rfl⟩
      exact hnot u rfl
    simp [marksApart_cons, ← ih, hmark]

/-! ## The pass over the words -/

theorem isPrefix_spaceRuns (h : tagMark <+: t) : tagMark <+: spaceRuns 0 t := by
  obtain ⟨word, rest, rfl, hword, hrest⟩ := exists_formatTag_append h
  rw [spaceRuns_formatTag hword hrest, formatTag, List.append_assoc]
  exact List.prefix_append _ _

/-- Marks that touch do not start in a text without a hash. -/
theorem touching_of_append {w rest : Text} (hw : '#' ∉ w) (h : tagMark ++ tagMark <:+: w ++ rest) :
    tagMark ++ tagMark <:+: rest := by
  induction w with
  | nil => exact h
  | cons d w ih =>
    simp only [List.mem_cons, not_or] at hw
    rcases List.infix_cons_iff.1 h with h | h
    · exact absurd (List.cons_prefix_cons.1 h).1 hw.1
    · exact ih hw.2 h

theorem touching_spaceRuns (h : tagMark ++ tagMark <:+: t) : tagMark ++ tagMark <:+: spaceRuns 0 t := by
  induction t using markInduction with
  | nil => exact h
  | other c r hnone ih =>
    rw [spaceRuns_cons hnone]
    rcases List.infix_cons_iff.1 h with h | h
    · exact absurd ((List.prefix_append _ _).trans h) hnone
    · exact List.infix_cons_iff.2 (.inr (ih h))
  | mark word rest hword hrest ih =>
    rw [spaceRuns_formatTag hword hrest]
    have hhash : '#' ∉ ['i', 'd', ':'] ++ word := by
      simp [hword.not_mem (c := '#') (by decide)]
    rcases List.infix_cons_iff.1 h with h | h
    · -- the second mark stands right behind the first one, whose word is empty
      have hmark : tagMark <+: word ++ rest := by
        simpa [formatTag, tagMark] using h
      cases word with
      | nil =>
        have hcut : spacedWord [] rest = [] := rfl
        obtain ⟨u, hu⟩ := isPrefix_spaceRuns hmark
        rw [List.nil_append] at hu
        rw [hcut, ← hu]
        exact ⟨[], u, by simp [formatTag]⟩
      | cons d word =>
        obtain ⟨rfl, -⟩ := List.cons_prefix_cons.1 hmark
        exact absurd (hword '#' List.mem_cons_self) (by decide)
    · have hrest := ih (touching_of_append hhash h)
      exact hrest.trans (List.suffix_append _ _).isInfix

theorem spaceRuns_spaceRuns (t : Text) : spaceRuns 0 (spaceRuns 0 t) = spaceRuns 0 t := by
  induction t using markInduction with
  | nil => rfl
  | other c r hnone ih =>
    have hnone' : ¬tagMark <+: c :: spaceRuns 0 r := by
      intro hmark
      rw [← spaceRuns_cons hnone] at hmark
      exact hnone ((setApart_spaceRuns _).isPrefix space_not_mem_tagMark hmark)
    rw [spaceRuns_cons hnone, spaceRuns_cons hnone', ih]
  | mark word rest hword hrest ih =>
    have hhead : (spaceRuns 0 rest).head? = rest.head? := (setApart_spaceRuns rest).head?_eq
    have hrest' : EndsIdentifier (spaceRuns 0 rest) := by
      unfold EndsIdentifier StartsIn
      rwa [hhead]
    rw [spaceRuns_formatTag hword hrest, spacedWord]
    cases hcut : runCut? word rest with
    | none =>
      have hcut' : runCut? word (spaceRuns 0 rest) = none := by
        rw [← hcut]
        cases rest with
        | nil => rfl
        | cons c r =>
          obtain ⟨u, hu⟩ := List.head?_eq_some_iff.1 hhead
          rw [hu]
          rfl
      dsimp only
      rw [spaceRuns_formatTag hword hrest', spacedWord, hcut', ih]
    | some n =>
      have hfront : IsWord (word.take n) := fun c hc => hword c (List.mem_of_mem_take hc)
      have hback : '#' ∉ ' ' :: word.drop n := by
        simp only [List.mem_cons, not_or]
        exact ⟨by decide, fun hmem => hword.not_mem (by decide) (List.mem_of_mem_drop hmem)⟩
      have hspace : EndsIdentifier (' ' :: word.drop n ++ spaceRuns 0 rest) := startsIn_cons.2 (by decide)
      have hcut' : runCut? (word.take n) (' ' :: word.drop n ++ spaceRuns 0 rest) = none := runCut?_take hcut _
      have hsplit : formatTag (word.take n ++ ' ' :: word.drop n) ++ spaceRuns 0 rest =
          formatTag (word.take n) ++ (' ' :: word.drop n ++ spaceRuns 0 rest) := by
        simp [formatTag]
      dsimp only
      rw [hsplit, spaceRuns_formatTag hfront hspace, spacedWord, hcut', spaceRuns_append hback, ih]

/-! ## One line repaired twice -/

theorem not_crowded_repairSpacing (line : Text) : ¬Crowded (repairSpacing line) :=
  (setApart_spaceRuns _).not_crowded (not_crowded_spaceMarks line)

theorem marksApart_repairSpacing_iff : MarksApart (repairSpacing line) ↔ ¬Crowded line := by
  constructor
  · intro h hcrowded
    exact h.not_touching (touching_spaceRuns (touching_spaceMarks hcrowded))
  · intro h
    exact (setApart_spaceRuns _).marksApart (marksApart_spaceMarks h)

/-- Nothing is left to do in a repaired line exactly if its marks stand apart. -/
theorem repairSpacing_repairSpacing_iff : repairSpacing (repairSpacing line) = repairSpacing line ↔ ¬Crowded line := by
  rw [← marksApart_repairSpacing_iff, ← spaceMarks_eq_self_iff]
  constructor
  · intro h
    have hlength := (setApart_spaceRuns (spaceMarks (repairSpacing line))).length_le
    apply (setApart_spaceMarks (repairSpacing line)).eq_of_length_le
    rwa [← repairSpacing, h] at hlength
  · intro h
    rw [repairSpacing, h]
    exact spaceRuns_spaceRuns (spaceMarks line)

/-! ## Scripts repaired twice -/

theorem repairLine_repairLine_iff : repairLine (repairLine line) = repairLine line ↔ ¬Crowded (codeOf line) := by
  have hcut := ofLine_repairSpacing line
  have hcode : codeOf (repairLine line) = repairSpacing (codeOf line) := by rw [codeOf, repairLine, hcut]
  have hcomment : commentOf (repairLine line) = commentOf line := by rw [commentOf, repairLine, hcut]
  rw [← repairSpacing_repairSpacing_iff, repairLine, hcode, hcomment, repairLine, List.append_left_inj]

variable {mode : ExtractionMode}

theorem prepareScript_prepareScript_iff (hrepair : mode.repair = true) (script : Text) :
    mode.prepareScript (mode.prepareScript script) = mode.prepareScript script ↔ ∀ l ∈ lines script, ¬Crowded (codeOf l) := by
  have hlines : mode.prepareScript (mode.prepareScript script) = mode.prepareScript script ↔
      (lines script).map (mode.prepare ∘ mode.prepare) = (lines script).map mode.prepare := by
    rw [← List.map_map, ← lines_prepareScript, ← lines_prepareScript]
    constructor
    · exact fun h => congrArg lines h
    · intro h
      have hunlines := congrArg unlines h
      rwa [unlines_lines, unlines_lines] at hunlines
  rw [hlines, List.map_inj_left]
  apply forall₂_congr
  intro l hl
  simp only [Function.comp_apply, ExtractionMode.prepare, hrepair, if_true]
  exact repairLine_repairLine_iff

/-- A script is taken apart, and refused, as it is once its lines are repaired. -/
theorem ofScript_prepareScript (mode : ExtractionMode) (script : Text) :
    Extraction.ofScript mode script = Extraction.ofScript { strict := mode.strict } (mode.prepareScript script) := by
  rw [Extraction.ofScript, Extraction.ofScript, lines_prepareScript, List.mapM_map]
  rfl

/-- Repairing a line again changes nothing, and all marks of the repaired line stand at its start or behind a blank, exactly if no two marks of the line touch behind a character that is no blank. Repairing twice always does all there is to do. So a repaired script in whose codes no marks touch in this way is not changed by another repair, and opening it gives what opening the script gave. -/
theorem repairSpacing_settles (line script : Text) (strict : Bool) :
    (repairSpacing (repairSpacing line) = repairSpacing line ↔ ¬Crowded line) ∧
    (MarksApart (repairSpacing line) ↔ ¬Crowded line) ∧
    repairSpacing (repairSpacing (repairSpacing line)) = repairSpacing (repairSpacing line) ∧
    MarksApart (repairSpacing (repairSpacing line)) ∧
    let mode : ExtractionMode := { repair := true, strict }
    (mode.prepareScript (mode.prepareScript script) = mode.prepareScript script ↔ ∀ l ∈ lines script, ¬Crowded (codeOf l)) ∧
    ((∀ l ∈ lines script, ¬Crowded (codeOf l)) →
      Extraction.ofScript mode (mode.prepareScript script) = Extraction.ofScript mode script) := by
  have hsettled := not_crowded_repairSpacing line
  refine ⟨repairSpacing_repairSpacing_iff, marksApart_repairSpacing_iff, repairSpacing_repairSpacing_iff.2 hsettled,
    marksApart_repairSpacing_iff.2 hsettled, prepareScript_prepareScript_iff rfl script, fun h => ?_⟩
  have hscript := (@prepareScript_prepareScript_iff { repair := true, strict } rfl script).2 h
  rw [ofScript_prepareScript, hscript, ← ofScript_prepareScript]

/-- The second of two marks that touch gets its space only from a second repair. -/
theorem not_settled_touchingMarks :
    let line := "x#id:#id:".toList
    repairSpacing line = "x #id:#id:".toList ∧ ¬MarksApart (repairSpacing line) ∧
      repairSpacing (repairSpacing line) = "x #id: #id:".toList ∧ repairSpacing (repairSpacing line) ≠ repairSpacing line := by
  intro line
  have hfirst : repairSpacing line = "x #id:#id:".toList := by decide
  have hsecond : repairSpacing "x #id:#id:".toList = "x #id: #id:".toList := by decide
  rw [hfirst, hsecond]
  refine ⟨rfl, fun h => ?_, rfl, by decide⟩
  have hcolon : isBlank ':' = true := h ':' ⟨"x #id".toList, [], by decide⟩
  exact absurd hcolon (by decide)

end LineTags
