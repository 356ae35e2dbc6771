import LineTags.Proofs.Script.Modes
import LineTags.Proofs.Tag.Pattern
import LineTags.Proofs.Tag.Spacing

/-!
# Scripts that strict checking refuses

Strict checking refuses a script for the first of its lines that has two managed tags in its code. The tags are counted after the repair, which may have made some of them, and the code is where the repaired line has it. As the repair moves no comment, that is the repaired code of the line, and what stands in a comment is never counted. A script that is let pass is taken apart as it would be without the checking.
-/

namespace LineTags

open Text CommentedLine

/-- The managed tags that a line has when it is taken apart. -/
def countedTags (repair : Bool) (line : Text) : List TagMatch := findTags (codeOf (ExtractionMode.prepare { repair } line))

variable {repair : Bool}

/-! ## The repair and the comment -/

/-- The repair changes the code of a line and leaves its comment alone. -/
theorem ofLine_prepare (repair : Bool) (line : Text) :
    ofLine (ExtractionMode.prepare { repair } line) = ⟨if repair then repairSpacing (codeOf line) else codeOf line, commentOf line⟩ := by
  cases repair with
  | false => rfl
  | true => exact ofLine_repairSpacing line

theorem countedTags_eq (repair : Bool) (line : Text) :
    countedTags repair line = findTags (if repair then repairSpacing (codeOf line) else codeOf line) :=
  congrArg (fun l => findTags (CommentedLine.code l)) (ofLine_prepare repair line)

/-! ## One line -/

theorem ofLine_strict (repair : Bool) (line : Text) :
    Extraction.ofLine { repair, strict := true } line =
      if 2 ≤ (countedTags repair line).length then
        .error ⟨codeOf (ExtractionMode.prepare { repair } line), (countedTags repair line).map TagMatch.identifier⟩
      else .ok (partsOf (ExtractionMode.prepare { repair } line)) := by
  change Except.bind (onlyCodeTag? (ExtractionMode.prepare { repair } line)) _ = _
  rw [onlyCodeTag?, onlyTag?_eq]
  by_cases htwo : 2 ≤ (countedTags repair line).length
  · rw [if_pos htwo, if_pos (show 2 ≤ (findTags _).length from htwo)]
    rfl
  · rw [if_neg htwo, if_neg (show ¬2 ≤ (findTags _).length from htwo)]
    rfl

theorem exists_ofLine_strict_iff {line : Text} :
    (∃ part, Extraction.ofLine { repair, strict := true } line = .ok part) ↔ (countedTags repair line).length < 2 := by
  rw [ofLine_strict]
  split
  · next htwo => exact iff_of_false (fun ⟨_, h⟩ => nomatch h) (Nat.not_lt.2 htwo)
  · next hfew => exact iff_of_true ⟨_, rfl⟩ (Nat.lt_of_not_le hfew)

theorem ofLine_strict_eq_error_iff {line : Text} {e : MultipleTags} :
    Extraction.ofLine { repair, strict := true } line = .error e ↔ 2 ≤ (countedTags repair line).length ∧
      e = ⟨codeOf (ExtractionMode.prepare { repair } line), (countedTags repair line).map TagMatch.identifier⟩ := by
  rw [ofLine_strict]
  split
  · next htwo => rw [and_iff_right htwo, Except.error.injEq, eq_comm]
  · next hfew => exact iff_of_false nofun fun h => hfew h.1

/-! ## The first line that is refused -/

/-- A row of steps fails with the first step that fails. -/
theorem mapM_eq_error_iff {ε α β : Type} {f : α → Except ε β} {l : List α} {e : ε} :
    l.mapM f = .error e ↔
      ∃ before a after, l = before ++ a :: after ∧ (∀ b ∈ before, ∃ c, f b = .ok c) ∧ f a = .error e := by
  induction l with
  | nil =>
    refine iff_of_false nofun ?_
    rintro ⟨before, a, after, h, -⟩
    exact List.append_ne_nil_of_right_ne_nil before (List.cons_ne_nil a after) h.symm
  | cons a l ih =>
    rw [List.mapM_cons]
    cases hfirst : f a with
    | error e' =>
      constructor
      · intro h
        obtain rfl : e' = e := Except.error.inj h
        exact ⟨[], a, l, rfl, fun b hb => absurd hb List.not_mem_nil, hfirst⟩
      · rintro ⟨_ | ⟨b, before⟩, a', after, h, hbefore, herror⟩
        · obtain ⟨rfl, -⟩ := List.cons.inj h
          obtain rfl : e' = e := Except.error.inj (hfirst.symm.trans herror)
          rfl
        · obtain ⟨rfl, -⟩ := List.cons.inj h
          obtain ⟨c, hc⟩ := hbefore a List.mem_cons_self
          cases hfirst.symm.trans hc
    | ok c =>
      have hrest : (do let c ← Except.ok c; let cs ← l.mapM f; pure (c :: cs)) = Except.error e ↔ l.mapM f = .error e := by
        cases l.mapM f with
        | error e' => exact Iff.rfl
        | ok cs => exact iff_of_false nofun nofun
      refine hrest.trans (ih.trans ?_)
      constructor
      · rintro ⟨before, a', after, rfl, hbefore, herror⟩
        exact ⟨a :: before, a', after, rfl, List.forall_mem_cons.2 ⟨⟨c, hfirst⟩, hbefore⟩, herror⟩
      · rintro ⟨_ | ⟨b, before⟩, a', after, h, hbefore, herror⟩
        · obtain ⟨rfl, -⟩ := List.cons.inj h
          cases hfirst.symm.trans herror
        · obtain ⟨rfl, rfl⟩ := List.cons.inj h
          exact ⟨before, a', after, rfl, fun b hb => hbefore b (List.mem_cons_of_mem _ hb), herror⟩

theorem ofScript_eq_error_iff {mode : ExtractionMode} {script : Text} {e : MultipleTags} :
    Extraction.ofScript mode script = .error e ↔ (lines script).mapM (Extraction.ofLine mode) = .error e := by
  unfold Extraction.ofScript
  cases (lines script).mapM (Extraction.ofLine mode) with
  | error e' => exact ⟨fun h => congrArg Except.error (Except.error.inj h), fun h => congrArg Except.error (Except.error.inj h)⟩
  | ok parts => exact iff_of_false nofun nofun

theorem ofScript_strict_eq_error_iff {script : Text} {e : MultipleTags} :
    Extraction.ofScript { repair, strict := true } script = .error e ↔
      ∃ before line after, lines script = before ++ line :: after ∧ (∀ l ∈ before, (countedTags repair l).length < 2) ∧
        2 ≤ (countedTags repair line).length ∧
        e = ⟨codeOf (ExtractionMode.prepare { repair } line), (countedTags repair line).map TagMatch.identifier⟩ := by
  rw [ofScript_eq_error_iff, mapM_eq_error_iff]
  refine exists_congr fun before => exists_congr fun line => exists_congr fun after => and_congr_right fun _ => ?_
  exact and_congr (forall₂_congr fun l _ => exists_ofLine_strict_iff) ofLine_strict_eq_error_iff

/-- Without two tags on a line, strict checking makes no difference. -/
theorem ofScript_strict_of_forall {script : Text} (h : ∀ line ∈ lines script, (countedTags repair line).length < 2) :
    Extraction.ofScript { repair, strict := true } script = Extraction.ofScript { repair } script := by
  cases hstrict : Extraction.ofScript { repair, strict := true } script with
  | error e =>
    obtain ⟨before, line, after, hlines, -, htwo, -⟩ := ofScript_strict_eq_error_iff.1 hstrict
    have hfew := h line (hlines ▸ List.mem_append_right before List.mem_cons_self)
    exact absurd htwo (Nat.not_le.2 hfew)
  | ok x =>
    rw [ofScript_lenient, ofScript_eq hstrict]
    rfl

/-! ## What is taken out of a script -/

theorem head?_countedTags (repair : Bool) (line : Text) :
    (countedTags repair line).head? = codeTag? (ExtractionMode.prepare { repair } line) := rfl

/-- The identifiers are those of the first tags that count. -/
theorem mem_ids_prepareScript {script : Text} {entry : LineId} :
    entry ∈ (extract (ExtractionMode.prepareScript { repair } script)).ids ↔
      ∃ (i : Nat) (line : Text) (m : TagMatch), (lines script)[i]? = some line ∧
        (countedTags repair line).head? = some m ∧ entry = ⟨i + 1, m.identifier⟩ := by
  rw [extract_eq, mem_numbered, lines_prepareScript, List.map_map]
  constructor
  · rintro ⟨i, part, hpart, hline, hid⟩
    rw [List.getElem?_map] at hpart
    obtain ⟨line, hl, rfl⟩ := Option.map_eq_some_iff.1 hpart
    rw [Function.comp_apply, snd_partsOf] at hid
    obtain ⟨m, hm, hid⟩ := Option.map_eq_some_iff.1 hid
    refine ⟨i, line, m, hl, hm, ?_⟩
    obtain ⟨number, identifier⟩ := entry
    have hnumber : number = i + 1 := by
      have : number = (1 + i : Nat) := hline
      omega
    rw [hnumber, hid]
  · rintro ⟨i, line, m, hl, hm, rfl⟩
    refine ⟨i, partsOf (ExtractionMode.prepare { repair } line), ?_, ?_, ?_⟩
    · rw [List.getElem?_map, hl]
      rfl
    · dsimp only
      omega
    · rw [snd_partsOf, ← head?_countedTags, hm]
      rfl

/-- A line on which no tag counts comes out as it is taken apart. -/
theorem getElem?_lines_clean {script : Text} {i : Nat} {line : Text} (hline : (lines script)[i]? = some line)
    (hnone : countedTags repair line = []) :
    (lines (extract (ExtractionMode.prepareScript { repair } script)).clean)[i]? = some (ExtractionMode.prepare { repair } line) := by
  have htag : codeTag? (ExtractionMode.prepare { repair } line) = none := by
    rw [← head?_countedTags, hnone]
    rfl
  rw [lines_clean_extract, lines_prepareScript, List.map_map, List.getElem?_map, hline, Option.map_some, Function.comp_apply,
    partsOf_of_codeTag?_eq_none htag]

/-! ## The whole script -/

/-- Strict checking refuses a script exactly if a line of it has two managed tags in its code, with the identifiers of the first such line, and makes no other difference. Without it no script is refused. The code that counts is the code of the line, repaired if it is to be, and the comment stays behind it as it is; the identifiers taken out are the first ones of the codes. A line without a tag is left as it is unless it is repaired. -/
theorem ofScript_strict (repair : Bool) (script : Text) :
    (∀ e, Extraction.ofScript { repair, strict := true } script = .error e ↔
      ∃ before line after, lines script = before ++ line :: after ∧ (∀ l ∈ before, (countedTags repair l).length < 2) ∧
        2 ≤ (countedTags repair line).length ∧
        e = ⟨codeOf (ExtractionMode.prepare { repair } line), (countedTags repair line).map TagMatch.identifier⟩) ∧
    ((∀ line ∈ lines script, (countedTags repair line).length < 2) →
      Extraction.ofScript { repair, strict := true } script = Extraction.ofScript { repair } script) ∧
    (∀ line, countedTags repair line = findTags (if repair then repairSpacing (codeOf line) else codeOf line) ∧
      ofLine (ExtractionMode.prepare { repair } line) =
        ⟨if repair then repairSpacing (codeOf line) else codeOf line, commentOf line⟩) ∧
    ∃ x, Extraction.ofScript { repair } script = .ok x ∧
      (∀ entry, entry ∈ x.ids ↔
        ∃ (i : Nat) (line : Text) (m : TagMatch), (lines script)[i]? = some line ∧
          (countedTags repair line).head? = some m ∧ entry = ⟨i + 1, m.identifier⟩) ∧
      (repair = false → ∀ (i : Nat) (line : Text), (lines script)[i]? = some line → countedTags repair line = [] →
        (lines x.clean)[i]? = some line) := by
  refine ⟨fun _ => ofScript_strict_eq_error_iff, ofScript_strict_of_forall, fun line => ?_, _, ofScript_lenient repair script,
    fun _ => mem_ids_prepareScript, ?_⟩
  · exact ⟨countedTags_eq repair line, ofLine_prepare repair line⟩
  · rintro rfl i line hline hnone
    exact getElem?_lines_clean hline hnone

/-- The tag in the comment of the first line does not count. On the second line it is the repair that makes the first of the two tags. -/
example : Extraction.ofScript { repair := true, strict := true } "Hi #id:AAAA // #id:BBBB\n#id:CCCCx#id:x_DDDD".toList =
    .error ⟨"#id:CCCC x #id:x_DDDD".toList, ["CCCC".toList, "x_DDDD".toList]⟩ := by
  decide

end LineTags
