import LineTags.Proofs.Buffer.Agreement
import LineTags.Proofs.Buffer.SheetRun
import LineTags.Proofs.Script.Cleaning
import LineTags.Proofs.Script.Shedding
import LineTags.Proofs.Session.Staging
import LineTags.Proofs.Sync.Reservation

/-!
# Typing text without marks

A text without slashes and without `#` has no comments and shows no tags, so all tags that are saved with it are those of its tracker. Typing more of it, and deleting, splits and joins lines and moves the identifiers about, but puts none where it cannot be written, with one exception: an anchor can come to start on a line that has lost all of its own text, while it goes on behind it. That identifier is still tracked on the blank line, and a blank line is saved without a tag. Every other identifier is saved on its line.
-/

namespace LineTags

open Text LineBuffer

/-! ## Lines without marks -/

/-- A character that opens neither a comment nor a tag. -/
def IsUnmarked (c : Char) : Prop := c ≠ '/' ∧ c ≠ '#'

instance : DecidablePred IsUnmarked := fun c => inferInstanceAs (Decidable (c ≠ '/' ∧ c ≠ '#'))

theorem isUnmarked_of_all {t : Text} (h : t.all (fun c => decide (IsUnmarked c)) = true) : ∀ c ∈ t, IsUnmarked c :=
  fun c hc => of_decide_eq_true (List.all_eq_true.1 h c hc)

theorem codeOf_of_not_mem {line : Text} (h : '/' ∉ line) : codeOf line = line := by
  have hstart : StartsIn (· = '/') (commentOf line) := startsIn_comment_of_scan (CommentedLine.ofLine_eq_iff.1 rfl)
  have hline := codeOf_append_commentOf line
  cases hcomment : commentOf line with
  | nil => rwa [hcomment, List.append_nil] at hline
  | cons c comment =>
    rw [hcomment] at hstart hline
    have hslash : c = '/' := hstart c rfl
    exact absurd (hline ▸ List.mem_append_right _ (hslash ▸ List.mem_cons_self)) h

theorem codeTag?_of_not_mem {line : Text} (h : '#' ∉ line) : codeTag? line = none := by
  have hcode : '#' ∉ codeOf line := fun hmem => h (codeOf_append_commentOf line ▸ List.mem_append_left _ hmem)
  exact findTags_codeOf_eq_nil_iff.1 (tagsFrom_of_not_mem 0 hcode)

theorem isUnmarked_of_mem_lines {t line : Text} (ht : ∀ c ∈ t, IsUnmarked c) (hline : line ∈ lines t) : ∀ c ∈ line, IsUnmarked c :=
  fun c hc => ht c (mem_of_mem_piece hline hc)

/-! ## The identifiers of a script in their order -/

theorem map_identifier_numbered (number : Nat) (parts : List (Text × Option Text)) :
    (Extraction.numbered number parts).map LineId.identifier = parts.filterMap Prod.snd := by
  induction parts generalizing number with
  | nil => rfl
  | cons part parts ih =>
    obtain ⟨text, _ | identifier⟩ := part
    · exact ih (number + 1)
    · exact congrArg (identifier :: ·) (ih (number + 1))

theorem idsIn_eq_map_ids (script : Text) : idsIn script = (extract script).ids.map LineId.identifier := by
  rw [extract_eq, map_identifier_numbered, List.filterMap_map, idsIn]
  exact List.filterMap_congr fun line _ => (snd_partsOf line).symm

namespace Tracker

variable {β : Type} [LineBuffer β] {t : Tracker β}

/-- What is saved of a text that shows no tags has the identifiers of its tracker, in their order, but for those whose line has no code. -/
theorem idsIn_fullContent (hclean : ∀ line ∈ lines t.text, codeTag? line = none)
    (hids : ∀ a ∈ t.associations, isIdentifier a.identifier) :
    idsIn t.fullContent = (t.associations.filter fun a => t.canCarry a.line).map LineId.identifier := by
  have hsame : (extract t.fullContent).ids = t.associations.filter fun a => t.canCarry a.line := by
    refine eq_of_pairwise_line ?_ (t.pairwise_associations.filter _) fun x => ?_
    · rw [extract_eq]
      exact pairwise_numbered 1 _
    · rw [fullContent, mem_ids_extract_reconstruct hclean hids t.nodup_line_associations, List.mem_filter]
      exact and_congr_right fun _ => canCarry_iff.symm
  rw [idsIn_eq_map_ids, hsame]

theorem exists_anchor_of_mem_associations {a : LineId} (ha : a ∈ t.associations) :
    0 < t.anchorsOf a.identifier ∧
      ∃ handle line column : Nat, a.line = line ∧ anchorStart? handle t.buffer = some (line, column) := by
  obtain ⟨x, hx, rfl⟩ := mem_associations.1 ha
  obtain ⟨hbound, hstart⟩ := mem_live.1 ((kept_sublist t).subset hx)
  exact ⟨List.countP_pos_iff.2 ⟨_, hbound, decide_eq_true rfl⟩, x.handle, x.line, x.column, rfl, hstart⟩

end Tracker

/-! ## Buffers in which text is typed -/

theorem exists_line?_of_position {t : Text} {offset line column : Nat} (h : t.position offset = (line, column)) :
    ∃ l, t.line? (line : Int) = some l := by
  obtain rfl : (t.position offset).1 = line := congrArg Prod.fst h
  refine exists_line?_iff.2 ⟨by rw [position]; omega, ?_⟩
  have hle : (t.take offset).count '\n' ≤ t.count '\n' := (List.take_sublist offset t).count_le '\n'
  rw [position, Text.lineCount]
  omega

/-- A buffer in which typing brings in what is typed and nothing else, and whose anchors start on lines that exist. -/
class TypingBuffer (β : Type) [LineBuffer β] extends LawfulBuffer β where
  mem_text_of_insert {line column : Int} {x : Text} {b b' : β} {c : Char} :
    insert line column x b = .ok b' → c ∈ text b' → c ∈ text b ∨ c ∈ x
  mem_text_of_delete {l k l' k' : Int} {b b' : β} {c : Char} : delete l k l' k' b = .ok b' → c ∈ text b' → c ∈ text b
  exists_line?_of_anchorStart? {handle line column : Nat} {b : β} :
    anchorStart? handle b = some (line, column) → ∃ l, line? b (line : Int) = some l

theorem mem_of_mem_spliced {t x : Text} {start stop : Nat} {c : Char} (h : c ∈ t.take start ++ x ++ t.drop stop) : c ∈ t ∨ c ∈ x := by
  rcases List.mem_append.1 h with h | h
  · exact (List.mem_append.1 h).imp_left List.mem_of_mem_take
  · exact .inl (List.mem_of_mem_drop h)

instance : TypingBuffer MemoryBuffer where
  mem_text_of_insert := fun h hc => by
    obtain ⟨pos, rfl⟩ := MemoryBuffer.insert_eq_ok h
    exact mem_of_mem_spliced hc
  mem_text_of_delete := fun h hc => by
    obtain ⟨start, stop, rfl⟩ := MemoryBuffer.delete_eq_ok h
    exact (List.mem_append.1 hc).elim List.mem_of_mem_take List.mem_of_mem_drop
  exists_line?_of_anchorStart? := fun h => by
    obtain ⟨r, -, -, hplace⟩ := MemoryBuffer.anchorStart?_eq_some_iff.1 h
    exact exists_line?_of_position hplace

instance : TypingBuffer Widget where
  mem_text_of_insert := fun h hc => by
    obtain ⟨-, rfl⟩ := Widget.eq_of_whileAlive_eq_ok h
    rw [show text _ = _ from Widget.content_insertAt _ _ _] at hc
    exact mem_of_mem_spliced hc
  mem_text_of_delete := fun {l k l' k' w _ _} h hc => by
    obtain ⟨-, rfl⟩ := Widget.eq_of_whileAlive_eq_ok h
    rcases Nat.lt_or_ge (w.offset l k) (w.offset l' k') with hlt | hle
    · rw [show text _ = _ from Widget.content_deleteBetween hlt w] at hc
      exact (List.mem_append.1 hc).elim List.mem_of_mem_take List.mem_of_mem_drop
    · rwa [Widget.deleteBetween, if_pos hle] at hc
  exists_line?_of_anchorStart? := fun {handle _ _ w} h => by
    have hplaced : w.anchorStart? handle = some _ := h
    rw [Widget.anchorStart?] at hplaced
    split at hplaced
    · obtain ⟨marks, -, hplace⟩ := Option.map_eq_some_iff.1 hplaced
      exact exists_line?_of_position hplace
    · cases hplaced

/-! ## What typing keeps -/

namespace Tracker

variable {β : Type} [LineBuffer β] [TypingBuffer β] {t t' : Tracker β}

/-- Some text without marks was typed, some text was deleted, and questions about the identifiers were asked. -/
inductive TypedPlainly (t : Tracker β) : Tracker β → Prop
  | start : TypedPlainly t t
  | insert {t' t'' : Tracker β} {line column : Int} {x : Text} : TypedPlainly t t' → (∀ c ∈ x, IsUnmarked c) →
    t'.edit (LineBuffer.insert line column x) = .ok t'' → TypedPlainly t t''
  | delete {t' t'' : Tracker β} {startLine startColumn endLine endColumn : Int} : TypedPlainly t t' →
    t'.edit (LineBuffer.delete startLine startColumn endLine endColumn) = .ok t'' → TypedPlainly t t''
  | asked {t' : Tracker β} : TypedPlainly t t' → TypedPlainly t t'.tidy

/-- The text has no marks, and nothing but identifiers is on anchors. -/
structure Plain (t : Tracker β) : Prop where
  text : ∀ c ∈ t.text, IsUnmarked c
  anchors : ∀ identifier, 0 < t.anchorsOf identifier → isIdentifier identifier

theorem TypedPlainly.plain (h : t.TypedPlainly t') (ht : t.Plain) : t'.Plain := by
  induction h with
  | start => exact ht
  | insert _ hx hedit ih =>
    obtain ⟨b, hb, rfl⟩ := edit_eq_ok hedit
    exact ⟨fun c hc => (TypingBuffer.mem_text_of_insert hb hc).elim (ih.text c) (hx c), ih.anchors⟩
  | delete _ hedit ih =>
    obtain ⟨b, hb, rfl⟩ := edit_eq_ok hedit
    exact ⟨fun c hc => ih.text c (TypingBuffer.mem_text_of_delete hb hc), ih.anchors⟩
  | asked _ ih =>
    refine ⟨fun c hc => ih.text c ?_, fun identifier hpos => ih.anchors identifier (hpos.trans_le (anchorsOf_tidy_le _ _))⟩
    rwa [text_tidy] at hc

omit [TypingBuffer β] in
theorem Plain.idsIn_fullContent (ht : t.Plain) :
    idsIn t.fullContent = (t.associations.filter fun a => t.canCarry a.line).map LineId.identifier := by
  refine Tracker.idsIn_fullContent (fun line hline => ?_) fun a ha => ht.anchors _ (exists_anchor_of_mem_associations ha).1
  exact codeTag?_of_not_mem fun hmem => (isUnmarked_of_mem_lines ht.text hline _ hmem).2 rfl

/-- The line of an identifier exists, and it can carry the identifier unless it is blank. -/
theorem Plain.exists_line (ht : t.Plain) {a : LineId} (ha : a ∈ t.associations) :
    ∃ l, t.text.line? a.line = some l ∧ (t.canCarry a.line = true ↔ isBlankText l = false) := by
  obtain ⟨-, handle, line, column, hline, hstart⟩ := exists_anchor_of_mem_associations ha
  obtain ⟨l, hl⟩ := TypingBuffer.exists_line?_of_anchorStart? hstart
  rw [← hline] at hl
  have hmem : l ∈ lines t.text := List.mem_of_getElem? (line?_eq_some_iff.1 hl).2
  have hcode : hasNoCode l = isBlankText l := by
    rw [hasNoCode, codeOf_of_not_mem fun hslash => (isUnmarked_of_mem_lines ht.text hmem _ hslash).1 rfl]
  refine ⟨l, hl, canCarry_iff.trans ?_⟩
  rw [hl]
  simp [hcode]

end Tracker

namespace Session

variable {β : Type} [LineBuffer β] [TypingBuffer β] {s s' : Session β} {file : Text} {content? : Option Text} {buffer? : Option β}
  {t t' : Tracker β}

omit [TypingBuffer β] in
/-- The anchors of a file that is open hold nothing but identifiers. -/
def AnchorsIdentifiers (s : Session β) (file : Text) : Prop :=
  ∀ t, s.document? file = some t → ∀ identifier, 0 < t.anchorsOf identifier → isIdentifier identifier

omit [TypingBuffer β] in
theorem AnchorsIdentifiers.applyEdit (hs : s.AnchorsIdentifiers file) {e : IdEdit} (he : isIdentifier e.identifier)
    (expected : Text) : (s.applyEdit file e expected).2.AnchorsIdentifiers file := by
  obtain h | ⟨t, hdoc, h⟩ | ⟨t, hdoc, -, -, h⟩ := applyEdit_cases s file e expected
  · rwa [h]
  · intro t' hdoc' identifier hpos
    rw [h, document?_putDocument, if_pos rfl] at hdoc'
    obtain rfl := Option.some.inj hdoc'
    exact hs t hdoc identifier (hpos.trans_le (t.anchorsOf_tidy_le identifier))
  · intro t' hdoc' identifier hpos
    rw [h, document?_putDocument, if_pos rfl] at hdoc'
    obtain rfl := Option.some.inj hdoc'
    have hbind := t.tidy.anchorsOf_bind_le e.line e.identifier identifier
    have htidy := t.anchorsOf_tidy_le identifier
    by_cases hsame : e.identifier = identifier
    · exact hsame ▸ he
    · rw [if_neg hsame] at hbind
      exact hs t hdoc identifier (by omega)

omit [TypingBuffer β] in
theorem anchorsIdentifiers_openDocument (hwaiting : ∀ w ∈ s.waiting file, isIdentifier w.edit.identifier)
    (hopen : s.openDocument file content? buffer? = (.ok (), s')) : s'.AnchorsIdentifiers file := by
  unfold openDocument at hopen
  dsimp only at hopen
  split at hopen
  · cases hopen
  · next extraction hextraction =>
    obtain ⟨-, rfl⟩ := Prod.mk.inj hopen
    refine applyStaged_induction (P := fun r => r.AnchorsIdentifiers file) file (fun t hdoc identifier hpos => ?_)
      fun r w hw hr => hr.applyEdit (hwaiting w hw) w.lineText
    have hdoc' := (document?_putDocument _ file file _).symm.trans hdoc
    rw [if_pos rfl] at hdoc'
    obtain rfl := Option.some.inj hdoc'
    obtain ⟨a, ha, hsame⟩ := List.countP_pos_iff.1 (hpos.trans_le (anchorsOf_load_le _ _ extraction identifier))
    exact of_decide_eq_true hsame ▸ isIdentifier_of_mem_ids_ofScript hextraction ha

/-- A file was opened, its clean text has no marks, and none were typed. Then what is saved of it has the identifiers of the tracker, in their order, but for those on blank lines. -/
theorem idsIn_fullContent_typed (hwaiting : ∀ w ∈ s.waiting file, isIdentifier w.edit.identifier)
    (hopen : s.openDocument file content? buffer? = (.ok (), s')) (hdoc : s'.document? file = some t)
    (htext : ∀ c ∈ t.text, IsUnmarked c) (htyped : t.TypedPlainly t') :
    idsIn t'.fullContent = (t'.associations.filter fun a => t'.canCarry a.line).map LineId.identifier ∧
      ∀ a ∈ t'.associations, ∃ l, t'.text.line? a.line = some l ∧ (t'.canCarry a.line = true ↔ isBlankText l = false) := by
  have hplain : t'.Plain := htyped.plain ⟨htext, anchorsIdentifiers_openDocument hwaiting hopen t hdoc⟩
  exact ⟨hplain.idsIn_fullContent, fun a ha => hplain.exists_line ha⟩

/-- A file just after it was opened, with two identifiers. -/
def twoLines : Tracker MemoryBuffer where
  buffer := { text := "ab\ncd".toList, anchors := [(1, ⟨0, 2⟩), (2, ⟨3, 5⟩)], nextHandle := 3 }
  file := some "a.ink".toList
  bound := [(1, "AAAA".toList), (2, "BBBB".toList)]

/-- The first line was split, and then the half that stayed in front was deleted. -/
def emptiedLine : Tracker MemoryBuffer where
  buffer := { text := "\nb\ncd".toList, anchors := [(1, ⟨0, 2⟩), (2, ⟨3, 5⟩)], nextHandle := 3 }
  file := some "a.ink".toList
  bound := [(1, "AAAA".toList), (2, "BBBB".toList)]

theorem typedPlainly_emptiedLine : twoLines.TypedPlainly emptiedLine := by
  let split : Tracker MemoryBuffer :=
    { twoLines with buffer := { text := "a\nb\ncd".toList, anchors := [(1, ⟨0, 3⟩), (2, ⟨4, 6⟩)], nextHandle := 3 } }
  have hinsert : twoLines.edit (LineBuffer.insert 1 1 ['\n']) = .ok split := rfl
  have hdelete : split.edit (LineBuffer.delete 1 0 1 1) = .ok emptiedLine := rfl
  exact .delete (.insert .start (isUnmarked_of_all rfl) hinsert) hdelete

theorem live_emptiedLine : emptiedLine.live = [⟨1, "AAAA".toList, 1, 0⟩, ⟨2, "BBBB".toList, 3, 0⟩] :=
  List.mergeSort_of_pairwise (by decide)

theorem associations_emptiedLine : emptiedLine.associations = [⟨1, "AAAA".toList⟩, ⟨3, "BBBB".toList⟩] := by
  rw [Tracker.associations, Tracker.kept, live_emptiedLine]
  rfl

theorem idsIn_fullContent_emptiedLine : idsIn emptiedLine.fullContent = ["BBBB".toList] := by
  rw [Tracker.fullContent, associations_emptiedLine]
  decide +kernel

/-- A session with the script of the two lines, which is not open. -/
def twoLinesClosed : Session MemoryBuffer := .ofFiles [("a.ink".toList, "ab #id:AAAA\ncd #id:BBBB".toList)] {}

theorem openDocument_twoLines : ∃ s', twoLinesClosed.openDocument "a.ink".toList none none = (.ok (), s') ∧
    s'.document? "a.ink".toList = some twoLines := by
  have hparts : ((twoLinesClosed.openDocument "a.ink".toList none none).2.document? "a.ink".toList).map
      (fun t => (t.buffer, t.file, t.bound)) = some (twoLines.buffer, twoLines.file, twoLines.bound) := by
    decide +kernel
  obtain ⟨⟨buffer, file, bound⟩, hdoc, heq⟩ := Option.map_eq_some_iff.1 hparts
  cases heq
  exact ⟨_, Prod.ext rfl rfl, hdoc⟩

/-- The first identifier is on a blank line, the second is saved. -/
theorem idsIn_fullContent_typed_emptiedLine : ∃ s',
    (∀ w ∈ twoLinesClosed.waiting "a.ink".toList, isIdentifier w.edit.identifier) ∧
    twoLinesClosed.openDocument "a.ink".toList none none = (.ok (), s') ∧
    s'.document? "a.ink".toList = some twoLines ∧ (∀ c ∈ twoLines.text, IsUnmarked c) ∧ twoLines.TypedPlainly emptiedLine ∧
    idsIn emptiedLine.fullContent = ["BBBB".toList] ∧
    idsIn emptiedLine.fullContent =
      (emptiedLine.associations.filter fun a => emptiedLine.canCarry a.line).map LineId.identifier ∧
    ∀ a ∈ emptiedLine.associations, ∃ l, emptiedLine.text.line? a.line = some l ∧
      (emptiedLine.canCarry a.line = true ↔ isBlankText l = false) := by
  have hwaiting : ∀ w ∈ twoLinesClosed.waiting "a.ink".toList, isIdentifier w.edit.identifier := fun w hw => absurd hw List.not_mem_nil
  obtain ⟨s', hopen, hdoc⟩ := openDocument_twoLines
  have htext : ∀ c ∈ twoLines.text, IsUnmarked c := isUnmarked_of_all rfl
  exact ⟨s', hwaiting, hopen, hdoc, htext, typedPlainly_emptiedLine, idsIn_fullContent_emptiedLine,
    idsIn_fullContent_typed hwaiting hopen hdoc htext typedPlainly_emptiedLine⟩

/-- An identifier that is still tracked is not saved. -/
theorem not_saved_emptiedLine : ∃ s', twoLinesClosed.openDocument "a.ink".toList none none = (.ok (), s') ∧
    s'.document? "a.ink".toList = some twoLines ∧ (∀ c ∈ twoLines.text, IsUnmarked c) ∧ twoLines.TypedPlainly emptiedLine ∧
    idsIn emptiedLine.fullContent ≠ emptiedLine.associations.map LineId.identifier := by
  obtain ⟨s', hopen, hdoc⟩ := openDocument_twoLines
  refine ⟨s', hopen, hdoc, isUnmarked_of_all rfl, typedPlainly_emptiedLine, ?_⟩
  rw [idsIn_fullContent_emptiedLine, associations_emptiedLine]
  decide

end Session

end LineTags
