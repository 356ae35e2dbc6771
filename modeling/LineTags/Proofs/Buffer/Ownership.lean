import LineTags.Proofs.Buffer.Calls
import Mathlib.Data.List.Forall2
import Mathlib.Data.List.Nodup

/-!
# Anchors and the characters they own

A plain buffer keeps two offsets for an anchor and moves them with every edit. What they stand for is said here without offsets. Every character gets an identity when it comes into the text. An anchor owns the characters of its line when it is made, and later every character that is inserted between two characters it owns; one inserted before the first or behind the last does not belong to it. A buffer that keeps this book, `OwnedText`, is a buffer like any other, and the plain buffer answers as it does: the anchor starts at the first character that it owns and that is still there.

The offsets of an anchor that owns nothing any more may lie in any order, and typing moves the first but not the second. What carries the proof is that they never come back into order, because nothing can be inserted between two characters of which none is left.
-/

namespace LineTags

/-- A character with an identity. -/
structure Glyph where
  number : Nat
  char : Char
  deriving DecidableEq

/-- A text whose characters have identities, and for each anchor the identities of the characters it owns, with those that are gone. -/
structure OwnedText where
  glyphs : List Glyph := []
  nextGlyph : Nat := 0
  owners : List (Nat × List Nat) := []
  nextHandle : Nat := 1
  deriving DecidableEq

namespace OwnedText

/-- The characters of a text with new identities, from `first` on. -/
def number (first : Nat) : Text → List Glyph
  | [] => []
  | c :: t => ⟨first, c⟩ :: number (first + 1) t

def ofText (t : Text) : OwnedText := { glyphs := number 0 t, nextGlyph := t.length }

def text (o : OwnedText) : Text := o.glyphs.map Glyph.char

/-- Whether some characters are among the owned ones. -/
def anyOwned (owned : List Nat) (glyphs : List Glyph) : Bool := glyphs.any (·.number ∈ owned)

/-- What an anchor owns after characters were inserted between `before` and `behind`. -/
def ownedAfter (before added behind : List Glyph) (owned : List Nat) : List Nat :=
  if anyOwned owned before && anyOwned owned behind then owned ++ added.map Glyph.number else owned

def insertAt (pos : Nat) (t : Text) (o : OwnedText) : OwnedText :=
  let added := number o.nextGlyph t
  { o with
    glyphs := o.glyphs.take pos ++ added ++ o.glyphs.drop pos
    nextGlyph := o.nextGlyph + t.length
    owners := o.owners.map fun (h, owned) => (h, ownedAfter (o.glyphs.take pos) added (o.glyphs.drop pos) owned) }

def deleteBetween (start stop : Nat) (o : OwnedText) : OwnedText :=
  { o with glyphs := o.glyphs.take start ++ o.glyphs.drop stop }

def offset (o : OwnedText) (line column : Int) : Except BufferError Nat :=
  match o.text.offset? line column with
  | some n => .ok n
  | none => .error (.noLine line)

def setText (t : Text) (o : OwnedText) : OwnedText := (o.deleteBetween 0 o.glyphs.length).insertAt 0 t

def insert (line column : Int) (t : Text) (o : OwnedText) : Except BufferError OwnedText := do
  return o.insertAt (← o.offset line column) t

def delete (startLine startColumn endLine endColumn : Int) (o : OwnedText) : Except BufferError OwnedText := do
  let start ← o.offset startLine startColumn
  let stop ← o.offset endLine endColumn
  return o.deleteBetween (min start stop) (max start stop)

/-- The characters of the line that starts at an offset. -/
def lineFrom (o : OwnedText) (start : Nat) : List Glyph := (o.glyphs.drop start).takeWhile (·.char != '\n')

def createAnchor (line : Int) (o : OwnedText) : Except BufferError (Nat × OwnedText) :=
  match o.text.lineStart? line with
  | some start =>
    let owned := (o.lineFrom start).map Glyph.number
    .ok (o.nextHandle, { o with owners := o.owners ++ [(o.nextHandle, owned)], nextHandle := o.nextHandle + 1 })
  | none => .error (.noLine line)

/-- Whether an anchor owns a character. -/
def Owns (o : OwnedText) (handle : Nat) (g : Glyph) : Prop := ∃ owned ∈ o.owners.lookup handle, g.number ∈ owned

/-- The place of the first character that an anchor owns. -/
def anchorStart? (handle : Nat) (o : OwnedText) : Option (Nat × Nat) :=
  ((o.owners.lookup handle).bind fun owned => o.glyphs.findIdx? (·.number ∈ owned)).map o.text.position

instance : LineBuffer OwnedText where
  fresh := {}
  text := text
  setText := setText
  insert := insert
  delete := delete
  createAnchor := createAnchor
  anchorStart? := anchorStart?
  releaseAnchor handle o := { o with owners := o.owners.filter fun a => a.1 ≠ handle }
  clearAnchors o := { o with owners := [] }
  isAlive _ := true

end OwnedText

/-! ## What a range covers -/

/-- A range covers the owned ones among some characters, and no others. While it has not collapsed it lies within the text. -/
structure Covers (glyphs : List Glyph) (r : AnchorRange) (owned : List Nat) : Prop where
  owned_iff : ∀ i g, glyphs[i]? = some g → (g.number ∈ owned ↔ r.start ≤ i ∧ i < r.stop)
  within : r.start < r.stop → r.stop ≤ glyphs.length

namespace Covers

variable {glyphs before middle behind added : List Glyph} {r : AnchorRange} {owned : List Nat}

theorem anyOwned_before (h : Covers (before ++ behind) r owned) :
    OwnedText.anyOwned owned before ↔ r.start < r.stop ∧ r.start < before.length := by
  rw [OwnedText.anyOwned, List.any_eq_true]
  constructor
  · rintro ⟨g, hg, hmem⟩
    obtain ⟨i, hi, rfl⟩ := List.getElem_of_mem hg
    have hat : (before ++ behind)[i]? = some before[i] := by
      rw [List.getElem?_append_left hi, List.getElem?_eq_getElem hi]
    have hcover := (h.owned_iff i _ hat).1 (of_decide_eq_true hmem)
    omega
  · rintro ⟨hlive, hlt⟩
    have hat : (before ++ behind)[r.start]? = some before[r.start] := by
      rw [List.getElem?_append_left hlt, List.getElem?_eq_getElem hlt]
    exact ⟨_, List.getElem_mem hlt, decide_eq_true ((h.owned_iff r.start _ hat).2 ⟨Nat.le_refl _, hlive⟩)⟩

theorem anyOwned_behind (h : Covers (before ++ behind) r owned) :
    OwnedText.anyOwned owned behind ↔ r.start < r.stop ∧ before.length < r.stop := by
  rw [OwnedText.anyOwned, List.any_eq_true]
  constructor
  · rintro ⟨g, hg, hmem⟩
    obtain ⟨i, hi, rfl⟩ := List.getElem_of_mem hg
    have hat : (before ++ behind)[before.length + i]? = some behind[i] := by
      rw [List.getElem?_append_right (Nat.le_add_right _ _), Nat.add_sub_cancel_left, List.getElem?_eq_getElem hi]
    have hcover := (h.owned_iff _ _ hat).1 (of_decide_eq_true hmem)
    omega
  · rintro ⟨hlive, hlt⟩
    have hwithin := h.within hlive
    rw [List.length_append] at hwithin
    have hlast : r.stop - 1 - before.length < behind.length := by omega
    have hat : (before ++ behind)[r.stop - 1]? = some behind[r.stop - 1 - before.length] := by
      rw [List.getElem?_append_right (by omega), List.getElem?_eq_getElem hlast]
    exact ⟨_, List.getElem_mem hlast, decide_eq_true ((h.owned_iff _ _ hat).2 ⟨by omega, by omega⟩)⟩

theorem mem_ownedAfter (h : Covers (before ++ behind) r owned) {n : Nat} :
    n ∈ OwnedText.ownedAfter before added behind owned ↔
      n ∈ owned ∨ (r.start < before.length ∧ before.length < r.stop ∧ n ∈ added.map Glyph.number) := by
  have hinside : (OwnedText.anyOwned owned before && OwnedText.anyOwned owned behind) = true ↔
      r.start < before.length ∧ before.length < r.stop := by
    rw [Bool.and_eq_true, h.anyOwned_before, h.anyOwned_behind]
    omega
  unfold OwnedText.ownedAfter
  by_cases hin : r.start < before.length ∧ before.length < r.stop
  · rw [if_pos (hinside.2 hin), List.mem_append]
    simp only [hin, true_and]
  · rw [if_neg fun hany => hin (hinside.1 hany)]
    exact (or_iff_left fun hmem => hin ⟨hmem.1, hmem.2.1⟩).symm

/-- Characters with new identities belong to a range when they come to lie inside it, and move it when they come to lie before it. -/
theorem insert (h : Covers (before ++ behind) r owned) (hnew : ∀ g ∈ added, g.number ∉ owned)
    (hold : ∀ g ∈ before ++ behind, g.number ∉ added.map Glyph.number) :
    Covers (before ++ added ++ behind) (r.afterInsert before.length added.length)
      (OwnedText.ownedAfter before added behind owned) := by
  have hwithin := h.within
  rw [List.length_append] at hwithin
  refine ⟨fun i g hat => ?_, fun hlive => ?_⟩
  · rw [h.mem_ownedAfter]
    simp only [AnchorRange.afterInsert]
    rcases Nat.lt_or_ge i before.length with hi | hi
    · rw [List.append_assoc, List.getElem?_append_left hi] at hat
      have hat' : (before ++ behind)[i]? = some g := by rw [List.getElem?_append_left hi, hat]
      rw [h.owned_iff i g hat', or_iff_left fun hmem => hold g (List.mem_of_getElem? hat') hmem.2.2]
      split <;> split <;> omega
    rcases Nat.lt_or_ge i (before.length + added.length) with hi' | hi'
    · rw [List.append_assoc, List.getElem?_append_right hi, List.getElem?_append_left (by omega)] at hat
      have hmem : g ∈ added := List.mem_of_getElem? hat
      rw [or_iff_right (hnew g hmem)]
      simp only [List.mem_map_of_mem (f := Glyph.number) hmem, and_true]
      split <;> split <;> omega
    · rw [List.getElem?_append_right (by rw [List.length_append]; exact hi'), List.length_append] at hat
      have hat' : (before ++ behind)[i - added.length]? = some g := by
        rw [List.getElem?_append_right (by omega), ← hat]
        congr 1
        omega
      rw [h.owned_iff _ g hat', or_iff_left fun hmem => hold g (List.mem_of_getElem? hat') hmem.2.2]
      split <;> split <;> omega
  · simp only [AnchorRange.afterInsert] at hlive ⊢
    simp only [List.length_append]
    split at hlive <;> split at hlive <;> split <;> omega

/-- What is deleted is lost to the range, and what is left of it stays together. -/
theorem delete (h : Covers (before ++ middle ++ behind) r owned) :
    Covers (before ++ behind) (r.afterDelete before.length (before.length + middle.length)) owned := by
  have hwithin := h.within
  simp only [List.length_append] at hwithin
  refine ⟨fun i g hat => ?_, fun hlive => ?_⟩
  · simp only [AnchorRange.afterDelete, AnchorRange.shrink]
    rcases Nat.lt_or_ge i before.length with hi | hi
    · rw [List.getElem?_append_left hi] at hat
      have hat' : (before ++ middle ++ behind)[i]? = some g := by
        rw [List.append_assoc, List.getElem?_append_left hi, hat]
      rw [h.owned_iff i g hat']
      repeat' split
      all_goals omega
    · rw [List.getElem?_append_right hi] at hat
      have hat' : (before ++ middle ++ behind)[i + middle.length]? = some g := by
        rw [List.getElem?_append_right (by rw [List.length_append]; omega), List.length_append, ← hat]
        congr 1
        omega
      rw [h.owned_iff _ g hat']
      repeat' split
      all_goals omega
  · simp only [AnchorRange.afterDelete, AnchorRange.shrink] at hlive ⊢
    simp only [List.length_append]
    repeat' split at hlive
    all_goals repeat' split
    all_goals omega

/-- A range over a part of the text covers the characters of this part, since no others have their identities. -/
theorem of_nodup (hnodup : ((before ++ middle ++ behind).map Glyph.number).Nodup) :
    Covers (before ++ middle ++ behind) ⟨before.length, before.length + middle.length⟩ (middle.map Glyph.number) := by
  refine ⟨fun i g hat => ?_, fun _ => by simp only [List.length_append]; omega⟩
  dsimp only
  have hinj : ∀ j g', (before ++ middle ++ behind)[j]? = some g' → g'.number = g.number → j = i := by
    intro j g' hat' hnumber
    obtain ⟨hj, -⟩ := List.getElem?_eq_some_iff.1 hat'
    refine (List.getElem?_inj (by rwa [List.length_map]) hnodup).1 ?_
    rw [List.getElem?_map, List.getElem?_map, hat', hat, Option.map_some, Option.map_some, hnumber]
  have hmiddle : ∀ k, (hk : k < middle.length) → (before ++ middle ++ behind)[before.length + k]? = some middle[k] := by
    intro k hk
    rw [List.append_assoc, List.getElem?_append_right (Nat.le_add_right _ _), Nat.add_sub_cancel_left,
      List.getElem?_append_left hk, List.getElem?_eq_getElem hk]
  constructor
  · intro hmem
    obtain ⟨g', hg', hnumber⟩ := List.mem_map.1 hmem
    obtain ⟨k, hk, rfl⟩ := List.getElem_of_mem hg'
    have := hinj _ _ (hmiddle k hk) hnumber
    omega
  · rintro ⟨hstart, hstop⟩
    obtain ⟨k, rfl⟩ := Nat.exists_eq_add_of_le hstart
    have hk : k < middle.length := by omega
    rw [hmiddle k hk, Option.some.injEq] at hat
    rw [← hat]
    exact List.mem_map_of_mem (List.getElem_mem hk)

end Covers

/-! ## The two buffers side by side -/

/-- An anchor of the plain buffer and one that owns characters: they have the same number and mean the same characters. -/
structure SameAnchor (o : OwnedText) (a : Nat × AnchorRange) (b : Nat × List Nat) : Prop where
  handle : a.1 = b.1
  covers : Covers o.glyphs a.2 b.2
  below : ∀ n ∈ b.2, n < o.nextGlyph

/-- A plain buffer and a text with identities that went through the same calls. -/
structure Mirrors (b : MemoryBuffer) (o : OwnedText) : Prop where
  text : b.text = o.text
  nextHandle : b.nextHandle = o.nextHandle
  nodup : (o.glyphs.map Glyph.number).Nodup
  below : ∀ g ∈ o.glyphs, g.number < o.nextGlyph
  anchors : List.Forall₂ (SameAnchor o) b.anchors o.owners

namespace OwnedText

theorem map_char_number (first : Nat) (t : Text) : (number first t).map Glyph.char = t := by
  induction t generalizing first with
  | nil => rfl
  | cons c t ih => rw [number, List.map_cons, ih]

theorem map_number_number (first : Nat) (t : Text) : (number first t).map Glyph.number = List.range' first t.length := by
  induction t generalizing first with
  | nil => rfl
  | cons c t ih => rw [number, List.map_cons, ih, List.length_cons, List.range'_succ]

theorem length_number (first : Nat) (t : Text) : (number first t).length = t.length := by
  rw [← List.length_map (f := Glyph.char), map_char_number]

theorem le_of_mem_number {first : Nat} {t : Text} {g : Glyph} (h : g ∈ number first t) :
    first ≤ g.number ∧ g.number < first + t.length := by
  have hmem := List.mem_map_of_mem (f := Glyph.number) h
  rw [map_number_number, List.mem_range'_1] at hmem
  exact hmem

end OwnedText

/-- Two lists with the same keys in the same order have values for the same keys. -/
theorem lookup_of_forall₂ {α γ : Type} {R : Nat × α → Nat × γ → Prop} {as : List (Nat × α)} {cs : List (Nat × γ)}
    (hkey : ∀ a c, R a c → a.1 = c.1) (h : List.Forall₂ R as cs) (key : Nat) :
    (as.lookup key = none ∧ cs.lookup key = none) ∨
      ∃ x y, as.lookup key = some x ∧ cs.lookup key = some y ∧ R (key, x) (key, y) := by
  induction h with
  | nil => exact .inl ⟨rfl, rfl⟩
  | @cons a c as cs hhead _ ih =>
    obtain ⟨n, x⟩ := a
    obtain ⟨m, y⟩ := c
    obtain rfl : n = m := hkey _ _ hhead
    rw [List.lookup_cons, List.lookup_cons]
    by_cases hn : key = n
    · subst hn
      rw [beq_self_eq_true]
      exact .inr ⟨x, y, rfl, rfl, hhead⟩
    · rw [beq_false_of_ne hn]
      exact ih

namespace Mirrors

open OwnedText

variable {b : MemoryBuffer} {o : OwnedText}

theorem length_eq (h : Mirrors b o) : b.text.length = o.glyphs.length := by
  rw [h.text, OwnedText.text, List.length_map]

theorem insertAt (h : Mirrors b o) (pos : Nat) (hpos : pos ≤ b.text.length) (t : Text) :
    Mirrors (b.insertAt pos t) (o.insertAt pos t) := by
  have hlength : (o.glyphs.take pos).length = pos := by
    rw [List.length_take, ← h.length_eq]
    omega
  have hsplit : o.glyphs.take pos ++ o.glyphs.drop pos = o.glyphs := List.take_append_drop pos o.glyphs
  have hold : ∀ g ∈ o.glyphs.take pos ++ o.glyphs.drop pos, g.number ∉ (number o.nextGlyph t).map Glyph.number := by
    intro g hg hmem
    rw [hsplit] at hg
    rw [map_number_number, List.mem_range'_1] at hmem
    have := h.below g hg
    omega
  refine ⟨?_, h.nextHandle, ?_, fun g hg => ?_, ?_⟩
  · simp only [MemoryBuffer.insertAt, OwnedText.insertAt, OwnedText.text, List.map_append, map_char_number,
      List.map_take, List.map_drop, h.text]
  · have hperm : (o.glyphs.take pos ++ number o.nextGlyph t ++ o.glyphs.drop pos).Perm
        (o.glyphs.take pos ++ o.glyphs.drop pos ++ number o.nextGlyph t) := by
      rw [List.append_assoc, List.append_assoc]
      exact List.Perm.append_left _ List.perm_append_comm
    rw [hsplit] at hperm
    refine (hperm.map Glyph.number).nodup_iff.2 ?_
    rw [List.map_append, map_number_number, List.nodup_append]
    refine ⟨h.nodup, List.nodup_range', fun n hn m hm => ?_⟩
    obtain ⟨g, hg, rfl⟩ := List.mem_map.1 hn
    have := h.below g hg
    have := List.mem_range'_1.1 hm
    omega
  · show g.number < o.nextGlyph + t.length
    rcases List.mem_append.1 hg with hg | hg
    · rcases List.mem_append.1 hg with hg | hg
      · have := h.below g (List.mem_of_mem_take hg)
        omega
      · exact (le_of_mem_number hg).2
    · have := h.below g (List.mem_of_mem_drop hg)
      omega
  · refine List.forall₂_map_left_iff.2 (List.forall₂_map_right_iff.2 (h.anchors.imp fun a c hac => ?_))
    have hcovers : Covers (o.glyphs.take pos ++ o.glyphs.drop pos) a.2 c.2 := by
      rw [hsplit]
      exact hac.covers
    refine ⟨hac.handle, ?_, fun n hn => ?_⟩
    · have hnew : ∀ g ∈ number o.nextGlyph t, g.number ∉ c.2 := by
        intro g hg hmem
        have := hac.below _ hmem
        have := le_of_mem_number hg
        omega
      have := hcovers.insert hnew hold
      rwa [hlength, length_number] at this
    · show n < o.nextGlyph + t.length
      rcases hcovers.mem_ownedAfter.1 hn with hn | ⟨-, -, hn⟩
      · have := hac.below n hn
        omega
      · rw [map_number_number, List.mem_range'_1] at hn
        exact hn.2

theorem deleteBetween (h : Mirrors b o) {start stop : Nat} (hle : start ≤ stop) (hstop : stop ≤ b.text.length) :
    Mirrors (b.deleteBetween start stop) (o.deleteBetween start stop) := by
  rw [h.length_eq] at hstop
  have hstart : (o.glyphs.take start).length = start := by
    rw [List.length_take]
    omega
  have hmiddle : ((o.glyphs.take stop).drop start).length = stop - start := by
    rw [List.length_drop, List.length_take]
    omega
  have hsplit : o.glyphs.take start ++ (o.glyphs.take stop).drop start ++ o.glyphs.drop stop = o.glyphs := by
    have htake := List.take_append_drop start (o.glyphs.take stop)
    rw [List.take_take, Nat.min_eq_left hle] at htake
    rw [htake, List.take_append_drop]
  have hsub : (o.glyphs.take start ++ o.glyphs.drop stop).Sublist o.glyphs := by
    have := (List.sublist_append_left (o.glyphs.take start) ((o.glyphs.take stop).drop start)).append
      (List.Sublist.refl (o.glyphs.drop stop))
    rwa [hsplit] at this
  refine ⟨?_, h.nextHandle, h.nodup.sublist (hsub.map _), fun g hg => h.below g (hsub.subset hg), ?_⟩
  · simp only [MemoryBuffer.deleteBetween, OwnedText.deleteBetween, OwnedText.text, List.map_append, List.map_take,
      List.map_drop, h.text]
  · refine List.forall₂_map_left_iff.2 (h.anchors.imp fun a c hac => ?_)
    refine ⟨hac.handle, ?_, hac.below⟩
    have hcovers := hac.covers
    rw [← hsplit] at hcovers
    have hdelete := hcovers.delete
    rwa [hstart, hmiddle, Nat.add_sub_cancel' hle] at hdelete

theorem createAnchor (h : Mirrors b o) {start : Nat} (hstart : start ≤ b.text.length) :
    Mirrors
      { b with anchors := b.anchors ++ [(b.nextHandle, ⟨start, b.text.lineEnd start⟩)], nextHandle := b.nextHandle + 1 }
      { o with
        owners := o.owners ++ [(o.nextHandle, (o.lineFrom start).map Glyph.number)], nextHandle := o.nextHandle + 1 } := by
  have hbefore : (o.glyphs.take start).length = start := by
    rw [List.length_take, ← h.length_eq]
    omega
  have hend : b.text.lineEnd start = start + (o.lineFrom start).length := by
    rw [Text.lineEnd, h.text, OwnedText.text, ← List.map_drop, List.takeWhile_map, List.length_map]
    rfl
  have hsplit : o.glyphs.take start ++ o.lineFrom start ++ (o.glyphs.drop start).dropWhile (·.char != '\n') = o.glyphs := by
    rw [lineFrom, List.append_assoc, List.takeWhile_append_dropWhile, List.take_append_drop]
  refine ⟨h.text, congrArg (· + 1) h.nextHandle, h.nodup, h.below, ?_⟩
  refine List.rel_append (h.anchors.imp fun a c hac => ⟨hac.handle, hac.covers, hac.below⟩) (.cons ?_ .nil)
  refine ⟨h.nextHandle, ?_, fun n hn => ?_⟩
  · have hcovers := Covers.of_nodup (hsplit ▸ h.nodup)
    rwa [hsplit, hbefore, ← hend] at hcovers
  · obtain ⟨g, hg, rfl⟩ := List.mem_map.1 hn
    exact h.below g (List.mem_of_mem_drop ((List.takeWhile_sublist _).subset hg))

theorem releaseAnchor (h : Mirrors b o) (handle : Nat) :
    Mirrors (b.releaseAnchor handle) (LineBuffer.releaseAnchor handle o) := by
  refine ⟨h.text, h.nextHandle, h.nodup, h.below, ?_⟩
  refine List.rel_filter (fun a c hac => ?_) (h.anchors.imp fun a c hac => ⟨hac.handle, hac.covers, hac.below⟩)
  show decide (a.1 ≠ handle) = true ↔ decide (c.1 ≠ handle) = true
  rw [hac.handle]

theorem clearAnchors (h : Mirrors b o) : Mirrors { b with anchors := [] } { o with owners := [] } :=
  ⟨h.text, h.nextHandle, h.nodup, h.below, .nil⟩

theorem ofText (t : Text) : Mirrors (.ofText t) (.ofText t) where
  text := (map_char_number 0 t).symm
  nextHandle := rfl
  nodup := by
    show ((number 0 t).map Glyph.number).Nodup
    rw [map_number_number]
    exact List.nodup_range'
  below g hg := by
    have := (le_of_mem_number (show g ∈ number 0 t from hg)).2
    rwa [Nat.zero_add] at this
  anchors := .nil

/-! ## Calls -/

/-- Two calls end alike: both with the same error, or in buffers that mirror each other. -/
inductive SameEnd : Except BufferError MemoryBuffer → Except BufferError OwnedText → Prop
  | error (e : BufferError) : SameEnd (.error e) (.error e)
  | ok {b : MemoryBuffer} {o : OwnedText} : Mirrors b o → SameEnd (.ok b) (.ok o)

theorem SameEnd.getD {x : Except BufferError MemoryBuffer} {y : Except BufferError OwnedText} (hend : SameEnd x y)
    (h : Mirrors b o) : Mirrors (x.toOption.getD b) (y.toOption.getD o) := by
  cases hend with
  | error e => exact h
  | ok h' => exact h'

theorem offset_eq (h : Mirrors b o) (line column : Int) : o.offset line column = b.offset line column := by
  rw [OwnedText.offset, ← h.text]
  rfl

theorem insert (h : Mirrors b o) (line column : Int) (t : Text) :
    SameEnd (LineBuffer.insert line column t b) (LineBuffer.insert line column t o) := by
  show SameEnd (b.insert line column t) (o.insert line column t)
  unfold MemoryBuffer.insert OwnedText.insert
  rw [h.offset_eq]
  cases hpos : b.offset line column with
  | error e => exact .error e
  | ok pos => exact .ok (h.insertAt pos (MemoryBuffer.offset_le hpos) t)

theorem delete (h : Mirrors b o) (l c l' c' : Int) :
    SameEnd (LineBuffer.delete l c l' c' b) (LineBuffer.delete l c l' c' o) := by
  show SameEnd (b.delete l c l' c') (o.delete l c l' c')
  unfold MemoryBuffer.delete OwnedText.delete
  rw [h.offset_eq, h.offset_eq]
  cases hstart : b.offset l c with
  | error e => exact .error e
  | ok start =>
    cases hstop : b.offset l' c' with
    | error e => exact .error e
    | ok stop =>
      have hstart' := MemoryBuffer.offset_le hstart
      have hstop' := MemoryBuffer.offset_le hstop
      exact .ok (h.deleteBetween (by omega) (by omega))

theorem getLine_eq (h : Mirrors b o) (line : Int) : LineBuffer.getLine o line = LineBuffer.getLine b line := by
  have htext : LineBuffer.text o = LineBuffer.text b := h.text.symm
  rw [LineBuffer.getLine, LineBuffer.line?, htext]
  rfl

theorem lineCount_eq (h : Mirrors b o) : LineBuffer.lineCount o = LineBuffer.lineCount b :=
  congrArg Text.lineCount h.text.symm

theorem insertLines (h : Mirrors b o) (before : Int) (ls : List Text) :
    SameEnd (LineBuffer.insertLines before ls b) (LineBuffer.insertLines before ls o) := by
  unfold LineBuffer.insertLines
  dsimp only
  rw [h.lineCount_eq, h.getLine_eq]
  split
  · cases LineBuffer.getLine b (LineBuffer.lineCount b) with
    | error e => exact .error e
    | ok l => exact h.insert _ _ _
  · exact h.insert _ _ _

theorem deleteLines (h : Mirrors b o) (first last : Int) :
    SameEnd (LineBuffer.deleteLines first last b) (LineBuffer.deleteLines first last o) := by
  unfold LineBuffer.deleteLines
  dsimp only
  rw [h.lineCount_eq, h.getLine_eq, h.getLine_eq]
  split
  · exact h.delete _ _ _ _
  split
  · cases LineBuffer.getLine b (first - 1) with
    | error e => exact .error e
    | ok l =>
      cases LineBuffer.getLine b (min last (LineBuffer.lineCount b)) with
      | error e => exact .error e
      | ok l' => exact h.delete _ _ _ _
  · cases LineBuffer.getLine b (min last (LineBuffer.lineCount b)) with
    | error e => exact .error e
    | ok l => exact h.delete _ _ _ _

theorem perform (h : Mirrors b o) (call : BufferCall) : Mirrors (call.perform b) (call.perform o) := by
  cases call with
  | insert line column t => exact (h.insert line column t).getD h
  | delete l c l' c' => exact (h.delete l c l' c').getD h
  | insertLines before ls => exact (h.insertLines before ls).getD h
  | deleteLines first last => exact (h.deleteLines first last).getD h
  | setText t =>
    have hdelete := h.deleteBetween (Nat.zero_le _) (Nat.le_refl b.text.length)
    have hinsert := hdelete.insertAt 0 (Nat.zero_le _) t
    rw [h.length_eq] at hinsert
    have hlength := h.length_eq
    show Mirrors (b.setText t) (o.setText t)
    rw [MemoryBuffer.setText, OwnedText.setText, hlength]
    exact hinsert
  | createAnchor line =>
    show Mirrors (((b.createAnchor line).toOption.map Prod.snd).getD b)
      (((o.createAnchor line).toOption.map Prod.snd).getD o)
    unfold MemoryBuffer.createAnchor OwnedText.createAnchor
    rw [← h.text]
    cases hstart : b.text.lineStart? line with
    | none => exact h
    | some start => exact h.createAnchor (Text.lineStart?_le hstart)
  | releaseAnchor handle => exact h.releaseAnchor handle
  | clearAnchors => exact h.clearAnchors

theorem performAll (h : Mirrors b o) (calls : List BufferCall) :
    Mirrors (BufferCall.performAll b calls) (BufferCall.performAll o calls) := by
  induction calls generalizing b o with
  | nil => exact h
  | cons call calls ih => exact ih (h.perform call)

/-- The anchor of the plain buffer, by what the text with identities says of it. -/
theorem lookup_cases (h : Mirrors b o) (handle : Nat) :
    (b.anchors.lookup handle = none ∧ o.owners.lookup handle = none) ∨
      ∃ r owned, b.anchors.lookup handle = some r ∧ o.owners.lookup handle = some owned ∧ Covers o.glyphs r owned := by
  obtain hnone | ⟨r, owned, hr, howned, hsame⟩ := lookup_of_forall₂ (fun _ _ hac => hac.handle) h.anchors handle
  · exact .inl hnone
  · exact .inr ⟨r, owned, hr, howned, hsame.covers⟩

end Mirrors

/-! ## What an anchor stands for -/

/-- What a plain buffer says of an anchor, in terms of the characters that this anchor owns. -/
structure StandsFor (b : MemoryBuffer) (o : OwnedText) (handle : Nat) : Prop where
  text : b.text = o.text
  /-- The anchor has no start exactly when none of its characters is left. -/
  gone_iff : b.anchorStart? handle = none ↔ ∀ g ∈ o.glyphs, ¬ o.Owns handle g
  /-- Otherwise it starts at the line and column of the first one. -/
  start : ∀ before g behind, o.glyphs = before ++ g :: behind → o.Owns handle g → (∀ g' ∈ before, ¬ o.Owns handle g') →
    b.anchorStart? handle = some (b.text.position before.length)
  /-- Between its two offsets lie the characters it owns, and no others. -/
  range : ∀ r, b.anchors.lookup handle = some r → ∀ i g, o.glyphs[i]? = some g →
    (o.Owns handle g ↔ r.start ≤ i ∧ i < r.stop)
  within : ∀ r, b.anchors.lookup handle = some r → r.start < r.stop → r.stop ≤ b.text.length

theorem Mirrors.standsFor {b : MemoryBuffer} {o : OwnedText} (h : Mirrors b o) (handle : Nat) :
    StandsFor b o handle := by
  obtain ⟨hr, howned⟩ | ⟨r, owned, hr, howned, hcovers⟩ := h.lookup_cases handle
  · have howns : ∀ g, ¬ o.Owns handle g := by
      rintro g ⟨owned, hmem, -⟩
      rw [howned] at hmem
      cases hmem
    have hnone : ∀ r, b.anchors.lookup handle ≠ some r := by
      rw [hr]
      exact nofun
    refine ⟨h.text, ?_, fun before g behind _ hg => absurd hg (howns g), fun r hr' => absurd hr' (hnone r),
      fun r hr' => absurd hr' (hnone r)⟩
    rw [MemoryBuffer.anchorStart?_eq_none_iff]
    exact ⟨fun _ g _ => howns g, fun _ r hr' => absurd hr' (hnone r)⟩
  · have howns : ∀ g, o.Owns handle g ↔ g.number ∈ owned := by
      intro g
      refine ⟨fun ⟨owned', hmem, hg⟩ => ?_, fun hg => ⟨owned, howned, hg⟩⟩
      rw [howned] at hmem
      rwa [Option.mem_some_iff.1 hmem]
    have hgone : b.anchorStart? handle = none ↔ r.stop ≤ r.start := by
      rw [MemoryBuffer.anchorStart?_eq_none_iff]
      exact ⟨fun hgone => hgone r hr, fun hle r' hr' => Option.some.inj (hr.symm.trans hr') ▸ hle⟩
    refine ⟨h.text, ?_, fun before g behind hsplit hg hfirst => ?_, fun r' hr' i g hat => ?_, fun r' hr' => ?_⟩
    · rw [hgone]
      constructor
      · intro hle g hg hown
        obtain ⟨i, hi, rfl⟩ := List.getElem_of_mem hg
        have := (hcovers.owned_iff i _ (List.getElem?_eq_getElem hi)).1 ((howns _).1 hown)
        omega
      · intro hnone
        by_contra hlive
        have hlt : r.start < o.glyphs.length := by
          have := hcovers.within (by omega)
          omega
        refine hnone _ (List.getElem_mem hlt) ((howns _).2 ?_)
        exact (hcovers.owned_iff r.start _ (List.getElem?_eq_getElem hlt)).2 ⟨Nat.le_refl _, by omega⟩
    · have hat : o.glyphs[before.length]? = some g := by rw [hsplit]; simp
      have hinside := (hcovers.owned_iff before.length g hat).1 ((howns g).1 hg)
      have hstart : r.start = before.length := by
        by_contra hne
        have hlt : r.start < before.length := by omega
        refine hfirst _ (List.getElem_mem hlt) ((howns _).2 ((hcovers.owned_iff r.start _ ?_).2 ⟨Nat.le_refl _, by omega⟩))
        rw [hsplit, List.getElem?_append_left hlt, List.getElem?_eq_getElem hlt]
      have hlive : before.length < r.stop := hinside.2
      simp only [MemoryBuffer.anchorStart?, hr, Option.filter_some, hstart, decide_eq_true hlive, if_true,
        Option.map_some]
    · rw [howns, ← Option.some.inj (hr.symm.trans hr')]
      exact hcovers.owned_iff i g hat
    · rw [h.length_eq, ← Option.some.inj (hr.symm.trans hr')]
      exact hcovers.within

/-- After any calls, what a plain buffer says of its anchors is what the characters say that these anchors own. An anchor that was made and has no start any more never has one again. -/
theorem standsFor_performAll (t : Text) (calls : List BufferCall) (handle : Nat) :
    StandsFor (BufferCall.performAll (.ofText t) calls) (BufferCall.performAll (.ofText t) calls) handle ∧
    (handle < (BufferCall.performAll (MemoryBuffer.ofText t) calls).nextHandle →
      (BufferCall.performAll (MemoryBuffer.ofText t) calls).anchorStart? handle = none →
      ∀ more, (BufferCall.performAll (MemoryBuffer.ofText t) (calls ++ more)).anchorStart? handle = none) := by
  refine ⟨((Mirrors.ofText t).performAll calls).standsFor handle, fun hmade hgone more => ?_⟩
  rw [MemoryBuffer.anchorStart?_eq_none_iff] at hgone ⊢
  rw [BufferCall.performAll, List.foldl_append]
  exact hgone.performAll hmade more

end LineTags
