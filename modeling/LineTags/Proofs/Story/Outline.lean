import LineTags.Minting.Candidate
import LineTags.Proofs.Text.Blanks
import LineTags.Story.Inline
import Mathlib.Algebra.GroupWithZero.Nat
import Mathlib.Data.List.Basic

/-!
# What a story says

Two trees tell the same story if they differ in the blanks around their texts only. The outline of a tree is what is left when these blanks go, and with them the texts that have nothing else, and when the tags go that are named to be hidden. What stands in logic and in an included file is no text of the script and stays as it is.

A tag put between the pieces of a line leaves the outline of the line alone, provided that it is hidden itself and only blanks come with it. The measures at the end tell outlines apart: the visible characters of a line, the length of its interpolations and the number of its tags.
-/

namespace LineTags

open Text

namespace Node

variable (hidden : Text → Option Place → Bool)

mutual

def outline? : Node → Option Node
  | .text t place => if isBlankText t then none else some (.text (strip t) place)
  | .tag t place => if hidden t place then none else some (.tag t place)
  | .branch role place content =>
    match role with
    | .inclusion _ => some (.branch role place content)
    | _ => some (.branch role place (if role.isLogic then content else outlines content))

def outlines : List Node → List Node
  | [] => []
  | n :: ns => (outline? n).toList ++ outlines ns

end

theorem outlines_eq_flatMap (ns : List Node) : outlines hidden ns = ns.flatMap fun n => (outline? hidden n).toList := by
  induction ns with
  | nil => rfl
  | cons n ns ih => rw [outlines, ih, List.flatMap_cons]

theorem outlines_append (ns ms : List Node) : outlines hidden (ns ++ ms) = outlines hidden ns ++ outlines hidden ms := by
  simp only [outlines_eq_flatMap, List.flatMap_append]

end Node

open Node

/-- What the tag of an identifier is as a node. -/
def tagText (identifier : Text) : Text := 'i' :: 'd' :: ':' :: identifier

theorem formatTag_eq (identifier : Text) : formatTag identifier = '#' :: tagText identifier := rfl

variable {place : Place} {hidden hidden' : Text → Option Place → Bool}

/-! ### One tag more -/

/-- The new pieces are the old ones with a tag in between and with other blanks in front of it. Behind it the line ends or a bracket follows. -/
def TagAdded (t : Text) (old new : List Piece) : Prop :=
  ∃ (ps qs : List Piece) (w w' : Text), isBlankText w ∧ isBlankText w' ∧ (∀ q ∈ qs.head?, q = .bracket) ∧
    old = ps ++ w.map .char ++ qs ∧ new = ps ++ w'.map .char ++ .tag t :: qs

theorem outlines_textNode (t : Text) :
    outlines hidden (textNode place t) = if isBlankText t then [] else [.text (strip t) (some place)] := by
  unfold textNode
  cases t with
  | nil => rfl
  | cons c t =>
    show outlines hidden [.text (c :: t) (some place)] = _
    simp only [outlines, outline?]
    split <;> rfl

theorem outlines_textNode_append (t : Text) {w : Text} (hw : isBlankText w) :
    outlines hidden (textNode place (t ++ w)) = outlines hidden (textNode place t) := by
  rw [outlines_textNode, outlines_textNode, isBlankText_append, hw, Bool.and_true,
    strip_append_blanks t (isBlankText_iff.1 hw)]

/-- What the pieces behind a place come to, up to the blanks that end the text they start with. -/
def SameNodes (place : Place) (hidden hidden' : Text → Option Place → Bool) (ps qs : List Piece) : Prop :=
  (∃ t w w', isBlankText w ∧ isBlankText w' ∧ (nodesFrom place ps).1 = t ++ w ∧ (nodesFrom place qs).1 = t ++ w') ∧
    outlines hidden (nodesFrom place ps).2 = outlines hidden' (nodesFrom place qs).2

theorem SameNodes.outlines_nodesOf {ps qs : List Piece} (h : SameNodes place hidden hidden' ps qs) :
    outlines hidden (nodesOf place ps) = outlines hidden' (nodesOf place qs) := by
  obtain ⟨⟨t, w, w', hw, hw', ht, ht'⟩, hnodes⟩ := h
  unfold nodesOf
  dsimp only
  rw [outlines_append, outlines_append, hnodes, ht, ht', outlines_textNode_append t hw, outlines_textNode_append t hw',
    outlines_textNode, outlines_textNode]

theorem SameNodes.cons {p : Piece} {ps qs : List Piece} (h : SameNodes place hidden hidden' ps qs)
    (hp : ∀ t, p = .tag t → hidden t place = hidden' t place) : SameNodes place hidden hidden' (p :: ps) (p :: qs) := by
  have hnodes := h.outlines_nodesOf
  unfold nodesOf at hnodes
  dsimp only at hnodes
  have hnil : ∃ t w w' : Text, isBlankText w ∧ isBlankText w' ∧ [] = t ++ w ∧ [] = t ++ w' :=
    ⟨[], [], [], rfl, rfl, rfl, rfl⟩
  cases p with
  | char c =>
    obtain ⟨⟨t, w, w', hw, hw', ht, ht'⟩, hrest⟩ := h
    refine ⟨⟨c :: t, w, w', hw, hw', ?_, ?_⟩, hrest⟩
    · exact congrArg (c :: ·) ht
    · exact congrArg (c :: ·) ht'
  | bracket => exact ⟨hnil, hnodes⟩
  | interpolation body =>
    refine ⟨hnil, ?_⟩
    show outlines hidden (_ :: (_ ++ _)) = outlines hidden' (_ :: (_ ++ _))
    rw [outlines, outlines, hnodes]
    rfl
  | tag t =>
    refine ⟨hnil, ?_⟩
    show outlines hidden (_ :: (_ ++ _)) = outlines hidden' (_ :: (_ ++ _))
    rw [outlines, outlines, hnodes, outline?, outline?, hp t rfl]
  | divert target =>
    refine ⟨hnil, ?_⟩
    show outlines hidden (_ :: (_ ++ _)) = outlines hidden' (_ :: (_ ++ _))
    rw [outlines, outlines, hnodes]
    rfl

theorem SameNodes.append {ps qs : List Piece} (h : SameNodes place hidden hidden' ps qs) :
    ∀ before : List Piece, (∀ t, .tag t ∈ before → hidden t place = hidden' t place) →
      SameNodes place hidden hidden' (before ++ ps) (before ++ qs) := by
  intro before hbefore
  induction before with
  | nil => exact h
  | cons p before ih =>
    refine (ih fun t ht => hbefore t (List.mem_cons_of_mem _ ht)).cons fun t ht => ?_
    exact hbefore t (ht ▸ List.mem_cons_self)

theorem nodesFrom_chars (w : Text) (ps : List Piece) :
    nodesFrom place (w.map .char ++ ps) = (w ++ (nodesFrom place ps).1, (nodesFrom place ps).2) := by
  induction w with
  | nil => rfl
  | cons c w ih => rw [List.map_cons, List.cons_append, nodesFrom, ih]; rfl

theorem nodesFrom_fst_of_head? {ps : List Piece} (hps : ∀ p ∈ ps.head?, p = .bracket) : (nodesFrom place ps).1 = [] := by
  cases ps with
  | nil => rfl
  | cons p ps =>
    obtain rfl := hps p rfl
    rfl

/-- A tag that is added and hidden changes no outline. -/
theorem outlines_of_tagAdded {t : Text} {old new : List Piece} (h : TagAdded t old new) (ht : hidden' t place = true)
    (hold : ∀ s, .tag s ∈ old → hidden s place = hidden' s place) :
    outlines hidden (nodesOf place old) = outlines hidden' (nodesOf place new) := by
  obtain ⟨ps, qs, w, w', hw, hw', hqs, rfl, rfl⟩ := h
  refine SameNodes.outlines_nodesOf ?_
  rw [List.append_assoc, List.append_assoc]
  refine SameNodes.append ?_ ps fun s hs => hold s (List.mem_append_left _ (List.mem_append_left _ hs))
  have hrest : SameNodes place hidden hidden' qs qs := by
    have hself : SameNodes place hidden hidden' [] [] := ⟨⟨[], [], [], rfl, rfl, rfl, rfl⟩, rfl⟩
    have := hself.append qs fun s hs => hold s (List.mem_append_right _ hs)
    rwa [List.append_nil] at this
  have hfst : (nodesFrom place qs).1 = [] := nodesFrom_fst_of_head? hqs
  refine ⟨⟨[], w, w', hw, hw', ?_, ?_⟩, ?_⟩
  · rw [nodesFrom_chars, hfst, List.append_nil, List.nil_append]
  · rw [nodesFrom_chars, nodesFrom]
    show w' ++ [] = _
    rw [List.append_nil, List.nil_append]
  · rw [nodesFrom_chars, nodesFrom_chars, nodesFrom]
    show outlines hidden (nodesFrom place qs).2 = outlines hidden' (.tag t (some place) :: (textNode place _ ++ _))
    rw [outlines, outline?, hfst, ht]
    exact hrest.2

/-! ### Measures -/

/-- What the parts of a line weigh. Blanks weigh nothing, since no outline keeps them. -/
structure Weights where
  char : Char → Nat
  interpolation : Text → Nat
  tag : Text → Nat
  blank : ∀ c, isBlank c → char c = 0

namespace Weights

variable (m : Weights)

def ofPiece : Piece → Nat
  | .char c => m.char c
  | .interpolation body => m.interpolation body
  | .tag t => m.tag t
  | .bracket | .divert _ => 0

def ofNode : Node → Nat
  | .text t _ => (t.map m.char).sum
  | .tag t _ => m.tag t
  | .branch .interpolation _ [.text t _] => m.interpolation t
  | .branch _ _ _ => 0

def ofPieces (ps : List Piece) : Nat := (ps.map m.ofPiece).sum

def ofNodes (ns : List Node) : Nat := (ns.map m.ofNode).sum

theorem ofPieces_cons (p : Piece) (ps : List Piece) : m.ofPieces (p :: ps) = m.ofPiece p + m.ofPieces ps := List.sum_cons

theorem ofPieces_append (ps qs : List Piece) : m.ofPieces (ps ++ qs) = m.ofPieces ps + m.ofPieces qs := by
  rw [ofPieces, List.map_append, List.sum_append]
  rfl

theorem ofNodes_append (ns ms : List Node) : m.ofNodes (ns ++ ms) = m.ofNodes ns + m.ofNodes ms := by
  rw [ofNodes, List.map_append, List.sum_append]
  rfl

theorem sum_of_blanks {w : Text} (hw : ∀ c ∈ w, isBlank c) : (w.map m.char).sum = 0 := by
  induction w with
  | nil => rfl
  | cons c w ih =>
    rw [List.map_cons, List.sum_cons, m.blank c (hw c List.mem_cons_self),
      ih fun d hd => hw d (List.mem_cons_of_mem _ hd)]

theorem sum_strip (t : Text) : ((strip t).map m.char).sum = (t.map m.char).sum := by
  obtain ⟨w, hw, hend⟩ := exists_blanks_stripEnd (stripStart t)
  have hstart : t = t.takeWhile isBlank ++ stripStart t := List.takeWhile_append_dropWhile.symm
  have hfront : ((t.takeWhile isBlank).map m.char).sum = 0 := m.sum_of_blanks fun c hc => List.mem_takeWhile_imp hc
  have hback := m.sum_of_blanks hw
  conv => rhs; rw [hstart, hend]
  simp only [List.map_append, List.sum_append, hfront, hback]
  rw [strip]
  omega

theorem ofNodes_outlines_textNode (t : Text) :
    m.ofNodes (outlines hidden (textNode place t)) = (t.map m.char).sum := by
  rw [outlines_textNode]
  split
  · next hblank => exact (m.sum_of_blanks (isBlankText_iff.1 hblank)).symm
  · show ((strip t).map m.char).sum + 0 = _
    rw [Nat.add_zero, m.sum_strip]

theorem ofNodes_cons_outline? (n : Node) (t : Text) (ns : List Node) (h : m.ofNodes (outline? hidden n).toList = m.ofNode n) :
    m.ofNodes (outlines hidden (n :: (textNode place t ++ ns))) =
      m.ofNode n + ((t.map m.char).sum + m.ofNodes (outlines hidden ns)) := by
  rw [outlines, outlines_append, ofNodes_append, ofNodes_append, ofNodes_outlines_textNode, h]

/-- What a line weighs can be told from its outline. -/
theorem ofNodes_outlines_nodesOf (htag : ∀ t, hidden t place = true → m.tag t = 0) (ps : List Piece) :
    m.ofNodes (outlines hidden (nodesOf place ps)) = m.ofPieces ps := by
  have hfrom : ((nodesFrom place ps).1.map m.char).sum + m.ofNodes (outlines hidden (nodesFrom place ps).2) =
      m.ofPieces ps := by
    induction ps with
    | nil => rfl
    | cons p ps ih =>
      rw [ofPieces_cons, ← ih]
      cases p with
      | char c =>
        show (m.char c + _) + _ = m.char c + _
        rw [Nat.add_assoc]
        rfl
      | bracket =>
        show 0 + m.ofNodes (outlines hidden (textNode place _ ++ _)) = 0 + _
        rw [outlines_append, ofNodes_append, ofNodes_outlines_textNode]
      | interpolation body =>
        show 0 + m.ofNodes (outlines hidden (_ :: (textNode place _ ++ _))) = _
        rw [ofNodes_cons_outline? m _ _ _ rfl, Nat.zero_add]
        rfl
      | tag t =>
        show 0 + m.ofNodes (outlines hidden (_ :: (textNode place _ ++ _))) = _
        rw [ofNodes_cons_outline? m, Nat.zero_add]
        · rfl
        · rw [outline?]
          split
          · next hhidden => exact (htag t hhidden).symm
          · rfl
      | divert target =>
        show 0 + m.ofNodes (outlines hidden (_ :: (textNode place _ ++ _))) = _
        rw [ofNodes_cons_outline? m _ _ _ rfl, Nat.zero_add]
        rfl
  unfold nodesOf
  dsimp only
  rw [outlines_append, ofNodes_append, ofNodes_outlines_textNode, hfrom]

end Weights

/-- Some measure that takes no notice of the tag tells the pieces apart. -/
def Differ (t : Text) (old new : List Piece) : Prop := ∃ m : Weights, m.tag t = 0 ∧ m.ofPieces old ≠ m.ofPieces new

theorem outlines_ne_of_differ {t : Text} {old new : List Piece} (h : Differ t old new)
    (hhidden : ∀ s, hidden s place = false) (hhidden' : ∀ s, hidden' s place = true → s = t) :
    outlines hidden (nodesOf place old) ≠ outlines hidden' (nodesOf place new) := by
  obtain ⟨m, htag, hne⟩ := h
  intro heq
  refine hne ?_
  have hnone : ∀ s, hidden s place = true → m.tag s = 0 := by
    intro s hs
    rw [hhidden s] at hs
    exact Bool.noConfusion hs
  rw [← m.ofNodes_outlines_nodesOf hnone, heq, m.ofNodes_outlines_nodesOf]
  intro s hs
  rw [hhidden' s hs, htag]

end LineTags
