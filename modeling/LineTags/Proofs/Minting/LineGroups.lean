import LineTags.Proofs.Minting.Freshness
import LineTags.Proofs.Tag.Grammar
import LineTags.Story.LineForm

/-!
# From a new identifier back to its line

A line gets one identifier at most, since its pieces are in one group. The identifier starts with the names around the first piece and ends in a code, so it is an identifier in the sense of tags as soon as these names are names of containers and the code has the length of a code.
-/

namespace LineTags

open Text LineForm

/-! ### Identifiers -/

theorem split_append_sep (sep : Char) (s t : Text) : split sep (s ++ sep :: t) = split sep s ++ split sep t := by
  induction s with
  | nil => exact split_append_cons List.not_mem_nil t
  | cons c s ih =>
    obtain ⟨first, others, hs⟩ := List.exists_cons_of_ne_nil (split_ne_nil sep s)
    rw [List.cons_append, split, split, ih, hs]
    split <;> rfl

theorem isIdentifier_append {name t : Text} (hname : isContainerName name = true) (ht : isIdentifier t = true) :
    isIdentifier (name ++ '_' :: t) = true := by
  rw [isContainerName] at hname
  simp only [isIdentifier, Bool.and_eq_true] at ht ⊢
  obtain ⟨hall, hlast⟩ := ht
  rw [split_append_sep, List.all_append, hname, hall, List.getLast?_append_of_ne_nil _ (split_ne_nil '_' t)]
  exact ⟨rfl, hlast⟩

theorem isAlphanum_of_mem_alphabet : ∀ c ∈ CodeSource.alphabet, c.isAlphanum = true := List.all_eq_true.1 (by decide)

theorem isIdentifier_code {code : Text} (hlength : code.length = codeLength) (hcode : ∀ c ∈ code, c ∈ CodeSource.alphabet) :
    isIdentifier code = true := by
  have hsplit : split '_' code = [code] := split_of_not_mem fun hmem => absurd (hcode _ hmem) (by decide)
  have hne : code.isEmpty = false := by
    rw [List.isEmpty_eq_false_iff]
    rintro rfl
    cases hlength
  have hall : code.all Char.isAlphanum = true :=
    List.all_eq_true.2 fun c hc => isAlphanum_of_mem_alphabet c (hcode c hc)
  rw [isIdentifier, hsplit]
  simp only [List.all_cons, List.all_nil, hne, hall, List.getLast?_singleton, Option.map_some, hlength]
  rfl

theorem isIdentifier_stem {ancestry : List Container} (hnames : ∀ k ∈ ancestry, isContainerName k.name = true)
    {code : Text} (hlength : code.length = codeLength) (hcode : ∀ c ∈ code, c ∈ CodeSource.alphabet) :
    isIdentifier (identifierStem ancestry ++ code) = true := by
  unfold identifierStem
  induction ancestry with
  | nil => exact isIdentifier_code hlength hcode
  | cons k ancestry ih =>
    have hrest := ih fun m hm => hnames m (List.mem_cons_of_mem _ hm)
    rw [List.filter_cons]
    split
    · rw [List.flatMap_cons, List.append_assoc, List.append_assoc]
      exact isIdentifier_append (hnames k List.mem_cons_self) hrest
    · exact hrest

/-- With a code of any length the names and the code are at least a word. -/
theorem isWord_stem {ancestry : List Container} (hnames : ∀ k ∈ ancestry, isContainerName k.name = true) {code : Text}
    (hcode : ∀ c ∈ code, c ∈ CodeSource.alphabet) : IsWord (identifierStem ancestry ++ code) := by
  have hletters : IsWord code := fun c hc => by simp [isIdentifierChar, isAlphanum_of_mem_alphabet c (hcode c hc)]
  refine isWord_append (fun c hc => ?_) hletters
  obtain ⟨k, hk, hmem⟩ := List.mem_flatMap.1 hc
  rcases List.mem_append.1 hmem with hmem | hmem
  · exact isWord_of_segments (hnames k (List.mem_filter.1 hk).1) c hmem
  · rw [List.mem_singleton.1 hmem]
    decide

namespace CodeSource

theorem mem_alphabet_of_drawLetter (s : CodeSource) : s.drawLetter.1 ∈ alphabet := by
  unfold drawLetter
  dsimp only
  cases hletter : alphabet[(s.next alphabet.length).1]? with
  | none => exact (by decide : 'A' ∈ alphabet)
  | some c => exact List.mem_of_getElem? hletter

theorem drawCode_spec (length : Nat) (s : CodeSource) :
    (drawCode length s).1.length = length ∧ ∀ c ∈ (drawCode length s).1, c ∈ alphabet := by
  induction length generalizing s with
  | zero => exact ⟨rfl, fun c hc => absurd hc List.not_mem_nil⟩
  | succ length ih =>
    obtain ⟨hlength, hmem⟩ := ih s.drawLetter.2
    refine ⟨congrArg Nat.succ hlength, fun c hc => ?_⟩
    rcases List.mem_cons.1 hc with rfl | hc
    · exact mem_alphabet_of_drawLetter s
    · exact hmem c hc

theorem exists_code_of_drawIdentifier {stem : Text} {length attempts : Nat} {used : List Text} {s s' : CodeSource}
    {id : Text} (h : drawIdentifier stem length used attempts s = (some id, s')) :
    ∃ code, id = stem ++ code ∧ code.length = length ∧ ∀ c ∈ code, c ∈ alphabet := by
  induction attempts generalizing s with
  | zero => cases h
  | succ attempts ih =>
    rw [drawIdentifier] at h
    obtain ⟨hlength, hmem⟩ := drawCode_spec length s
    dsimp only at h
    split at h
    · exact ih h
    · obtain rfl := Option.some.inj (Prod.mk.inj h).1
      exact ⟨_, rfl, hlength, hmem⟩

end CodeSource

/-! ### Groups -/

namespace LineGroup

theorem insert_places (c : Candidate) (groups : List LineGroup) :
    (c.place ∈ groups.map (·.first.place) ∧ (insert c groups).map (·.first.place) = groups.map (·.first.place)) ∨
    (c.place ∉ groups.map (·.first.place) ∧
      (insert c groups).map (·.first.place) = groups.map (·.first.place) ++ [c.place]) := by
  induction groups with
  | nil => exact .inr ⟨List.not_mem_nil, rfl⟩
  | cons g groups ih =>
    rw [insert]
    split
    · next hplace => exact .inl ⟨hplace ▸ List.mem_cons_self, rfl⟩
    · next hplace =>
      rw [List.map_cons, List.map_cons]
      rcases ih with ⟨hmem, heq⟩ | ⟨hnot, heq⟩
      · exact .inl ⟨List.mem_cons_of_mem _ hmem, by rw [heq]⟩
      · refine .inr ⟨fun hmem => ?_, by rw [heq]; rfl⟩
        rcases List.mem_cons.1 hmem with hsame | hmem
        · exact hplace hsame.symm
        · exact hnot hmem

/-- The groups hold the candidates and nothing else: each candidate has a group of its place, and no two groups have one place. -/
structure Gathered (cs : List Candidate) (groups : List LineGroup) : Prop where
  nodup : (groups.map (·.first.place)).Nodup
  mem : ∀ g ∈ groups, ∀ m ∈ g.members, m ∈ cs
  place : ∀ g ∈ groups, ∀ m ∈ g.members, m.place = g.first.place
  covers : ∀ c ∈ cs, ∃ g ∈ groups, c ∈ g.members

theorem mem_members_insert {c : Candidate} {groups : List LineGroup}
    (hplace : ∀ g ∈ groups, ∀ m ∈ g.members, m.place = g.first.place) {g : LineGroup} (hg : g ∈ insert c groups)
    {m : Candidate} (hm : m ∈ g.members) : m.place = g.first.place ∧ (m = c ∨ ∃ g' ∈ groups, m ∈ g'.members) := by
  induction groups with
  | nil =>
    rw [List.mem_singleton.1 hg] at hm ⊢
    rw [List.mem_singleton.1 hm]
    exact ⟨rfl, .inl rfl⟩
  | cons g' groups ih =>
    rw [insert] at hg
    split at hg
    · next hsame =>
      rcases List.mem_cons.1 hg with rfl | hg
      · rcases List.mem_append.1 (List.cons_append ▸ hm : m ∈ g'.members ++ [c]) with hm | hm
        · exact ⟨hplace g' List.mem_cons_self m hm, .inr ⟨g', List.mem_cons_self, hm⟩⟩
        · rw [List.mem_singleton.1 hm]
          exact ⟨hsame.symm, .inl rfl⟩
      · exact ⟨hplace g (List.mem_cons_of_mem _ hg) m hm, .inr ⟨g, List.mem_cons_of_mem _ hg, hm⟩⟩
    · rcases List.mem_cons.1 hg with rfl | hg
      · exact ⟨hplace g List.mem_cons_self m hm, .inr ⟨g, List.mem_cons_self, hm⟩⟩
      · obtain ⟨heq, hold⟩ := ih (fun g hg => hplace g (List.mem_cons_of_mem _ hg)) hg
        exact ⟨heq, hold.imp_right fun ⟨g', hg', hm⟩ => ⟨g', List.mem_cons_of_mem _ hg', hm⟩⟩

/-- No candidate is lost when another one is added, and that one is there. -/
theorem exists_members_insert (c : Candidate) (groups : List LineGroup) :
    (∃ g ∈ insert c groups, c ∈ g.members) ∧ ∀ g ∈ groups, ∃ g' ∈ insert c groups, g.members ⊆ g'.members := by
  induction groups with
  | nil => exact ⟨⟨⟨c, []⟩, List.mem_cons_self, List.mem_cons_self⟩, nofun⟩
  | cons g groups ih =>
    obtain ⟨⟨g', hg', hc⟩, hkept⟩ := ih
    rw [insert]
    split
    · have hold : g.members ⊆ (⟨g.first, g.more ++ [c]⟩ : LineGroup).members := List.subset_append_left g.members [c]
      refine ⟨⟨_, List.mem_cons_self, List.mem_append_right g.members List.mem_cons_self⟩, fun h hh => ?_⟩
      rcases List.mem_cons.1 hh with rfl | hh
      · exact ⟨_, List.mem_cons_self, hold⟩
      · exact ⟨h, List.mem_cons_of_mem _ hh, List.Subset.refl _⟩
    · refine ⟨⟨g', List.mem_cons_of_mem _ hg', hc⟩, fun h hh => ?_⟩
      rcases List.mem_cons.1 hh with rfl | hh
      · exact ⟨h, List.mem_cons_self, List.Subset.refl _⟩
      · obtain ⟨h', hh', hsub⟩ := hkept h hh
        exact ⟨h', List.mem_cons_of_mem _ hh', hsub⟩

theorem Gathered.insert {cs : List Candidate} {groups : List LineGroup} (h : Gathered cs groups) (c : Candidate) :
    Gathered (cs ++ [c]) (insert c groups) where
  nodup := by
    rcases insert_places c groups with ⟨-, heq⟩ | ⟨hnot, heq⟩
    · rw [heq]
      exact h.nodup
    · rw [heq, List.nodup_append]
      refine ⟨h.nodup, List.nodup_singleton _, fun p hp q hq => ?_⟩
      rw [List.mem_singleton.1 hq]
      rintro rfl
      exact hnot hp
  mem := fun g hg m hm => by
    rcases (mem_members_insert h.place hg hm).2 with rfl | ⟨g', hg', hm⟩
    · exact List.mem_append_right _ List.mem_cons_self
    · exact List.mem_append_left _ (h.mem g' hg' m hm)
  place := fun g hg m hm => (mem_members_insert h.place hg hm).1
  covers := fun d hd => by
    obtain ⟨hnew, hkept⟩ := exists_members_insert c groups
    rcases List.mem_append.1 hd with hd | hd
    · obtain ⟨g, hg, hmem⟩ := h.covers d hd
      obtain ⟨g', hg', hsub⟩ := hkept g hg
      exact ⟨g', hg', hsub hmem⟩
    · rwa [List.mem_singleton.1 hd]

theorem gathered_ofCandidates (cs : List Candidate) : Gathered cs (ofCandidates cs) := by
  have hfold : ∀ (cs done : List Candidate) (groups : List LineGroup), Gathered done groups →
      Gathered (done ++ cs) (cs.foldl (fun groups c => LineGroup.insert c groups) groups) := by
    intro cs
    induction cs with
    | nil => exact fun done groups h => (List.append_nil done).symm ▸ h
    | cons c cs ih =>
      intro done groups h
      rw [List.append_cons]
      exact ih (done ++ [c]) _ (h.insert c)
  exact hfold cs [] [] ⟨List.nodup_nil, nofun, nofun, nofun⟩

theorem lineIdentifiers_of_identifiers {g : LineGroup} (h : g.identifiers.isEmpty = true) :
    g.first.lineIdentifiers = [] := by
  rw [List.isEmpty_iff] at h
  unfold identifiers at h
  split at h
  · exact h
  · next hne => exact absurd h (by assumption)

end LineGroup

/-! ### Edits -/

namespace IdEdit

def place (e : IdEdit) : Place := ⟨e.file, e.line⟩

end IdEdit

def Exhaustion.place (e : Exhaustion) : Place := ⟨e.file, e.line⟩

/-- A line got a new identifier or is reported. -/
def Generation.Answers (g : Generation) (place : Place) : Prop :=
  (∃ e ∈ g.edits, e.place = place) ∨ ∃ e ∈ g.failures, e.place = place

namespace Generator

/-- What an edit has to do with the line it was made for. -/
def MadeFor (length : Nat) (e : IdEdit) (g : LineGroup) : Prop :=
  e.place = g.first.place ∧ ∃ code, e.identifier = identifierStem g.first.ancestry ++ code ∧ code.length = length ∧
    ∀ c ∈ code, c ∈ CodeSource.alphabet

theorem mintFor_edits (line : LineGroup) (result : Generation) (g : Generator) :
    (mintFor line (result, g)).2.length = g.length ∧
      ((mintFor line (result, g)).1.edits = result.edits ∨
        ∃ e, MadeFor g.length.toNat e line ∧ (mintFor line (result, g)).1.edits = result.edits ++ [e]) := by
  unfold mintFor mint
  dsimp only
  cases hdraw : g.source.drawIdentifier (identifierStem line.first.ancestry) g.length.toNat result.used
      g.maxAttempts.toNat with
  | mk id? source =>
    cases id? with
    | none => exact ⟨rfl, .inl rfl⟩
    | some id => exact ⟨rfl, .inr ⟨_, ⟨rfl, CodeSource.exists_code_of_drawIdentifier hdraw⟩, rfl⟩⟩

theorem foldl_edits (lines : List LineGroup) (r : Generation × Generator) :
    ∃ more, (lines.foldl (fun r line => mintFor line r) r).1.edits = r.1.edits ++ more ∧
      (more.map IdEdit.place).Sublist (lines.map (·.first.place)) ∧
      ∀ e ∈ more, ∃ line ∈ lines, MadeFor r.2.length.toNat e line := by
  induction lines generalizing r with
  | nil => exact ⟨[], (List.append_nil _).symm, .slnil, fun e he => absurd he List.not_mem_nil⟩
  | cons line lines ih =>
    obtain ⟨result, g⟩ := r
    obtain ⟨more, hmore, hsub, hmade⟩ := ih (mintFor line (result, g))
    obtain ⟨hlength, hedits⟩ := mintFor_edits line result g
    rw [hlength] at hmade
    rw [List.foldl_cons, hmore]
    rcases hedits with hedits | ⟨e, he, hedits⟩
    · rw [hedits]
      refine ⟨more, rfl, hsub.cons _, fun e he => ?_⟩
      obtain ⟨l, hl, hmade⟩ := hmade e he
      exact ⟨l, List.mem_cons_of_mem _ hl, hmade⟩
    · rw [hedits, List.append_assoc]
      refine ⟨e :: more, rfl, ?_, fun d hd => ?_⟩
      · rw [List.map_cons, List.map_cons, he.1]
        exact hsub.cons_cons _
      · rcases List.mem_cons.1 hd with rfl | hd
        · exact ⟨line, List.mem_cons_self, he⟩
        · obtain ⟨l, hl, hmade⟩ := hmade d hd
          exact ⟨l, List.mem_cons_of_mem _ hl, hmade⟩

theorem mintFor_answers (line : LineGroup) (result : Generation) (g : Generator) :
    (mintFor line (result, g)).1.Answers line.first.place ∧
      ∀ place, result.Answers place → (mintFor line (result, g)).1.Answers place := by
  unfold mintFor mint
  dsimp only
  cases g.source.drawIdentifier (identifierStem line.first.ancestry) g.length.toNat result.used g.maxAttempts.toNat with
  | mk id? source =>
    cases id? with
    | none =>
      refine ⟨.inr ⟨_, List.mem_append_right _ List.mem_cons_self, rfl⟩, fun place h => h.imp_right ?_⟩
      exact fun ⟨e, he, hplace⟩ => ⟨e, List.mem_append_left _ he, hplace⟩
    | some id =>
      refine ⟨.inl ⟨_, List.mem_append_right _ List.mem_cons_self, rfl⟩, fun place h => h.imp_left ?_⟩
      exact fun ⟨e, he, hplace⟩ => ⟨e, List.mem_append_left _ he, hplace⟩

/-- Every line without identifiers is answered for. -/
theorem run_answers (g : Generator) (existing : List Text) (root : Node) {line : LineGroup}
    (hline : line ∈ LineGroup.ofCandidates (Candidate.ofTree root)) (hids : line.identifiers = []) :
    (g.run existing root).1.Answers line.first.place := by
  have hfold : ∀ (lines : List LineGroup) (r : Generation × Generator),
      r.1.Answers line.first.place ∨ line ∈ lines →
      (lines.foldl (fun r line => mintFor line r) r).1.Answers line.first.place := by
    intro lines
    induction lines with
    | nil => exact fun r h => h.resolve_right List.not_mem_nil
    | cons l lines ih =>
      intro r h
      obtain ⟨hanswers, hkeeps⟩ := mintFor_answers l r.1 r.2
      refine ih (mintFor l r) ?_
      rcases h with h | h
      · exact .inl (hkeeps _ h)
      · rcases List.mem_cons.1 h with rfl | h
        · exact .inl hanswers
        · exact .inr h
  exact hfold _ _ (.inr (List.mem_filter.2 ⟨hline, List.isEmpty_iff.2 hids⟩))

/-- Every edit is made for a line without identifiers, and no line has two. -/
theorem run_edits (g : Generator) (existing : List Text) (root : Node) :
    (((g.run existing root).1.edits.map IdEdit.place).Nodup) ∧
      ∀ e ∈ (g.run existing root).1.edits, ∃ line : LineGroup, line.first ∈ Candidate.ofTree root ∧
        line.first.lineIdentifiers = [] ∧ MadeFor g.length.toNat e line := by
  have hgathered := LineGroup.gathered_ofCandidates (Candidate.ofTree root)
  unfold run
  dsimp only
  obtain ⟨more, hmore, hsub, hmade⟩ := foldl_edits
    ((LineGroup.ofCandidates (Candidate.ofTree root)).filter (·.identifiers.isEmpty))
    ({ found := Generation.reserve ((LineGroup.ofCandidates (Candidate.ofTree root)).flatMap LineGroup.identifiers) [],
       used := Generation.reserve (Generation.reserve
        ((LineGroup.ofCandidates (Candidate.ofTree root)).flatMap LineGroup.identifiers) []) (Generation.reserve existing []) }, g)
  rw [hmore, List.nil_append]
  refine ⟨?_, fun e he => ?_⟩
  · refine (hsub.trans ?_).nodup hgathered.nodup
    exact List.filter_sublist.map _
  · obtain ⟨line, hline, hmade⟩ := hmade e he
    obtain ⟨hgroup, hids⟩ := List.mem_filter.1 hline
    exact ⟨line, hgathered.mem line hgroup line.first List.mem_cons_self, LineGroup.lineIdentifiers_of_identifiers hids, hmade⟩

end Generator

end LineTags
