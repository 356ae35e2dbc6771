import LineTags.Proofs.Minting.LineGroups
import Mathlib.Data.List.Induction

/-!
# What becomes of each line

The candidates are sorted by line, and then each line comes to one of three ends: it keeps the identifiers that it has, it gets a new one, or it stays without. `Settles` tells this line by line, together with the identifiers in use and with the source that the codes are drawn from. What is found anywhere in the script is in use before the first code is drawn; from then on the identifiers in use grow by the new ones only. So a line that comes to nothing takes nothing from the others, and whatever holds of one line with the identifiers in use before it holds of all lines by going through them.
-/

namespace LineTags

/-! ### Lines and their pieces -/

namespace LineGroup

/-- The lines that candidates stand on, in the order of their first candidates, and each with all its candidates in their order. -/
structure Sorted (cs : List Candidate) (groups : List LineGroup) : Prop where
  places : groups.map (·.first.place) = (cs.map (·.place)).eraseDups
  members : ∀ g ∈ groups, g.members = cs.filter (·.place = g.first.place)

theorem eraseDups_concat {α : Type} [DecidableEq α] (l : List α) (a : α) :
    (l ++ [a]).eraseDups = if a ∈ l then l.eraseDups else l.eraseDups ++ [a] := by
  rw [List.eraseDups_append, List.removeAll, List.filter_cons, List.filter_nil]
  by_cases ha : a ∈ l
  · simp [ha]
  · simp [ha, List.eraseDups_cons]

theorem nodup_eraseDups {α : Type} [DecidableEq α] (l : List α) : l.eraseDups.Nodup := by
  induction l using List.reverseRecOn with
  | nil => exact List.nodup_nil
  | append_singleton l a ih =>
    rw [eraseDups_concat]
    split
    · exact ih
    · next ha =>
      rw [List.nodup_append]
      refine ⟨ih, List.nodup_singleton a, fun b hb c hc heq => ha ?_⟩
      rw [← List.mem_singleton.1 hc, ← heq]
      exact List.mem_eraseDups.1 hb

variable {c : Candidate} {groups : List LineGroup}

theorem insert_of_not_mem (h : c.place ∉ groups.map (·.first.place)) : insert c groups = groups ++ [⟨c, []⟩] := by
  induction groups with
  | nil => rfl
  | cons g groups ih =>
    rw [List.map_cons, List.mem_cons, not_or] at h
    rw [insert, if_neg (Ne.symm h.1), ih h.2, List.cons_append]

/-- Where a line has its group, this one grows, and no other as long as no line has two. -/
theorem insert_of_mem (h : c.place ∈ groups.map (·.first.place)) (hnodup : (groups.map (·.first.place)).Nodup) :
    insert c groups = groups.map fun g => if g.first.place = c.place then { g with more := g.more ++ [c] } else g := by
  induction groups with
  | nil => cases h
  | cons g groups ih =>
    rw [List.map_cons, List.nodup_cons] at hnodup
    rw [insert, List.map_cons]
    split
    · next hplace =>
      have hothers : ∀ g' ∈ groups, g'.first.place ≠ c.place := fun g' hg' heq =>
        hnodup.1 (hplace ▸ heq ▸ List.mem_map_of_mem hg')
      rw [List.map_congr_left fun g' hg' => if_neg (hothers g' hg'), List.map_id']
    · next hplace =>
      rw [ih ((List.mem_cons.1 h).resolve_left fun heq => hplace heq.symm) hnodup.2]

theorem Sorted.nodup {cs : List Candidate} (h : Sorted cs groups) : (groups.map (·.first.place)).Nodup := by
  rw [h.places]
  exact nodup_eraseDups _

theorem Sorted.insert {cs : List Candidate} (h : Sorted cs groups) (c : Candidate) :
    Sorted (cs ++ [c]) (insert c groups) := by
  have hmem : c.place ∈ groups.map (·.first.place) ↔ c.place ∈ cs.map (·.place) := by
    rw [h.places, List.mem_eraseDups]
  by_cases hplace : c.place ∈ groups.map (·.first.place)
  · rw [insert_of_mem hplace h.nodup]
    refine ⟨?_, fun g hg => ?_⟩
    · rw [List.map_append, List.map_singleton, eraseDups_concat, if_pos (hmem.1 hplace), ← h.places, List.map_map]
      refine List.map_congr_left fun g _ => ?_
      simp only [Function.comp_apply]
      split <;> rfl
    · obtain ⟨g', hg', rfl⟩ := List.mem_map.1 hg
      have hold := h.members g' hg'
      rw [List.filter_append, List.filter_cons]
      split
      · next heq =>
        show g'.members ++ [c] = _
        rw [hold]
        simp [heq]
      · next hne =>
        rw [hold]
        simp [Ne.symm hne]
  · rw [insert_of_not_mem hplace]
    refine ⟨?_, fun g hg => ?_⟩
    · rw [List.map_append, List.map_append, List.map_singleton, List.map_singleton, eraseDups_concat, if_neg (hmem.not.1 hplace), h.places]
    · rw [List.filter_append]
      rcases List.mem_append.1 hg with hg | hg
      · have hne : c.place ≠ g.first.place := fun heq => hplace (heq ▸ List.mem_map_of_mem hg)
        rw [h.members g hg]
        simp [hne]
      · obtain rfl := List.mem_singleton.1 hg
        have hnone : cs.filter (·.place = c.place) = [] := List.filter_eq_nil_iff.2 fun d hd heq =>
          hplace (hmem.2 (of_decide_eq_true heq ▸ List.mem_map_of_mem hd))
        show [c] = _
        rw [hnone]
        simp

theorem sorted_ofCandidates (cs : List Candidate) : Sorted cs (ofCandidates cs) := by
  have hfold : ∀ (cs done : List Candidate) (groups : List LineGroup), Sorted done groups →
      Sorted (done ++ cs) (cs.foldl (fun groups c => LineGroup.insert c groups) groups) := by
    intro cs
    induction cs with
    | nil => exact fun done groups h => (List.append_nil done).symm ▸ h
    | cons c cs ih =>
      intro done groups h
      rw [List.append_cons]
      exact ih (done ++ [c]) _ (h.insert c)
  exact hfold cs [] [] ⟨rfl, nofun⟩

end LineGroup

/-! ### Codes -/

namespace CodeSource

/-- A source behind so many codes of a length. -/
def behind (length : Nat) : Nat → CodeSource → CodeSource
  | 0, s => s
  | n + 1, s => behind length n (s.drawCode length).2

/-- The first codes of a length that a source gives, one after the other. -/
def codes (length : Nat) : Nat → CodeSource → List Text
  | 0, _ => []
  | n + 1, s => (s.drawCode length).1 :: codes length n (s.drawCode length).2

/-- Drawing stops at the first code that gives an identifier not in use, or when all codes have been drawn that may be. -/
theorem drawIdentifier_cases (stem : Text) (length : Nat) (used : List Text) (attempts : Nat) (s : CodeSource) :
    (∃ n < attempts, (∀ code ∈ s.codes length n, stem ++ code ∈ used) ∧
      stem ++ ((s.behind length n).drawCode length).1 ∉ used ∧
      drawIdentifier stem length used attempts s =
        (some (stem ++ ((s.behind length n).drawCode length).1), s.behind length (n + 1))) ∨
    ((∀ code ∈ s.codes length attempts, stem ++ code ∈ used) ∧
      drawIdentifier stem length used attempts s = (none, s.behind length attempts)) := by
  induction attempts generalizing s with
  | zero => exact .inr ⟨nofun, rfl⟩
  | succ attempts ih =>
    rw [drawIdentifier]
    by_cases hused : stem ++ (s.drawCode length).1 ∈ used
    · have hcodes : ∀ n, (∀ code ∈ codes length n (s.drawCode length).2, stem ++ code ∈ used) →
          ∀ code ∈ s.codes length (n + 1), stem ++ code ∈ used := fun n h => List.forall_mem_cons.2 ⟨hused, h⟩
      dsimp only
      rw [if_pos (List.contains_iff_mem.2 hused)]
      obtain ⟨n, hn, htaken, hfree, heq⟩ | ⟨htaken, heq⟩ := ih (s.drawCode length).2
      · exact .inl ⟨n + 1, Nat.succ_lt_succ hn, hcodes n htaken, hfree, heq⟩
      · exact .inr ⟨hcodes attempts htaken, heq⟩
    · refine .inl ⟨0, Nat.succ_pos attempts, nofun, hused, ?_⟩
      dsimp only
      rw [if_neg (mt List.contains_iff_mem.1 hused)]
      rfl

end CodeSource

/-! ### Line by line -/

/-- What a line comes to. -/
inductive Settlement
  | kept (identifiers : List Text)
  | minted (edit : IdEdit)
  | exhausted (failure : Exhaustion)

namespace Settlement

def edit? : Settlement → Option IdEdit
  | minted e => some e
  | _ => none

def failure? : Settlement → Option Exhaustion
  | exhausted e => some e
  | _ => none

def identifiers : Settlement → List Text
  | kept ids => ids
  | _ => []

end Settlement

/-- Lines that are settled one after the other, with the identifiers in use and the source before and behind them. A line that has identifiers keeps them and draws nothing. Any other gets the first identifier drawn that is not in use. It is given up when as many codes have been drawn as there may be attempts, and all of them gave identifiers in use. -/
inductive Settles (attempts length : Int) :
    List LineGroup → List Text → CodeSource → List Settlement → List Text → CodeSource → Prop
  | done {used : List Text} {s : CodeSource} : Settles attempts length [] used s [] used s
  | kept {line : LineGroup} {lines : List LineGroup} {used used' : List Text} {s s' : CodeSource} {rest : List Settlement} :
    line.identifiers ≠ [] → Settles attempts length lines used s rest used' s' →
    Settles attempts length (line :: lines) used s (.kept line.identifiers :: rest) used' s'
  | minted {line : LineGroup} {lines : List LineGroup} {used used' : List Text} {s s' : CodeSource}
    {rest : List Settlement} {n : Nat} {id : Text} :
    line.identifiers = [] → n < attempts.toNat →
    (∀ code ∈ s.codes length.toNat n, identifierStem line.first.ancestry ++ code ∈ used) →
    id = identifierStem line.first.ancestry ++ ((s.behind length.toNat n).drawCode length.toNat).1 → id ∉ used →
    Settles attempts length lines (used.insert id) (s.behind length.toNat (n + 1)) rest used' s' →
    Settles attempts length (line :: lines) used s
      (.minted ⟨line.first.place.file, line.first.place.line, line.text, id⟩ :: rest) used' s'
  | exhausted {line : LineGroup} {lines : List LineGroup} {used used' : List Text} {s s' : CodeSource}
    {rest : List Settlement} :
    line.identifiers = [] →
    (∀ code ∈ s.codes length.toNat attempts.toNat, identifierStem line.first.ancestry ++ code ∈ used) →
    Settles attempts length lines used (s.behind length.toNat attempts.toNat) rest used' s' →
    Settles attempts length (line :: lines) used s
      (.exhausted ⟨line.first.place.file, line.first.place.line, line.text, attempts⟩ :: rest) used' s'

namespace Settles

variable {attempts length : Int} {lines : List LineGroup} {used used' : List Text} {s s' : CodeSource}
  {settlements : List Settlement}

theorem identifiers_eq (h : Settles attempts length lines used s settlements used' s') :
    settlements.flatMap Settlement.identifiers = lines.flatMap LineGroup.identifiers := by
  induction h with
  | done => rfl
  | kept _ _ ih => rw [List.flatMap_cons, List.flatMap_cons, ih]; rfl
  | minted hnone _ _ _ _ _ ih => rw [List.flatMap_cons, List.flatMap_cons, ih, hnone]; rfl
  | exhausted hnone _ _ ih => rw [List.flatMap_cons, List.flatMap_cons, ih, hnone]; rfl

/-- The identifiers in use grow by the new ones, which were not in use and are all different. -/
theorem fresh (h : Settles attempts length lines used s settlements used' s') :
    (((settlements.filterMap Settlement.edit?).map IdEdit.identifier).Nodup ∧
      ∀ e ∈ settlements.filterMap Settlement.edit?, e.identifier ∉ used) ∧
    ∀ id, id ∈ used' ↔ id ∈ used ∨ id ∈ (settlements.filterMap Settlement.edit?).map IdEdit.identifier := by
  induction h with
  | done => exact ⟨⟨List.nodup_nil, nofun⟩, fun id => (or_iff_left List.not_mem_nil).symm⟩
  | kept _ _ ih => exact ih
  | exhausted _ _ _ ih => exact ih
  | @minted line _ used _ s _ rest n id _ _ _ _ hfree _ ih =>
    obtain ⟨⟨hnodup, hnew⟩, hused⟩ := ih
    have hlater : ∀ e ∈ rest.filterMap Settlement.edit?, e.identifier ≠ id ∧ e.identifier ∉ used := fun e he => by
      have hnot := hnew e he
      rw [List.mem_insert_iff, not_or] at hnot
      exact hnot
    rw [List.filterMap_cons]
    show (List.Nodup (id :: _) ∧ ∀ e ∈ _ :: _, _) ∧ ∀ x, x ∈ _ ↔ x ∈ _ ∨ x ∈ id :: _
    refine ⟨⟨List.nodup_cons.2 ⟨fun hmem => ?_, hnodup⟩, List.forall_mem_cons.2 ⟨hfree, fun e he => (hlater e he).2⟩⟩,
      fun x => ?_⟩
    · obtain ⟨e, he, heq⟩ := List.mem_map.1 hmem
      exact (hlater e he).1 heq
    · rw [hused x, List.mem_insert_iff, List.mem_cons, or_left_comm, or_assoc]

end Settles

namespace Generator

theorem mintFor_cases (g : Generator) (result : Generation) (line : LineGroup) :
    (∃ n id, n < g.maxAttempts.toNat ∧
      (∀ code ∈ g.source.codes g.length.toNat n, identifierStem line.first.ancestry ++ code ∈ result.used) ∧
      id = identifierStem line.first.ancestry ++ ((g.source.behind g.length.toNat n).drawCode g.length.toNat).1 ∧
      id ∉ result.used ∧
      mintFor line (result, g) =
        ({ result with
            used := result.used.insert id,
            edits := result.edits ++ [⟨line.first.place.file, line.first.place.line, line.text, id⟩] },
          { g with source := g.source.behind g.length.toNat (n + 1) })) ∨
    ((∀ code ∈ g.source.codes g.length.toNat g.maxAttempts.toNat,
        identifierStem line.first.ancestry ++ code ∈ result.used) ∧
      mintFor line (result, g) =
        ({ result with
            failures := result.failures ++
              [⟨line.first.place.file, line.first.place.line, line.text, g.maxAttempts⟩] },
          { g with source := g.source.behind g.length.toNat g.maxAttempts.toNat })) := by
  unfold mintFor mint
  dsimp only
  obtain ⟨n, hn, htaken, hfree, heq⟩ | ⟨htaken, heq⟩ := CodeSource.drawIdentifier_cases
    (identifierStem line.first.ancestry) g.length.toNat result.used g.maxAttempts.toNat g.source
  · rw [heq]
    exact .inl ⟨n, _, hn, htaken, rfl, hfree, rfl⟩
  · rw [heq]
    exact .inr ⟨htaken, rfl⟩

/-- Minting for the lines without identifiers settles all lines. -/
theorem exists_settles (lines : List LineGroup) (r : Generation × Generator) :
    let r' := (lines.filter (·.identifiers.isEmpty)).foldl (fun r line => mintFor line r) r
    ∃ settlements, Settles r.2.maxAttempts r.2.length lines r.1.used r.2.source settlements r'.1.used r'.2.source ∧
      r'.1.edits = r.1.edits ++ settlements.filterMap Settlement.edit? ∧
      r'.1.failures = r.1.failures ++ settlements.filterMap Settlement.failure? ∧ r'.1.found = r.1.found := by
  induction lines generalizing r with
  | nil => exact ⟨[], .done, (List.append_nil _).symm, (List.append_nil _).symm, rfl⟩
  | cons line lines ih =>
    obtain ⟨result, g⟩ := r
    rw [List.filter_cons]
    split
    · next hnone =>
      rw [List.isEmpty_iff] at hnone
      rw [List.foldl_cons]
      obtain ⟨n, id, hn, htaken, hid, hfree, heq⟩ | ⟨htaken, heq⟩ := mintFor_cases g result line
      · rw [heq]
        obtain ⟨rest, hrest, hedits, hfailures, hfound⟩ := ih ({ result with used := _, edits := _ }, { g with source := _ })
        refine ⟨_, .minted hnone hn htaken hid hfree hrest, ?_, hfailures, hfound⟩
        rw [hedits, List.append_assoc]
        rfl
      · rw [heq]
        obtain ⟨rest, hrest, hedits, hfailures, hfound⟩ := ih ({ result with failures := _ }, { g with source := _ })
        refine ⟨_, .exhausted hnone htaken hrest, hedits, ?_, hfound⟩
        rw [hfailures, List.append_assoc]
        rfl
    · next hsome =>
      obtain ⟨rest, hrest, hedits, hfailures, hfound⟩ := ih (result, g)
      exact ⟨_, .kept (fun hnone => hsome (List.isEmpty_iff.2 hnone)) hrest, hedits, hfailures, hfound⟩

/-- A run settles the lines of a tree, with everything reserved that was in use before or is found anywhere in the tree. -/
theorem run_settles (g : Generator) (existing : List Text) (root : Node) :
    ∃ settlements reserved,
      Settles g.maxAttempts g.length (LineGroup.ofCandidates (Candidate.ofTree root)) reserved g.source settlements
        (g.run existing root).1.used (g.run existing root).2.source ∧
      (∀ id, id ∈ reserved ↔ id ∈ existing ∨ id ∈ (g.run existing root).1.found) ∧
      (g.run existing root).1.edits = settlements.filterMap Settlement.edit? ∧
      (g.run existing root).1.failures = settlements.filterMap Settlement.failure? ∧
      ∀ id, id ∈ (g.run existing root).1.found ↔
        id ∈ (LineGroup.ofCandidates (Candidate.ofTree root)).flatMap LineGroup.identifiers := by
  obtain ⟨settlements, hsettles, hedits, hfailures, hfound⟩ :=
    exists_settles (LineGroup.ofCandidates (Candidate.ofTree root)) (⟨[], [], _, _⟩, g)
  refine ⟨settlements, _, hsettles, fun id => ?_, hedits, hfailures, fun id => ?_⟩
  · refine Generation.mem_reserve.trans (or_comm.trans (or_congr ?_ (iff_of_eq (congrArg (id ∈ ·) hfound.symm))))
    exact Generation.mem_reserve.trans (or_iff_left List.not_mem_nil)
  · refine (iff_of_eq (congrArg (id ∈ ·) hfound)).trans ?_
    exact Generation.mem_reserve.trans (or_iff_left List.not_mem_nil)

/-- A run accounts for every line: in the order of their first candidates, each keeps what it has, gets a new identifier or is reported, and the identifiers in use are those that were, those found and the new ones. -/
theorem run_accounts (g : Generator) (existing : List Text) (root : Node) :
    ∃ lines settlements reserved,
      LineGroup.Sorted (Candidate.ofTree root) lines ∧
      Settles g.maxAttempts g.length lines reserved g.source settlements (g.run existing root).1.used
        (g.run existing root).2.source ∧
      (∀ id, id ∈ reserved ↔ id ∈ existing ∨ id ∈ (g.run existing root).1.found) ∧
      (∀ id, id ∈ (g.run existing root).1.found ↔ id ∈ settlements.flatMap Settlement.identifiers) ∧
      (g.run existing root).1.edits = settlements.filterMap Settlement.edit? ∧
      (g.run existing root).1.failures = settlements.filterMap Settlement.failure? ∧
      ((g.run existing root).1.edits.map IdEdit.identifier).Nodup ∧
      (∀ e ∈ (g.run existing root).1.edits, e.identifier ∉ existing ∧ e.identifier ∉ (g.run existing root).1.found) ∧
      ∀ id, id ∈ (g.run existing root).1.used ↔
        id ∈ existing ∨ id ∈ (g.run existing root).1.found ∨ id ∈ (g.run existing root).1.edits.map IdEdit.identifier := by
  obtain ⟨settlements, reserved, hsettles, hreserved, hedits, hfailures, hfound⟩ := g.run_settles existing root
  obtain ⟨⟨hnodup, hfree⟩, hused⟩ := hsettles.fresh
  rw [← hedits] at hnodup hfree hused
  refine ⟨_, settlements, reserved, LineGroup.sorted_ofCandidates _, hsettles, hreserved, ?_, hedits, hfailures, hnodup,
    ?_, ?_⟩
  · intro id
    rw [hfound, hsettles.identifiers_eq]
  · intro e he
    have hnot := hfree e he
    rwa [hreserved, not_or] at hnot
  · intro id
    rw [hused, hreserved, or_assoc]

end Generator

end LineTags
