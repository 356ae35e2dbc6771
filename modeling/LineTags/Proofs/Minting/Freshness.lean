import LineTags.Minting.Generation
import Mathlib.Data.List.Nodup

/-!
# New identifiers are new

A draw is given out only if it is not in use, and from then on it is. So the identifiers of one minting differ from all that were in use before and from each other, whatever numbers the source draws.
-/

namespace LineTags

namespace Generation

theorem mem_reserve {ids used : List Text} {i : Text} : i ∈ reserve ids used ↔ i ∈ ids ∨ i ∈ used := by
  induction ids generalizing used with
  | nil => exact (or_iff_right List.not_mem_nil).symm
  | cons j ids ih =>
    refine ih.trans ?_
    rw [List.mem_insert_iff, List.mem_cons, or_left_comm, or_assoc]

end Generation

namespace CodeSource

theorem not_mem_of_drawIdentifier {stem : Text} {length attempts : Nat} {used : List Text} {s s' : CodeSource} {id : Text}
    (h : drawIdentifier stem length used attempts s = (some id, s')) : id ∉ used := by
  induction attempts generalizing s with
  | zero => cases h
  | succ attempts ih =>
    rw [drawIdentifier] at h
    cases hcode : s.drawCode length with
    | mk code rest =>
      rw [hcode] at h
      dsimp only at h
      split at h
      · exact ih h
      · next hunused =>
        obtain rfl := Option.some.inj (Prod.mk.inj h).1
        exact fun hmem => hunused (List.contains_iff_mem.2 hmem)

end CodeSource

namespace Generator

theorem mint_cases (g : Generator) (stem : Text) (used : List Text) :
    (∃ source, g.mint stem used = (none, used, { g with source })) ∨
    ∃ id source, id ∉ used ∧ g.mint stem used = (some id, used.insert id, { g with source }) := by
  unfold mint
  cases hdraw : g.source.drawIdentifier stem g.length.toNat used g.maxAttempts.toNat with
  | mk id? source =>
    cases id? with
    | none => exact .inl ⟨source, rfl⟩
    | some id => exact .inr ⟨id, source, CodeSource.not_mem_of_drawIdentifier hdraw, rfl⟩

/-- What holds while identifiers are minted: everything that was in use still is, the new identifiers are in use, were not before, and are distinct. -/
structure Minted (existing : List Text) (result : Generation) : Prop where
  kept : ∀ i ∈ existing, i ∈ result.used
  used : ∀ e ∈ result.edits, e.identifier ∈ result.used
  fresh : ∀ e ∈ result.edits, e.identifier ∉ existing
  nodup : (result.edits.map IdEdit.identifier).Nodup

theorem Minted.mintFor {existing : List Text} {result : Generation} (h : Minted existing result) (line : LineGroup)
    (g : Generator) : Minted existing (mintFor line (result, g)).1 := by
  unfold Generator.mintFor
  dsimp only
  obtain ⟨source, heq⟩ | ⟨id, source, hid, heq⟩ := g.mint_cases (identifierStem line.first.ancestry) result.used
  · rw [heq]
    exact ⟨h.kept, h.used, h.fresh, h.nodup⟩
  · rw [heq]
    refine ⟨fun i hi => List.mem_insert_of_mem (h.kept i hi), fun e he => ?_, fun e he => ?_, ?_⟩
    · rcases List.mem_append.1 he with he | he
      · exact List.mem_insert_of_mem (h.used e he)
      · rw [List.mem_singleton.1 he]
        exact List.mem_insert_self
    · rcases List.mem_append.1 he with he | he
      · exact h.fresh e he
      · rw [List.mem_singleton.1 he]
        exact fun hmem => hid (h.kept id hmem)
    · rw [List.map_append, List.nodup_append]
      refine ⟨h.nodup, List.nodup_singleton _, fun i hi j hj => ?_⟩
      obtain ⟨e, he, rfl⟩ := List.mem_map.1 hi
      rw [List.mem_singleton.1 hj]
      intro heq
      refine hid ?_
      rw [← show e.identifier = id from heq]
      exact h.used e he

theorem minted_run (g : Generator) (existing : List Text) (root : Node) : Minted existing (g.run existing root).1 := by
  have hfold : ∀ (lines : List LineGroup) (r : Generation × Generator), Minted existing r.1 →
      Minted existing (lines.foldl (fun r line => mintFor line r) r).1 := by
    intro lines
    induction lines with
    | nil => exact fun r hr => hr
    | cons line lines ih => exact fun r hr => ih _ (hr.mintFor line r.2)
  refine hfold _ _ ⟨fun i hi => ?_, fun e he => absurd he List.not_mem_nil, fun e he => absurd he List.not_mem_nil,
    List.nodup_nil⟩
  exact Generation.mem_reserve.2 (.inr (Generation.mem_reserve.2 (.inl hi)))

end Generator

end LineTags
