import LineTags.Proofs.Minting.Accounting
import LineTags.Proofs.Minting.Shown

/-!
# New identifiers and those that a script carries

A run reserves what it finds, and it finds identifiers on lines that show text only, and there not all of them. A script can carry more: on a divert, in logic, on a header. Such an identifier is not reserved. Whether it can come up again depends on the lines that want a tag: it can exactly if it is what stands before the codes of one of them, and a code. For as soon as there is such a line, a source that gives this code over and over leads there.
-/

namespace LineTags

open Text LineForm Node StoryReader

/-! ### Sources that give one code -/

namespace CodeSource

theorem behind_behind (length m n : Nat) (s : CodeSource) : behind length n (behind length m s) = behind length (m + n) s := by
  induction m generalizing s with
  | zero => rw [Nat.zero_add]; rfl
  | succ m ih => rw [Nat.succ_add]; exact ih _

/-- Whether a source gives nothing but one code. -/
def Repeats (length : Nat) (code : Text) (s : CodeSource) : Prop := ∀ n, ((s.behind length n).drawCode length).1 = code

theorem Repeats.behind {length : Nat} {code : Text} {s : CodeSource} (h : s.Repeats length code) (m : Nat) :
    (s.behind length m).Repeats length code := fun n => by
  rw [behind_behind]
  exact h (m + n)

/-- A source that goes through the letters of a code over and over. -/
def looping (code : Text) (drawn : Nat) : CodeSource := ⟨.cycle (code.map fun c => (alphabet.idxOf c : Int)), drawn⟩

theorem drawLetter_looping (code : Text) (q : Nat) {i : Nat} {c : Char} (hc : code[i]? = some c) (hletter : c ∈ alphabet) :
    drawLetter (looping code (q * code.length + i)) = (c, looping code (q * code.length + (i + 1))) := by
  obtain ⟨hi, -⟩ := List.getElem?_eq_some_iff.1 hc
  have hindex : alphabet.idxOf c < alphabet.length := List.idxOf_lt_length_of_mem hletter
  have hnext : next alphabet.length (looping code (q * code.length + i)) =
      (alphabet.idxOf c, looping code (q * code.length + (i + 1))) := by
    unfold next looping
    dsimp only
    rw [List.length_map, Nat.mul_add_mod_self_right, Nat.mod_eq_of_lt hi, List.getElem?_map, hc, Option.map_some,
      Option.getD_some, Int.emod_eq_of_lt (Int.natCast_nonneg _) (Int.ofNat_lt.2 hindex), Int.toNat_natCast, Nat.add_assoc]
  unfold drawLetter
  rw [hnext]
  dsimp only
  rw [List.getElem?_idxOf hletter, Option.getD_some]

variable {code : Text} (hletters : ∀ c ∈ code, c ∈ alphabet)

include hletters

/-- In the middle of a round, the rest of the code is drawn next. -/
theorem drawCode_looping (q : Nat) (before : Text) {rest : Text} (hcode : code = before ++ rest) :
    drawCode rest.length (looping code (q * code.length + before.length)) = (rest, looping code ((q + 1) * code.length)) := by
  induction rest generalizing before with
  | nil =>
    rw [List.append_nil] at hcode
    rw [List.length_nil, drawCode, ← hcode, Nat.succ_mul]
  | cons c rest ih =>
    have hc : code[before.length]? = some c := by
      rw [hcode, List.getElem?_append_right (Nat.le_refl _), Nat.sub_self]
      rfl
    have hrest := ih (before ++ [c]) (by rw [hcode, List.append_assoc]; rfl)
    rw [List.length_append, List.length_singleton] at hrest
    rw [List.length_cons, drawCode, drawLetter_looping code q hc (hletters c (List.mem_of_getElem? hc))]
    dsimp only
    rw [hrest]

theorem repeats_looping : (looping code 0).Repeats code.length code := by
  have hdraw : ∀ q, drawCode code.length (looping code (q * code.length)) = (code, looping code ((q + 1) * code.length)) :=
    fun q => drawCode_looping hletters q [] rfl
  have hbehind : ∀ n q, CodeSource.behind code.length n (looping code (q * code.length)) =
      looping code ((q + n) * code.length) := by
    intro n
    induction n with
    | zero => exact fun q => rfl
    | succ n ih =>
      intro q
      rw [CodeSource.behind, hdraw, ih, Nat.succ_add_eq_add_succ]
  intro n
  have hstart := hbehind n 0
  rw [Nat.zero_mul] at hstart
  rw [hstart, hdraw]

end CodeSource

namespace Settles

variable {attempts length : Int} {lines : List LineGroup} {used used' : List Text} {s s' : CodeSource}
  {settlements : List Settlement}

theorem subset (h : Settles attempts length lines used s settlements used' s') : used ⊆ used' :=
  fun id hid => (h.fresh.2 id).2 (.inl hid)

/-- With a source of one code, each line without identifiers takes this code, unless it is taken. -/
theorem mem_of_repeats (h : Settles attempts length lines used s settlements used' s') {code : Text}
    (hattempts : 0 < attempts) (hs : s.Repeats length.toNat code) {line : LineGroup} (hline : line ∈ lines)
    (hnone : line.identifiers = []) : identifierStem line.first.ancestry ++ code ∈ used' := by
  induction h with
  | done => cases hline
  | kept hsome _ ih =>
    rcases List.mem_cons.1 hline with rfl | hline
    · exact absurd hnone hsome
    · exact ih hs hline
  | @minted _ _ _ _ s _ _ n id _ _ _ hid _ hrest ih =>
    rcases List.mem_cons.1 hline with rfl | hline
    · rw [hs n] at hid
      exact hrest.subset (List.mem_insert_iff.2 (.inl hid.symm))
    · exact ih (hs.behind (n + 1)) hline
  | @exhausted _ _ _ _ s _ _ _ htaken hrest ih =>
    rcases List.mem_cons.1 hline with rfl | hline
    · obtain ⟨n, hn⟩ : ∃ n, attempts.toNat = n + 1 := Nat.exists_eq_add_one.2 (Int.pos_iff_toNat_pos.1 hattempts)
      rw [hn] at htaken
      exact hrest.subset (htaken code (hs 0 ▸ List.mem_cons_self))
    · exact ih (hs.behind _) hline

/-- Each new identifier is made for a line without identifiers. -/
theorem exists_madeFor (h : Settles attempts length lines used s settlements used' s') :
    ∀ e ∈ settlements.filterMap Settlement.edit?,
      ∃ line ∈ lines, line.identifiers = [] ∧ Generator.MadeFor length.toNat e line := by
  induction h with
  | done => exact nofun
  | kept _ _ ih | exhausted _ _ _ ih =>
    intro e he
    obtain ⟨line, hline, hrest⟩ := ih e he
    exact ⟨line, List.mem_cons_of_mem _ hline, hrest⟩
  | @minted line _ _ _ s _ rest n id hnone _ _ hid _ _ ih =>
    intro e he
    rw [List.filterMap_cons] at he
    rcases List.mem_cons.1 he with rfl | he
    · exact ⟨line, List.mem_cons_self, hnone, rfl, _, hid, CodeSource.drawCode_spec _ _⟩
    · obtain ⟨line, hline, hrest⟩ := ih e he
      exact ⟨line, List.mem_cons_of_mem _ hline, hrest⟩

end Settles

/-! ### What a run can mint -/

namespace Story

variable (source : Text → Text → Prop) (story : Story) (identifier : Text)

/-- Whether a file of a story carries an identifier, on whatever line. -/
def Carries : Prop := ∃ file ∈ story.fileNames, ∃ u, source file u ∧ identifier ∈ idsIn u

/-- Whether an identifier is found on a line that shows text. -/
def Finds : Prop := ∃ file u i ps, ShownLine source story file u i ps ∧ identifier ∈ foundIn ps

/-- Whether an identifier is made like those for a line that shows text and has none. -/
def Awaits : Prop :=
  ∃ file u i ps code, ShownLine source story file u i ps ∧ foundIn ps = [] ∧ code.length = codeLength ∧
    (∀ c ∈ code, c ∈ CodeSource.alphabet) ∧ identifier = (Scope.ofLine (lines (dropMarks u)) i).stem ++ code

end Story

namespace Generator

section

variable {library : Library} {root r : Text} {story : Story} (h : Story.parse library root r = .ok story)

include h

theorem mem_found_iff (g : Generator) (existing : List Text) {identifier : Text} :
    identifier ∈ (g.run existing story.root).1.found ↔ story.Finds (SourceText library root r) identifier := by
  obtain ⟨-, -, -, -, -, -, hfound⟩ := g.run_settles existing story.root
  rw [hfound, List.mem_flatMap]
  constructor
  · rintro ⟨g, hg, hmem⟩
    obtain ⟨file, u, i, ps, hshown, hstands⟩ := exists_shownLine_of_group h hg
    exact ⟨file, u, i, ps, hshown, (hstands.found identifier).1 hmem⟩
  · rintro ⟨file, u, i, ps, hshown, hmem⟩
    obtain ⟨g, hg, hstands⟩ := exists_group_of_shownLine h hshown
    exact ⟨g, hg, (hstands.found identifier).2 hmem⟩

/-- What some source leads a run to mint is what a line awaits and no line has. -/
theorem exists_mints_iff {attempts : Int} (hattempts : 0 < attempts) {identifier : Text} :
    (∃ source, identifier ∈ (Generator.run ⟨attempts, codeLength, source⟩ [] story.root).1.edits.map IdEdit.identifier) ↔
      story.Awaits (SourceText library root r) identifier ∧ ¬story.Finds (SourceText library root r) identifier := by
  constructor
  · rintro ⟨source, hmem⟩
    obtain ⟨settlements, reserved, hsettles, hreserved, hedits, -, -⟩ :=
      Generator.run_settles ⟨attempts, codeLength, source⟩ [] story.root
    obtain ⟨e, he, rfl⟩ := List.mem_map.1 hmem
    rw [hedits] at he
    refine ⟨?_, fun hfinds => ?_⟩
    · obtain ⟨g, hg, hnone, -, code, hid, hlength, hletters⟩ := hsettles.exists_madeFor e he
      obtain ⟨file, u, i, ps, hshown, hstands⟩ := exists_shownLine_of_group h hg
      exact ⟨file, u, i, ps, code, hshown, hstands.identifiers_eq_nil_iff.1 hnone, hlength, hletters, hstands.stem ▸ hid⟩
    · have hfresh := hsettles.fresh.1.2 e he
      exact hfresh ((hreserved _).2 (.inr ((mem_found_iff h _ []).2 hfinds)))
  · rintro ⟨⟨file, u, i, ps, code, hshown, hnone, hlength, hletters, rfl⟩, hnot⟩
    refine ⟨CodeSource.looping code 0, ?_⟩
    obtain ⟨settlements, reserved, hsettles, hreserved, hedits, -, -⟩ :=
      Generator.run_settles ⟨attempts, codeLength, CodeSource.looping code 0⟩ [] story.root
    obtain ⟨g, hg, hstands⟩ := exists_group_of_shownLine h hshown
    have hrepeats : (CodeSource.looping code 0).Repeats (codeLength : Int).toNat code :=
      hlength ▸ CodeSource.repeats_looping hletters
    have hused := hsettles.mem_of_repeats hattempts hrepeats hg (hstands.identifiers_eq_nil_iff.2 hnone)
    rw [hstands.stem] at hused
    rw [hedits]
    refine ((hsettles.fresh.2 _).1 hused).resolve_left fun hres => ?_
    exact ((hreserved _).1 hres).elim List.not_mem_nil fun hfound => hnot ((mem_found_iff h _ []).1 hfound)

/-- No run mints what the story carries, whatever the source, exactly if each identifier that the story carries and a line awaits is found on some line. -/
theorem mints_uncarried_iff {attempts : Int} (hattempts : 0 < attempts) :
    (∀ source, ∀ e ∈ (Generator.run ⟨attempts, codeLength, source⟩ [] story.root).1.edits,
        ¬story.Carries (SourceText library root r) e.identifier) ↔
      ∀ identifier, story.Carries (SourceText library root r) identifier →
        story.Awaits (SourceText library root r) identifier → story.Finds (SourceText library root r) identifier := by
  constructor
  · intro hmints identifier hcarries hawaits
    by_contra hnot
    obtain ⟨source, hmem⟩ := (exists_mints_iff h hattempts).2 ⟨hawaits, hnot⟩
    obtain ⟨e, he, rfl⟩ := List.mem_map.1 hmem
    exact hmints source e he hcarries
  · intro hfinds source e he hcarries
    obtain ⟨hawaits, hnot⟩ := (exists_mints_iff h hattempts).1 ⟨source, List.mem_map_of_mem he⟩
    exact hnot (hfinds _ hcarries hawaits)

end

/-- A line with a tag and one without. -/
def halfTagged : Text := "Hello #id:AAAA\nThere".toList

theorem mints_uncarried_halfTagged : ∃ story, Story.parse {} mainFile halfTagged = .ok story ∧ (0 : Int) < 100 ∧
    ∀ source, ∀ e ∈ (Generator.run ⟨100, codeLength, source⟩ [] story.root).1.edits,
      ¬story.Carries (SourceText {} mainFile halfTagged) e.identifier := by
  have hmap : (Story.parse {} mainFile halfTagged).toOption.map (fun _ => ()) = some () := by decide +kernel
  obtain ⟨story, hparse, -⟩ := exists_parse_of_map hmap
  have hpieces : (piecesIn? "Hello #id:AAAA".toList).map (fun ps => (decide (0 < visible.ofPieces ps), foundIn ps)) =
      some (true, ["AAAA".toList]) := by decide +kernel
  obtain ⟨ps, hps, heq⟩ := Option.map_eq_some_iff.1 hpieces
  obtain ⟨hshows, hfound⟩ := Prod.mk.inj heq
  have hline : (lines (dropMarks halfTagged))[0]? = some "Hello #id:AAAA".toList := by decide +kernel
  have hids : idsIn halfTagged = ["AAAA".toList] := by decide +kernel
  refine ⟨story, hparse, by decide, (mints_uncarried_iff hparse (by decide)).2 ?_⟩
  rintro identifier ⟨file, hfile, u, hsource, hmem⟩ -
  obtain rfl : u = halfTagged := by
    unfold SourceText at hsource
    split at hsource
    · exact hsource
    · cases hsource
  rw [hids] at hmem
  rw [List.mem_singleton.1 hmem]
  exact ⟨mainFile, halfTagged, 0, ps, ⟨root_mem_fileNames hparse, sourceText_root {} mainFile halfTagged,
    ⟨_, hline, hps⟩, of_decide_eq_true hshows⟩, hfound ▸ List.mem_singleton_self _⟩

/-- The tag of a divert belongs to no text, so its identifier is not found and the first draw brings it up again. -/
theorem not_uncarried_taggedDivert : ∃ story, Story.parse {} mainFile "-> END #id:087T\nHello".toList = .ok story ∧
    ∃ e ∈ (firstDraws.run [] story.root).1.edits, e.identifier = "087T".toList ∧
      story.Carries (SourceText {} mainFile "-> END #id:087T\nHello".toList) e.identifier := by
  have hmap : (Story.parse {} mainFile "-> END #id:087T\nHello".toList).toOption.map (fun story =>
      (firstDraws.run [] story.root).1.edits.map IdEdit.identifier) = some ["087T".toList] := by decide +kernel
  obtain ⟨story, hparse, hedits⟩ := exists_parse_of_map hmap
  obtain ⟨e, he, hid⟩ := List.mem_map.1 (hedits ▸ List.mem_singleton_self _)
  refine ⟨story, hparse, e, he, hid, mainFile, root_mem_fileNames hparse, _, sourceText_root {} mainFile _, ?_⟩
  rw [hid]
  decide +kernel

end Generator

end LineTags
