import LineTags.Proofs.Disk.Walking
import LineTags.Proofs.Keyed
import Mathlib.Data.List.Nodup

/-!
# What saving leaves alone

Making folders puts entries only where nothing was, and writing a file replaces its own bytes only. So a path that leads somewhere goes on leading there, whatever is saved, and after several files were saved at different places each of them holds what was written to it and every other file holds what it held.
-/

namespace LineTags

namespace Disk

variable {d d' d'' : Disk} {workingFolder place : List Text} {path : Text} {written written' : List (List Text)}

theorem entry?_put {e : DiskEntry} (hplace : place ≠ []) (d : Disk) (other : List Text) :
    entry? (d.put place e) other = if other = place then some e else d.entry? other := by
  unfold entry? put
  by_cases hother : other = place
  · subst hother
    rw [if_neg (by rwa [List.isEmpty_iff]), if_pos rfl, Keyed.lookup_put, if_pos rfl]
  · rw [if_neg hother, Keyed.lookup_put, if_neg hother]

/-- Folders stay folders and files stay files, and files keep their bytes but for those at some places. -/
structure Keeps (written : List (List Text)) (d d' : Disk) : Prop where
  folder : ∀ place, d.entry? place = some .folder → d'.entry? place = some .folder
  file : ∀ place bytes, d.entry? place = some (.file bytes) →
    ∃ bytes', d'.entry? place = some (.file bytes') ∧ (place ∉ written → bytes' = bytes)

theorem Keeps.refl (d : Disk) : Keeps [] d d := ⟨fun _ h => h, fun _ bytes h => ⟨bytes, h, fun _ => rfl⟩⟩

theorem Keeps.trans (h : Keeps written d d') (h' : Keeps written' d' d'') : Keeps (written ++ written') d d'' where
  folder := fun place hplace => h'.folder place (h.folder place hplace)
  file := fun place bytes hplace => by
    obtain ⟨bytes', hplace', hsame⟩ := h.file place bytes hplace
    obtain ⟨bytes'', hplace'', hsame'⟩ := h'.file place bytes' hplace'
    refine ⟨bytes'', hplace'', fun hnot => ?_⟩
    rw [List.mem_append, not_or] at hnot
    rw [hsame' hnot.2, hsame hnot.1]

theorem Keeps.entry?_eq (h : Keeps written d d') {bytes : List UInt8} (hfile : d.entry? place = some (.file bytes))
    (hplace : place ∉ written) : d'.entry? place = d.entry? place := by
  obtain ⟨bytes', hfile', hsame⟩ := h.file place bytes hfile
  rw [hfile', hfile, hsame hplace]

/-! ## Paths go on leading where they led -/

theorem Keeps.walks (h : Keeps written d d') {names : List Text} {r : List Text × Bool} (hwalk : Walks d place names r) :
    Walks d' place names r := by
  induction hwalk with
  | done => exact .done
  | stay hskip _ ih => exact .stay hskip ih
  | up _ ih => exact .up ih
  | last hname hend => exact .last hname hend
  | into hname hmore hfolder _ ih => exact .into hname hmore (h.folder _ hfolder) ih

theorem Keeps.locate (h : Keeps written d d') {r : List Text × Bool} (hlocate : d.locate workingFolder path = .ok r) :
    d'.locate workingFolder path = .ok r := by
  unfold Disk.locate at hlocate ⊢
  by_cases hempty : path.isEmpty = true
  · rw [if_pos hempty] at hlocate
    cases hlocate
  rw [if_neg hempty] at hlocate ⊢
  by_cases hnull : '\x00' ∈ path
  · rw [if_pos hnull] at hlocate
    cases hlocate
  rw [if_neg hnull] at hlocate ⊢
  dsimp only at hlocate ⊢
  generalize hstart : (if path.head? = some '/' then [] else workingFolder) = start at hlocate ⊢
  cases hwalk : d.walk start (Text.split '/' path) with
  | error refusal => rw [hwalk] at hlocate; cases hlocate
  | ok r' =>
    rw [hwalk] at hlocate
    rw [walk_eq_ok_iff.2 (h.walks (walk_eq_ok_iff.1 hwalk))]
    exact hlocate

/-! ## Reading and writing -/

/-- A file that can be read is where its path leads, and the path does not ask for a folder. -/
theorem exists_place_of_readBytes {bytes : List UInt8} (h : d.readBytes workingFolder path = .ok bytes) :
    ∃ place, d.locate workingFolder path = .ok (place, false) ∧ d.entry? place = some (.file bytes) := by
  unfold readBytes at h
  cases hlocate : d.locate workingFolder path with
  | error e => rw [hlocate] at h; cases h
  | ok r =>
    obtain ⟨place, wantsFolder⟩ := r
    rw [hlocate] at h
    dsimp only [bind, Except.bind] at h
    cases hentry : d.entry? place with
    | none => rw [hentry] at h; cases h
    | some e =>
      rw [hentry] at h
      cases e with
      | folder => cases h
      | file bytes' =>
        cases wantsFolder with
        | true => cases h
        | false =>
          cases h
          exact ⟨place, rfl, hentry⟩

theorem readBytes_of_place {bytes : List UInt8} (hlocate : d.locate workingFolder path = .ok (place, false))
    (hfile : d.entry? place = some (.file bytes)) : d.readBytes workingFolder path = .ok bytes := by
  unfold readBytes
  rw [hlocate]
  dsimp only [bind, Except.bind]
  rw [hfile]
  rfl

theorem exists_place_of_readText {t : Text} (h : d.readText workingFolder path = .ok t) :
    ∃ place bytes, d.locate workingFolder path = .ok (place, false) ∧ d.entry? place = some (.file bytes) ∧
      Text.ofUtf8 bytes = .ok t := by
  unfold readText at h
  cases hbytes : d.readBytes workingFolder path with
  | error e => rw [hbytes] at h; cases h
  | ok bytes =>
    rw [hbytes] at h
    obtain ⟨place, hlocate, hfile⟩ := exists_place_of_readBytes hbytes
    refine ⟨place, bytes, hlocate, hfile, ?_⟩
    dsimp only [bind, Except.bind] at h
    cases htext : Text.ofUtf8 bytes with
    | error fault => rw [htext] at h; cases h
    | ok t' =>
      rw [htext] at h
      cases h
      rfl

theorem readText_of_place {bytes : List UInt8} (hlocate : d.locate workingFolder path = .ok (place, false))
    (hfile : d.entry? place = some (.file bytes)) :
    d.readText workingFolder path = (Text.ofUtf8 bytes).mapError .undecodable := by
  unfold readText
  rw [readBytes_of_place hlocate hfile]
  rfl

theorem keeps_put_folder (hplace : d.entry? place = none) : Keeps [] d (d.put place .folder) := by
  have hne : place ≠ [] := by
    rintro rfl
    cases hplace
  have hother : ∀ other e, d.entry? other = some e → entry? (d.put place .folder) other = some e := by
    intro other e hentry
    rw [entry?_put hne, if_neg, hentry]
    rintro rfl
    rw [hplace] at hentry
    cases hentry
  exact ⟨fun other h => hother other _ h, fun other bytes h => ⟨bytes, hother other _ h, fun _ => rfl⟩⟩

theorem keeps_makeFolder (h : d.makeFolder workingFolder path = .ok d') : Keeps [] d d' := by
  unfold makeFolder at h
  cases hlocate : d.locate workingFolder path with
  | error e => rw [hlocate] at h; cases h
  | ok r =>
    rw [hlocate] at h
    dsimp only [bind, Except.bind] at h
    cases hentry : d.entry? r.1 with
    | some e => rw [hentry] at h; cases h
    | none =>
      rw [hentry] at h
      cases h
      exact keeps_put_folder hentry

theorem keeps_ensureFolder (d : Disk) (workingFolder : List Text) (path : Text) :
    Keeps [] d (d.attempt (d.ensureFolder workingFolder path)).1 := by
  unfold ensureFolder
  cases hmake : d.makeFolder workingFolder path with
  | ok made => exact keeps_makeFolder hmake
  | error e =>
    dsimp only
    split
    · exact Keeps.refl d
    · exact Keeps.refl d

/-- Making folders leaves every entry as it is. -/
theorem keeps_makeFoldersDown (workingFolder : List Text) (levels : Nat) (d : Disk) (path : Text) :
    Keeps [] d (makeFoldersDown workingFolder levels d path).1 := by
  induction levels generalizing d path with
  | zero => exact Keeps.refl d
  | succ levels ih =>
    rw [makeFoldersDown]
    generalize (if (Path.fileName path).isEmpty = true then Path.folder path else path) = path'
    split
    · exact keeps_ensureFolder d workingFolder path'
    · have habove := ih d (Path.folder path')
      have hthen : ∀ made : Disk, Keeps [] d made → Keeps [] d (if Path.fileName path' = ['.'] then (made, none)
          else made.attempt (made.ensureFolder workingFolder path')).1 := by
        intro made hmade
        split
        · exact hmade
        · exact hmade.trans (keeps_ensureFolder made workingFolder path')
      split
      · next made hmade =>
        rw [hmade] at habove
        exact hthen made habove
      · next made p hmade =>
        rw [hmade] at habove
        exact hthen made habove
      · next made e hmade =>
        rw [hmade] at habove
        exact habove

/-- A file that is written stands where its path leads, and nothing else changes. -/
theorem writeText_eq_ok {content : Text} (h : d.writeText workingFolder path content = .ok d')
    (hlocate : d.locate workingFolder path = .ok (place, false)) :
    Keeps [place] d d' ∧ d'.entry? place = some (.file content.toUtf8) := by
  unfold writeText writeBytes at h
  rw [hlocate] at h
  dsimp only [bind, Except.bind] at h
  have hput : ∀ {bytes : List UInt8}, d.entry? place ≠ some .folder →
      Keeps [place] d (d.put place (.file bytes)) ∧ entry? (d.put place (.file bytes)) place = some (.file bytes) := by
    intro bytes hfolder
    have hne : place ≠ [] := by
      rintro rfl
      exact hfolder rfl
    refine ⟨⟨fun other hother => ?_, fun other old hother => ?_⟩, ?_⟩
    · rw [entry?_put hne, if_neg, hother]
      rintro rfl
      exact hfolder hother
    · rw [entry?_put hne]
      by_cases heq : other = place
      · exact ⟨bytes, if_pos heq, fun hnot => absurd (List.mem_singleton.2 heq) hnot⟩
      · exact ⟨old, by rw [if_neg heq, hother], fun _ => rfl⟩
    · rw [entry?_put hne, if_pos rfl]
  cases hentry : d.entry? place with
  | none =>
    rw [hentry] at h
    cases h
    exact hput (by rw [hentry]; exact nofun)
  | some e =>
    rw [hentry] at h
    cases e with
    | folder => cases h
    | file bytes =>
      cases h
      exact hput (by rw [hentry]; exact nofun)

/-- A path that is written to does not ask for a folder. -/
theorem exists_place_of_writeText {content : Text} (h : d.writeText workingFolder path content = .ok d') :
    ∃ place, d.locate workingFolder path = .ok (place, false) := by
  unfold writeText writeBytes at h
  cases hlocate : d.locate workingFolder path with
  | error e => rw [hlocate] at h; cases h
  | ok r =>
    obtain ⟨place, wantsFolder⟩ := r
    rw [hlocate] at h
    dsimp only [bind, Except.bind] at h
    cases wantsFolder with
    | false => exact ⟨place, rfl⟩
    | true =>
      split at h
      · cases h
      · cases h
      · cases h

/-- What was written to a file is read from it. -/
theorem readText_of_writeText {content : Text} (h : d.writeText workingFolder path content = .ok d') :
    d'.readText workingFolder path = .ok content := by
  obtain ⟨place, hlocate⟩ := exists_place_of_writeText h
  obtain ⟨hkeeps, hentry⟩ := writeText_eq_ok h hlocate
  rw [readText_of_place (hkeeps.locate hlocate) hentry, Text.ofUtf8_toUtf8]
  rfl

end Disk

namespace Project

open Disk

/-- To save one script and then others is to make folders, to write the script, and to save the others. -/
theorem exists_of_saveFiles_cons {folder name content : Text} {pairs : List (Text × Text)} {w w' : Workplace}
    (h : saveFiles w folder ((name, content) :: pairs) = (w', none)) :
    ∃ made d, Keeps [] w.disk made ∧ made.writeText w.folder (Path.inside folder name) content = .ok d ∧
      saveFiles { w with disk := d } folder pairs = (w', none) := by
  unfold saveFiles at h
  dsimp only at h
  generalize (if (Path.folder (Path.inside folder name)).isEmpty = true then ['.']
    else Path.folder (Path.inside folder name)) = above at h
  have hmakes : Keeps [] w.disk (w.disk.makeFolders w.folder above).1 := keeps_makeFoldersDown w.folder _ w.disk above
  cases hmade : w.disk.makeFolders w.folder above with
  | mk made e? =>
    rw [hmade] at h hmakes
    cases e? with
    | some e => cases h
    | none =>
      dsimp only [Attempt.write] at h
      cases hwrite : made.writeText w.folder (Path.inside folder name) content with
      | error e => rw [hwrite] at h; cases h
      | ok d =>
        rw [hwrite] at h
        exact ⟨made, d, hmakes, hwrite, h⟩

/-- After scripts were saved, every place that was written to holds one of those that lead there, and all other files hold what they held. -/
theorem saveFiles_eq {folder : Text} {pairs : List (Text × Text)} {w w' : Workplace} (placeOf : Text → List Text)
    (h : saveFiles w folder pairs = (w', none))
    (hlocate : ∀ f ∈ pairs, w.disk.locate w.folder (Path.inside folder f.1) = .ok (placeOf f.1, false)) :
    w'.folder = w.folder ∧ Keeps (pairs.map fun f => placeOf f.1) w.disk w'.disk ∧
      ∀ place ∈ pairs.map (fun f => placeOf f.1), ∃ f ∈ pairs, placeOf f.1 = place ∧
        w'.disk.entry? place = some (.file f.2.toUtf8) := by
  induction pairs generalizing w with
  | nil =>
    obtain ⟨rfl, -⟩ := Prod.mk.inj h
    exact ⟨rfl, Keeps.refl _, fun place hplace => absurd hplace List.not_mem_nil⟩
  | cons f pairs ih =>
    obtain ⟨name, content⟩ := f
    obtain ⟨made, d, hmakes, hwrite, hsave⟩ := exists_of_saveFiles_cons h
    obtain ⟨hkeeps, hentry⟩ := writeText_eq_ok hwrite (hmakes.locate (hlocate _ List.mem_cons_self))
    have hfirst : Keeps [placeOf name] w.disk d := hmakes.trans hkeeps
    obtain ⟨hfolder, hrest, hwritten⟩ := ih hsave fun g hg => hfirst.locate (hlocate g (List.mem_cons_of_mem _ hg))
    refine ⟨hfolder, hfirst.trans hrest, fun place hplace => ?_⟩
    by_cases hagain : place ∈ pairs.map fun f => placeOf f.1
    · obtain ⟨g, hg, hplaced, hheld⟩ := hwritten place hagain
      exact ⟨g, List.mem_cons_of_mem _ hg, hplaced, hheld⟩
    · obtain rfl : place = placeOf name := (List.mem_cons.1 hplace).resolve_right hagain
      exact ⟨(name, content), List.mem_cons_self, rfl, (hrest.entry?_eq hentry hagain).trans hentry⟩

end Project

end LineTags
