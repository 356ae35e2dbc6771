import LineTags.Proofs.Settings.Saving
import Mathlib.Data.List.Induction
import Mathlib.Data.List.Sort

/-!
# The projects opened last

However projects were added, and whatever was brought into order, turned into data and back, or saved and loaded between, the recent projects are the ten that were added last: each once, the latest first.

The whole ranking of the projects is the invariant, and its first ten are what the settings hold. Adding a project takes it out of the ranking and puts it in front. That the ranking is cut before the next project is added loses nothing, since at most one of those that are kept is taken out.
-/

namespace LineTags

variable {paths ranking other : List Text} {path p q : Text}

/-- A project was added again after the last time that another was. -/
def AddedAfter (paths : List Text) (p q : Text) : Prop := ∃ later, later <:+ paths ∧ p ∈ later ∧ q ∉ later

/-- The projects that were added, each once, in the order of their last additions, the latest first. -/
structure LatestFirst (paths ranking : List Text) : Prop where
  nodup : ranking.Nodup
  mem_iff : ∀ p, p ∈ ranking ↔ p ∈ paths
  ordered : ranking.Pairwise (AddedAfter paths)

theorem AddedAfter.asymm (h : AddedAfter paths p q) : ¬AddedAfter paths q p := by
  obtain ⟨later, hlater, hp, hq⟩ := h
  rintro ⟨later', hlater', hq', hp'⟩
  rcases List.suffix_or_suffix_of_suffix hlater hlater' with hsuffix | hsuffix
  · exact hp' (hsuffix.mem hp)
  · exact hq (hsuffix.mem hq')

theorem addedAfter_concat_of_ne (hq : q ≠ path) (h : AddedAfter paths p q) :
    AddedAfter (paths ++ [path]) p q := by
  obtain ⟨later, hlater, hpin, hqout⟩ := h
  refine ⟨later ++ [path], ?_, List.mem_append_left _ hpin, ?_⟩
  · obtain ⟨before, rfl⟩ := hlater
    exact ⟨before, by simp⟩
  · rw [List.mem_append, List.mem_singleton]
    exact not_or.2 ⟨hqout, hq⟩

/-- Takes a project out of a ranking and puts it in front. -/
def promote (path : Text) (ranking : List Text) : List Text := path :: ranking.filter (· ≠ path)

namespace LatestFirst

theorem nil : LatestFirst [] [] where
  nodup := .nil
  mem_iff := fun _ => Iff.rfl
  ordered := .nil

theorem promote (h : LatestFirst paths ranking) (path : Text) : LatestFirst (paths ++ [path]) (promote path ranking) where
  nodup := by
    refine List.nodup_cons.2 ⟨fun hmem => ?_, h.nodup.filter _⟩
    exact of_decide_eq_true (List.mem_filter.1 hmem).2 rfl
  mem_iff := by
    intro p
    rw [LineTags.promote, List.mem_cons, List.mem_filter, List.mem_append, List.mem_singleton, h.mem_iff]
    by_cases hp : p = path <;> simp [hp]
  ordered := by
    have hothers : ∀ p ∈ ranking.filter (· ≠ path), p ≠ path := fun p hp => of_decide_eq_true (List.mem_filter.1 hp).2
    refine List.pairwise_cons.2 ⟨fun q hq => ?_, ?_⟩
    · exact ⟨[path], List.suffix_append _ _, List.mem_singleton_self path, fun hmem => hothers q hq (List.mem_singleton.1 hmem)⟩
    · refine (h.ordered.filter _).imp_of_mem fun _ hq hafter => ?_
      exact addedAfter_concat_of_ne (hothers _ hq) hafter

/-- There is one such ranking only. -/
theorem unique (h : LatestFirst paths ranking) (h' : LatestFirst paths other) : other = ranking := by
  have : Std.Antisymm (AddedAfter paths) := ⟨fun _ _ hafter hafter' => absurd hafter' hafter.asymm⟩
  have : Std.Irrefl (AddedAfter paths) := ⟨fun _ hafter => hafter.asymm hafter⟩
  exact h'.ordered.eq_of_mem_iff h.ordered fun p => (h'.mem_iff p).trans (h.mem_iff p).symm

end LatestFirst

/-! ## Cutting a ranking -/

theorem filter_ne_of_not_mem (h : path ∉ ranking) : ranking.filter (· ≠ path) = ranking := by
  refine List.filter_eq_self.2 fun p hp => decide_eq_true ?_
  rintro rfl
  exact h hp

/-- One more than are kept in the end is enough to keep before a project is taken out. -/
theorem take_filter_take_succ (n : Nat) (path : Text) (h : ranking.Nodup) :
    ((ranking.take (n + 1)).filter (· ≠ path)).take n = (ranking.filter (· ≠ path)).take n := by
  induction ranking generalizing n with
  | nil => rfl
  | cons p ranking ih =>
    obtain ⟨hp, hnodup⟩ := List.nodup_cons.1 h
    rw [List.take_succ_cons]
    by_cases heq : p = path
    · -- what is taken out stands here and nowhere else
      subst heq
      rw [List.filter_cons_of_neg (by simp), List.filter_cons_of_neg (by simp), filter_ne_of_not_mem hp,
        filter_ne_of_not_mem fun hmem => hp (List.mem_of_mem_take hmem), List.take_take, Nat.min_self]
    · rw [List.filter_cons_of_pos (by simpa using heq), List.filter_cons_of_pos (by simpa using heq)]
      cases n with
      | zero => rfl
      | succ n => rw [List.take_succ_cons, List.take_succ_cons, ih n hnodup]

/-- A ranking that is cut before a project is put in front starts like one that is not. -/
theorem take_promote_take (n : Nat) (path : Text) (h : ranking.Nodup) :
    (promote path (ranking.take n)).take n = (promote path ranking).take n := by
  cases n with
  | zero => rfl
  | succ n => rw [promote, promote, List.take_succ_cons, List.take_succ_cons, take_filter_take_succ n path h]

/-! ## One step -/

namespace Settings

theorem addRecent_eq (ranking : List Text) (hnodup : ranking.Nodup) (path : Text) :
    addRecent { recent := ranking.take mostRecent } path = { recent := (promote path ranking).take mostRecent } := by
  rw [← take_promote_take mostRecent path hnodup]
  rfl

theorem storable_recent (ranking : List Text) : Storable { recent := ranking.take mostRecent } :=
  storable_of_projects ⟨inRange_default.debounce, inRange_default.maxAttempts, List.length_take_le _ _⟩ rfl

end Settings

namespace SettingsRecord

variable {s : Settings}

/-- A record of settings takes a project as the settings do. -/
theorem addRecent_ofSettings (s : Settings) (path : Text) : (ofSettings s).addRecent path = .ok (ofSettings (s.addRecent path)) := by
  have hmembers : membersOf (ofSettings s).recent = .ok (s.recent.map Json.string) := rfl
  rw [addRecent, hmembers]
  dsimp only [bind, Except.bind]
  rw [List.filter_map, ← List.map_cons, ← List.map_take]
  rfl

/-- Settings in range are in order already. -/
theorem clamp_ofSettings (h : s.InRange) : (ofSettings s).clamp = (.ok (), ofSettings s) := by
  have hrecent : ((s.recent.map Json.string).map fun i => Json.string i.display).take Settings.mostRecent =
      s.recent.map Json.string := by
    rw [List.map_map, ← List.map_take, List.take_of_length_le h.recent]
    rfl
  unfold clamp ofSettings
  dsimp only [Json.toWhole, membersOf]
  rw [Settings.between_of_bounds h.debounce, Settings.between_of_bounds h.maxAttempts, hrecent]
  rfl

theorem toJson_ofSettings (s : Settings) : (ofSettings s).toJson = s.toJson := rfl

theorem save_ofSettings (h : s.InRange) : (ofSettings s).save = (.ok s.toJson.toLines, ofSettings s) := by
  rw [save, clamp_ofSettings h]
  dsimp only
  rw [toJson_ofSettings]

/-- What can happen to settings: a project is added, they are brought into order, they are turned into data and back, or they are saved and loaded, on any disk. -/
inductive Event
  | added (path : Text)
  | clamped
  | reread
  | stored (d : Disk) (workingFolder : List Text) (file : Text)

/-- The settings after an event. Where the disk refuses the file they stay in memory. -/
def perform (r : SettingsRecord) : Event → Except SettingsFileError SettingsRecord
  | .added path => (r.addRecent path).mapError .unusable
  | .clamped =>
    match r.clamp with
    | (.ok (), r) => .ok r
    | (.error e, _) => .error (.unusable e)
  | .reread => ((Settings.ofJson r.toJson).map ofSettings).mapError .unusable
  | .stored d workingFolder file =>
    match r.save with
    | (.error e, _) => .error (.unusable e)
    | (.ok t, r) =>
      match (d.makeMissingFolders workingFolder (Path.folder file)).write workingFolder file t with
      | (d, none) => (Settings.load d workingFolder file).map ofSettings
      | (_, some _) => .ok r

/-- The projects that were added, in this order. -/
def added (history : List Event) : List Text :=
  history.filterMap fun
    | .added path => some path
    | _ => none

/-- The ranking of the projects after an event. -/
def rank (ranking : List Text) : Event → List Text
  | .added path => promote path ranking
  | _ => ranking

variable {ranking : List Text}

/-- After every event the settings hold the start of the ranking. -/
theorem perform_eq (hnodup : ranking.Nodup) (event : Event) :
    perform (ofSettings { recent := ranking.take Settings.mostRecent }) event =
      .ok (ofSettings { recent := (rank ranking event).take Settings.mostRecent }) := by
  have hstorable := Settings.storable_recent ranking
  cases event with
  | added path =>
    rw [perform, addRecent_ofSettings, Settings.addRecent_eq ranking hnodup]
    rfl
  | clamped =>
    rw [perform, clamp_ofSettings hstorable.inRange]
    rfl
  | reread =>
    rw [perform, toJson_ofSettings, Settings.ofJson_toJson hstorable.inRange]
    rfl
  | stored d workingFolder file =>
    rw [perform, save_ofSettings hstorable.inRange]
    dsimp only
    split
    · next d' hsave =>
      rw [hstorable.load_of_save hsave]
      rfl
    · rfl

theorem latestFirst_rank {history : List Event} (h : LatestFirst (added history) ranking) (event : Event) :
    LatestFirst (added (history ++ [event])) (rank ranking event) := by
  rw [added, List.filterMap_append]
  cases event with
  | added path => exact h.promote path
  | _ => exact (List.append_nil _).symm ▸ h

/-- By induction on the history, with the ranking after it as the invariant. -/
theorem exists_ranking (history : List Event) :
    ∃ ranking, LatestFirst (added history) ranking ∧
      history.foldlM perform (ofSettings {}) = .ok (ofSettings { recent := ranking.take Settings.mostRecent }) := by
  induction history using List.reverseRecOn with
  | nil => exact ⟨[], .nil, rfl⟩
  | append_singleton history event ih =>
    obtain ⟨ranking, hranking, hperform⟩ := ih
    refine ⟨rank ranking event, latestFirst_rank hranking event, ?_⟩
    rw [List.foldlM_append, hperform]
    change (perform (ofSettings { recent := ranking.take Settings.mostRecent }) event >>= pure) = _
    rw [perform_eq hranking.nodup]
    rfl

/-- Whatever happens to fresh settings, they hold the ten projects that were added last and are the defaults otherwise. Only what was added counts: there is one ranking of it, and no other event changes anything. -/
theorem recent_of_history (history : List Event) :
    (∃! ranking, LatestFirst (added history) ranking) ∧
    ∀ ranking, LatestFirst (added history) ranking →
      history.foldlM perform (ofSettings {}) = .ok (ofSettings { recent := ranking.take 10 }) := by
  obtain ⟨ranking, hranking, hperform⟩ := exists_ranking history
  refine ⟨⟨ranking, hranking, fun other hother => hranking.unique hother⟩, fun other hother => ?_⟩
  rw [hperform, hranking.unique hother]
  rfl

/-- Thirteen projects, and one of them again that was cut already. -/
example :
    let paths := "abcdefghijklmb".toList.map fun c => [c]
    (paths.foldl Settings.addRecent {}).recent = "bmlkjihgfe".toList.map fun c => [c] := by decide

end SettingsRecord

end LineTags
