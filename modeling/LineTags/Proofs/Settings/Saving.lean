import LineTags.Proofs.Disk.Saving
import LineTags.Proofs.Json.RoundTrip
import LineTags.Proofs.Settings.Range
import LineTags.Settings.Record

/-!
# Saving settings and loading them

Settings in range are loaded as they were saved, from any disk that takes the file. What is set for single projects has to be such that JSON keeps it.
-/

namespace LineTags

namespace Settings

variable {s : Settings}

/-- Settings in range that their file keeps. -/
structure Storable (s : Settings) : Prop where
  inRange : s.InRange
  projects : Json.Plain (Json.deepest - 1) (.object (s.projects.map fun (path, own) => (path, .object own)))

theorem storable_of_projects (h : s.InRange) (hnone : s.projects = []) : s.Storable where
  inRange := h
  projects := by
    rw [hnone]
    exact .object List.nodup_nil nofun

/-- The bounds of the numbers are far below what has too many digits. -/
theorem plain_number {room : Nat} {n : Int} (h : n.natAbs < 100000) : Json.Plain room (.int n) := by
  have hlength : (Nat.toDigits 10 n.natAbs).length ≤ 5 := (Nat.length_toDigits_le_iff (by decide) (by decide)).2 h
  exact .int (Nat.le_trans hlength (by decide))

theorem nodup_names_toFields (s : Settings) : (Keyed.names s.toFields).Nodup := by
  change (Keyed.names (toFields {})).Nodup
  decide

theorem Storable.plain_toJson (h : s.Storable) : Json.Plain Json.deepest s.toJson := by
  obtain ⟨hdebounce, hdebounce'⟩ := h.inRange.debounce
  obtain ⟨hmax, hmax'⟩ := h.inRange.maxAttempts
  refine .object (nodup_names_toFields s) ?_
  simp only [toFields, List.forall_mem_cons]
  refine ⟨plain_number ?_, plain_number ?_, .bool _, .bool _, .array ?_, h.projects, nofun⟩
  · simp only [longestWait] at hdebounce'
    omega
  · simp only [mostAttempts] at hmax'
    omega
  · intro item hitem
    obtain ⟨path, -, rfl⟩ := List.mem_map.1 hitem
    exact .string path

theorem Storable.ofText_toLines (h : s.Storable) : ofText s.toJson.toLines = .ok s := by
  rw [ofText, Json.toLines, Json.ofText_write h.plain_toJson]
  exact ofJson_toJson h.inRange

/-- Once a disk has taken the file, the settings are loaded from it. -/
theorem Storable.load_of_save (h : s.Storable) {d d' : Disk} {workingFolder : List Text} {path : Text}
    (hsave : s.save d workingFolder path = (d', none)) : load d' workingFolder path = .ok s := by
  have hread : d'.readText workingFolder path = .ok s.toJson.toLines := by
    unfold save Disk.Attempt.write at hsave
    split at hsave
    · next made _ =>
      cases hwrite : made.writeText workingFolder path s.toJson.toLines with
      | error e =>
        rw [hwrite] at hsave
        cases hsave
      | ok written =>
        rw [hwrite] at hsave
        obtain rfl : written = d' := congrArg Prod.fst hsave
        exact Disk.readText_of_writeText hwrite
    · next hfailed => exact absurd hsave (hfailed d')
  rw [load, hread]
  dsimp only
  rw [h.ofText_toLines]
  rfl

end Settings

end LineTags
