import LineTags.Settings.Basic

/-!
# Settings and their range

Any data value gives settings in range, unless one of its numbers is infinite. Settings in range are what their own data value gives.
-/

namespace LineTags

/-- The numbers are in their bounds, and there are not too many projects. -/
structure Settings.InRange (s : Settings) : Prop where
  debounce : 0 ≤ s.debounce ∧ s.debounce ≤ longestWait
  maxAttempts : 1 ≤ s.maxAttempts ∧ s.maxAttempts ≤ mostAttempts
  recent : s.recent.length ≤ mostRecent

/-- A number setting is given and is infinite. -/
def Json.HasInfiniteSetting : Json → Prop
  | .object fields =>
    ∃ name ∈ ["debounce_ms", "max_attempts"], ∃ value, fields.lookup name.toList = some value ∧ value.toWhole = .error .infinite
  | _ => False

namespace Settings

variable {s : Settings} {value : Json} {value? : Option Json} {e : SettingsError} {lowest highest n standard : Int}

theorem between_bounds (h : lowest ≤ highest) (n : Int) :
    lowest ≤ between lowest highest n ∧ between lowest highest n ≤ highest := by
  unfold between
  omega

theorem between_of_bounds (h : lowest ≤ n ∧ n ≤ highest) : between lowest highest n = n := by
  unfold between
  omega

theorem inRange_default : InRange {} where
  debounce := by decide
  maxAttempts := by decide
  recent := by decide

/-- Of what a value can be instead of a number, only an infinite number is not passed over. -/
theorem readNumber_eq_error_iff :
    readNumber value? standard = .error e ↔ e = .infinite ∧ ∃ value, value? = some value ∧ value.toWhole = .error .infinite := by
  unfold readNumber
  cases value? with
  | none => simp
  | some value =>
    cases hwhole : value.toWhole with
    | ok n => simp [hwhole]
    | error e' => cases e' <;> simp [hwhole, eq_comm]

/-- The settings in an object, once its two numbers are read. -/
def ofFields (fields : List (Text × Json)) (debounce maxAttempts : Int) : Settings where
  debounce := between 0 longestWait debounce
  maxAttempts := between 1 mostAttempts maxAttempts
  repair := readFlag (fields.lookup "repair_tag_spacing".toList)
  strict := readFlag (fields.lookup "strict_tags".toList)
  recent := match fields.lookup "recent_projects".toList with
    | some (.array items) => (items.map Json.display).take mostRecent
    | _ => []
  projects := match fields.lookup "project_settings".toList with
    | some (.object projects) => projects.filterMap fun
      | (path, .object own) => some (path, own)
      | _ => none
    | _ => []

theorem ofJson_object (fields : List (Text × Json)) :
    ofJson (.object fields) = do
      let debounce ← readNumber (fields.lookup "debounce_ms".toList) 500
      let maxAttempts ← readNumber (fields.lookup "max_attempts".toList) 100
      return ofFields fields debounce maxAttempts := rfl

theorem inRange_ofFields (fields : List (Text × Json)) (debounce maxAttempts : Int) :
    (ofFields fields debounce maxAttempts).InRange where
  debounce := between_bounds (by decide) debounce
  maxAttempts := between_bounds (by decide) maxAttempts
  recent := by
    unfold ofFields
    dsimp only
    split
    · exact List.length_take_le _ _
    · exact Nat.zero_le _

theorem inRange_of_ofJson (h : ofJson value = .ok s) : s.InRange := by
  cases value with
  | object fields =>
    rw [ofJson_object] at h
    cases hdebounce : readNumber (fields.lookup "debounce_ms".toList) 500 with
    | error e =>
      rw [hdebounce] at h
      cases h
    | ok debounce =>
      cases hmax : readNumber (fields.lookup "max_attempts".toList) 100 with
      | error e =>
        rw [hdebounce, hmax] at h
        cases h
      | ok maxAttempts =>
        rw [hdebounce, hmax] at h
        obtain rfl := Except.ok.inj h
        exact inRange_ofFields fields debounce maxAttempts
  | _ =>
    obtain rfl := Except.ok.inj h
    exact inRange_default

theorem ofJson_eq_error_iff : ofJson value = .error e ↔ e = .infinite ∧ value.HasInfiniteSetting := by
  cases value with
  | object fields =>
    have hnumber (name : String) (standard : Int) (e : SettingsError) :
        readNumber (fields.lookup name.toList) standard = .error e ↔ _ := readNumber_eq_error_iff
    simp only [ofJson_object, Json.HasInfiniteSetting, List.mem_cons, List.not_mem_nil, or_false, exists_eq_or_imp, exists_eq_left]
    cases hdebounce : readNumber (fields.lookup "debounce_ms".toList) 500 with
    | error e' =>
      obtain ⟨rfl, hinfinite⟩ := (hnumber "debounce_ms" 500 e').1 hdebounce
      constructor
      · intro h
        exact ⟨(Except.error.inj h).symm, .inl hinfinite⟩
      · rintro ⟨rfl, -⟩
        rfl
    | ok debounce =>
      have hfinite : ¬∃ value, fields.lookup "debounce_ms".toList = some value ∧ value.toWhole = .error .infinite := by
        intro hinfinite
        rw [(hnumber "debounce_ms" 500 .infinite).2 ⟨rfl, hinfinite⟩] at hdebounce
        cases hdebounce
      rw [or_iff_right hfinite, ← hnumber "max_attempts" 100 e]
      cases readNumber (fields.lookup "max_attempts".toList) 100 with
      | error e' => exact ⟨fun h => Except.error.inj h ▸ rfl, fun h => Except.error.inj h ▸ rfl⟩
      | ok maxAttempts => exact iff_of_false nofun nofun
  | _ => exact iff_of_false nofun And.right

theorem ofFields_toFields (h : s.InRange) : ofFields s.toFields s.debounce s.maxAttempts = s := by
  have hrecent : ((s.recent.map Json.string).map Json.display).take mostRecent = s.recent := by
    rw [List.map_map]
    exact (congrArg _ (List.map_id _)).trans (List.take_of_length_le h.recent)
  have hprojects : (s.projects.map fun p => (p.1, Json.object p.2)).filterMap (fun
      | (path, .object own) => some (path, own)
      | _ => none) = s.projects := by
    rw [List.filterMap_map]
    exact List.filterMap_some
  calc ofFields s.toFields s.debounce s.maxAttempts =
        { debounce := between 0 longestWait s.debounce
          maxAttempts := between 1 mostAttempts s.maxAttempts
          repair := s.repair
          strict := s.strict
          recent := ((s.recent.map Json.string).map Json.display).take mostRecent
          projects := (s.projects.map fun p => (p.1, Json.object p.2)).filterMap fun
            | (path, .object own) => some (path, own)
            | _ => none } := rfl
    _ = s := by rw [between_of_bounds h.debounce, between_of_bounds h.maxAttempts, hrecent, hprojects]

/-- Settings in range are not changed by being written as data and read again. -/
theorem ofJson_toJson (h : s.InRange) : ofJson s.toJson = .ok s :=
  congrArg Except.ok (ofFields_toFields h)

end Settings

end LineTags
