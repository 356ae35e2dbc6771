import LineTags.Proofs.Disk.Errors
import LineTags.Proofs.Json.Faults
import LineTags.Proofs.Json.Overflow
import LineTags.Proofs.Settings.Range

/-!
# What stops a program at its settings

A settings file may be missing, and it may hold anything that is no JSON: the settings are the defaults then. Whatever is loaded is in range. But a file can also stop the program that loads it, in four ways: its bytes are no text, a whole number in it has too many digits, its brackets lie too deep inside each other, or one of the two numbers among the settings is beyond the range of floating-point numbers.
-/

namespace LineTags

open Binary (IsInfinite overflow)

theorem Json.toWhole_eq_infinite_iff {value : Json} :
    value.toWhole = .error .infinite ↔ ∃ x, value = .float x ∧ IsInfinite x := by
  cases value with
  | float x =>
    simp only [Json.float.injEq, exists_eq_left', IsInfinite]
    rw [Json.toWhole, Decimal.truncate?]
    cases hfinite : Binary.isFinite x with
    | true => simp
    | false =>
      have hnan := Binary.isNaN_iff_fields x
      rw [hfinite, eq_self, true_and] at hnan
      rw [Bool.not_false, if_pos rfl, eq_self, true_and]
      dsimp only
      split
      · next hx => simp [hnan.1 hx]
      · next hx => simp [not_not.1 fun h => hx (hnan.2 h)]
  | string t =>
    apply iff_of_false
    · rw [Json.toWhole]
      split <;> simp
    · simp
  | _ => simp [Json.toWhole]

namespace Settings

variable {d : Disk} {workingFolder : List Text} {path t : Text} {s : Settings}

/-- What is not forgiven in the text of a settings file. -/
inductive Unforgiven (t : Text) : SettingsError → Prop
  | tooManyDigits {count : Nat} (h : Json.ofText t = .error (.tooManyDigits count)) : Unforgiven t (.tooManyDigits count)
  | tooDeep {inObject : Bool} (h : Json.ofText t = .error (.tooDeep inObject)) : Unforgiven t (.tooDeep inObject)
  | infinite {value : Json} (h : Json.ofText t = .ok value) (hinfinite : value.HasInfiniteSetting) : Unforgiven t .infinite

theorem ofText_eq_error_iff {e : SettingsError} : ofText t = .error e ↔ Unforgiven t e := by
  unfold ofText
  constructor
  · intro h
    split at h
    · next value hvalue =>
      obtain ⟨rfl, hinfinite⟩ := ofJson_eq_error_iff.1 h
      exact .infinite hvalue hinfinite
    · cases h
    · next count hmany =>
      obtain rfl := Except.error.inj h
      exact .tooManyDigits hmany
    · next inObject hdeep =>
      obtain rfl := Except.error.inj h
      exact .tooDeep hdeep
  · intro h
    cases h with
    | tooManyDigits h => rw [h]
    | tooDeep h => rw [h]
    | infinite h hinfinite =>
      rw [h]
      exact ofJson_eq_error_iff.2 ⟨rfl, hinfinite⟩

theorem inRange_of_ofText (h : ofText t = .ok s) : s.InRange := by
  unfold ofText at h
  split at h
  · exact inRange_of_ofJson h
  · obtain rfl := Except.ok.inj h
    exact inRange_default
  · cases h
  · cases h

/-- What is wrong with a settings file that stops a program. -/
inductive Stopping (d : Disk) (workingFolder : List Text) (path : Text) : SettingsFileError → Prop
  | defect {e : FileError} (h : d.Defect workingFolder path e) : Stopping d workingFolder path (.unreadable e)
  | unforgiven {t : Text} {e : SettingsError} (hread : d.readText workingFolder path = .ok t) (h : Unforgiven t e) :
    Stopping d workingFolder path (.unusable e)

theorem load_eq_error_iff {e : SettingsFileError} : load d workingFolder path = .error e ↔ Stopping d workingFolder path e := by
  unfold load
  constructor
  · intro h
    split at h
    · next t hread =>
      cases htext : ofText t with
      | ok s =>
        rw [htext] at h
        cases h
      | error e' =>
        rw [htext] at h
        obtain rfl := Except.error.inj h
        exact .unforgiven hread (ofText_eq_error_iff.1 htext)
    · cases h
    · next e' hrefused hread =>
      obtain rfl := Except.error.inj h
      exact .defect (Disk.defect_iff.2 ⟨hread, FileError.not_isRefusal hrefused⟩)
  · intro h
    cases h with
    | defect h =>
      obtain ⟨hread, hrefused⟩ := Disk.defect_iff.1 h
      rw [hread]
      split
      · next heq => cases heq
      · next refusal other heq => exact absurd (Except.error.inj heq ▸ trivial) hrefused
      · next heq => rw [Except.error.inj heq]
    | unforgiven hread h =>
      rw [hread]
      dsimp only
      rw [ofText_eq_error_iff.2 h]
      rfl

theorem inRange_of_load (h : load d workingFolder path = .ok s) : s.InRange := by
  unfold load at h
  split at h
  · next t hread =>
    cases htext : ofText t with
    | error e =>
      rw [htext] at h
      cases h
    | ok s' =>
      rw [htext] at h
      obtain rfl := Except.ok.inj h
      exact inRange_of_ofText htext
  · obtain rfl := Except.ok.inj h
    exact inRange_default
  · cases h

/-- What is no JSON object gives the defaults, if it gives settings at all. -/
theorem eq_default_of_load (h : load d workingFolder path = .ok s)
    (hno : ∀ t fields, d.readText workingFolder path = .ok t → Json.ofText t ≠ .ok (.object fields)) : s = {} := by
  unfold load at h
  split at h
  · next t hread =>
    unfold ofText at h
    split at h
    · next value hvalue =>
      cases value with
      | object fields => exact absurd hvalue (hno t fields hread)
      | _ => exact (Except.ok.inj h).symm
    · exact (Except.ok.inj h).symm
    · cases h
    · cases h
  · exact (Except.ok.inj h).symm
  · cases h

/-- A text is not forgiven for a run of digits, for its opening brackets, or for a number that is infinite. -/
theorem Unforgiven.shows {e : SettingsError} (h : Unforgiven t e) :
    (∃ run, run <:+: t ∧ (∀ c ∈ run, c.isDigit = true) ∧ Text.mostDigits < run.length) ∨
    Json.deepest < t.countP Json.isOpening ∨
    ∃ fields, Json.ofText t = .ok (.object fields) ∧ ∃ name ∈ ["debounce_ms", "max_attempts"], ∃ x,
      fields.lookup name.toList = some (.float x) ∧ IsInfinite x := by
  cases h with
  | tooManyDigits h =>
    obtain ⟨hmany, run, hrun, hlength, hdigits⟩ := Json.shows_of_ofText h
    exact .inl ⟨run, hrun, hdigits, hlength ▸ hmany⟩
  | tooDeep h => exact .inr (.inl (Json.shows_of_ofText h))
  | @infinite value h hinfinite =>
    cases value with
    | object fields =>
      obtain ⟨name, hname, value, hlookup, hwhole⟩ := hinfinite
      obtain ⟨x, rfl, hx⟩ := Json.toWhole_eq_infinite_iff.1 hwhole
      exact .inr (.inr ⟨fields, h, name, hname, x, hlookup, hx⟩)
    | _ => exact hinfinite.elim

/-- Loading settings fails exactly for what stops a program, and whatever it gives is in range and the defaults unless the file holds a JSON object. A text that stops a program has a run of too many digits or too many opening brackets in it, or one of its two numbers is infinite, which a decimal number is exactly if it is beyond the range. -/
theorem load_endings (d : Disk) (workingFolder : List Text) (path : Text) :
    (∀ s, load d workingFolder path = .ok s → s.InRange ∧
      ((∀ t fields, d.readText workingFolder path = .ok t → Json.ofText t ≠ .ok (.object fields)) → s = {})) ∧
    (∀ e, load d workingFolder path = .error e ↔ Stopping d workingFolder path e) ∧
    (∀ t e, Unforgiven t e →
      (∃ run, run <:+: t ∧ (∀ c ∈ run, c.isDigit = true) ∧ Text.mostDigits < run.length) ∨
      Json.deepest < t.countP Json.isOpening ∨
      ∃ fields, Json.ofText t = .ok (.object fields) ∧ ∃ name ∈ ["debounce_ms", "max_attempts"], ∃ x,
        fields.lookup name.toList = some (.float x) ∧ IsInfinite x) ∧
    ∀ negative digits exponent, IsInfinite (Decimal.toFloat negative digits exponent) ↔ overflow ≤ digits * 10 ^ exponent := by
  refine ⟨fun s h => ⟨inRange_of_load h, eq_default_of_load h⟩, fun e => load_eq_error_iff, fun t e h => h.shows, ?_⟩
  exact Decimal.isInfinite_toFloat_iff

/-- A file that is no text and a number beyond the range stop a program. -/
theorem not_load_undecodable :
    let diskOf (bytes : List UInt8) : Disk := ⟨[(["s".toList], .file bytes)]⟩
    (load (diskOf [0xff]) [] "s".toList).isOk = false ∧
      (load (diskOf (Text.toUtf8 "\x7b\"debounce_ms\":1e999\x7d".toList)) [] "s".toList).isOk = false := by
  decide +kernel

end Settings

end LineTags
