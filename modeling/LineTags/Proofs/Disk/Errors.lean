import LineTags.Disk.Folders

/-!
# Why a file cannot be read or written

Most of the time it is the disk that refuses a path: nothing is there, or a folder is, or a name is too long. Programs are prepared for that. Two things are no refusals: a path with a null character in it, which the disk is never asked for, and a file that is there but whose bytes are no text.
-/

namespace LineTags

def FileError.IsRefusal : FileError → Prop
  | .refused _ _ => True
  | _ => False

theorem FileError.not_isRefusal {e : FileError} (h : ∀ refusal path, e ≠ .refused refusal path) : ¬e.IsRefusal := by
  cases e with
  | refused refusal path => exact absurd rfl (h refusal path)
  | _ => exact not_false

namespace Disk

variable {d d' : Disk} {workingFolder : List Text} {path : Text} {e : FileError}

/-! ## Reading -/

theorem locate_of_null (hnull : '\x00' ∈ path) : d.locate workingFolder path = .error .nullInName := by
  unfold locate
  have hempty : path.isEmpty = false := by
    cases path with
    | nil => cases hnull
    | cons c r => rfl
  rw [hempty, if_neg Bool.false_ne_true, if_pos hnull]

theorem locate_eq_error (h : d.locate workingFolder path = .error e) :
    e.IsRefusal ∨ (e = .nullInName ∧ '\x00' ∈ path) := by
  unfold locate at h
  split at h
  · obtain rfl := Except.error.inj h
    exact .inl trivial
  · split at h
    · next hnull => exact .inr ⟨(Except.error.inj h).symm, hnull⟩
    · dsimp only at h
      generalize d.walk _ (Text.split '/' path) = walked at h
      cases walked with
      | error refusal =>
        obtain rfl := Except.error.inj h
        exact .inl trivial
      | ok r => cases h

theorem readBytes_eq_error (h : d.readBytes workingFolder path = .error e) :
    e.IsRefusal ∨ (e = .nullInName ∧ '\x00' ∈ path) := by
  unfold readBytes at h
  cases hlocate : d.locate workingFolder path with
  | error e' =>
    rw [hlocate] at h
    obtain rfl := Except.error.inj h
    exact locate_eq_error hlocate
  | ok r =>
    rw [hlocate] at h
    dsimp only [bind, Except.bind] at h
    split at h
    · obtain rfl := Except.error.inj h
      exact .inl trivial
    · obtain rfl := Except.error.inj h
      exact .inl trivial
    · split at h
      · obtain rfl := Except.error.inj h
        exact .inl trivial
      · cases h

/-- What is wrong with a path, or with the file at it, that is not for the disk to refuse. -/
inductive Defect (d : Disk) (workingFolder : List Text) (path : Text) : FileError → Prop
  | nullInName (hnull : '\x00' ∈ path) : Defect d workingFolder path .nullInName
  | undecodable {bytes : List UInt8} {fault : Utf8Fault} (hbytes : d.readBytes workingFolder path = .ok bytes)
      (hfault : Text.ofUtf8 bytes = .error fault) : Defect d workingFolder path (.undecodable fault)

theorem readText_of_error (h : d.readBytes workingFolder path = .error e) : d.readText workingFolder path = .error e := by
  rw [readText, h]
  rfl

theorem readText_of_bytes {bytes : List UInt8} (h : d.readBytes workingFolder path = .ok bytes) :
    d.readText workingFolder path = (Text.ofUtf8 bytes).mapError .undecodable := by
  rw [readText, h]
  rfl

/-- Bytes that can be read are no text only for a fault in them. -/
theorem exists_fault_of_bytes {bytes : List UInt8} (hbytes : d.readBytes workingFolder path = .ok bytes)
    (h : d.readText workingFolder path = .error e) : ∃ fault, e = .undecodable fault ∧ Text.ofUtf8 bytes = .error fault := by
  rw [readText_of_bytes hbytes] at h
  cases htext : Text.ofUtf8 bytes with
  | ok t =>
    rw [htext] at h
    cases h
  | error fault =>
    rw [htext] at h
    exact ⟨fault, (Except.error.inj h).symm, rfl⟩

/-- A text that cannot be read is refused, or something is wrong with it. -/
theorem defect_iff : d.Defect workingFolder path e ↔ d.readText workingFolder path = .error e ∧ ¬e.IsRefusal := by
  constructor
  · intro h
    cases h with
    | nullInName hnull =>
      have hbytes : d.readBytes workingFolder path = .error .nullInName := by
        rw [readBytes, locate_of_null hnull]
        rfl
      exact ⟨readText_of_error hbytes, not_false⟩
    | undecodable hbytes hfault =>
      rw [readText_of_bytes hbytes, hfault]
      exact ⟨rfl, not_false⟩
  · rintro ⟨hread, hrefused⟩
    cases hbytes : d.readBytes workingFolder path with
    | error e' =>
      rw [readText_of_error hbytes] at hread
      obtain rfl := Except.error.inj hread
      rcases readBytes_eq_error hbytes with hrefusal | ⟨rfl, hnull⟩
      · exact absurd hrefusal hrefused
      · exact .nullInName hnull
    | ok bytes =>
      obtain ⟨fault, rfl, hfault⟩ := exists_fault_of_bytes hbytes hread
      exact .undecodable hbytes hfault

end Disk

end LineTags
