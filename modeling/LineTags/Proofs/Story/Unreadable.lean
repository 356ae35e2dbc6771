import LineTags.Proofs.Story.Closure

/-!
# Includes that cannot be read

There are two ways for a text to have no story. Either a line of it, or of a file that it leads to, breaks a rule; or the reader comes to an include that the library has and cannot read. It comes there from the root, and each file on the way is included by the one before.
-/

namespace LineTags

open Text LineForm StoryReader

/-- The files that a reader can come to from the root, with the texts that it reads of them. -/
inductive Consulted (library : Library) (root r : Text) : Text → Text → Prop
  | root : Consulted library root r root r
  | included {g v name u : Text} (hg : Consulted library root r g v) (hname : name ∈ inclusionsOf g v)
    (hfind : library.find? name = some (.ok u)) : Consulted library root r name u

/-- A file that a reader can come to includes one that the library cannot read. -/
def LeadsToError (library : Library) (root r : Text) (e : FileError) : Prop :=
  ∃ g v name, Consulted library root r g v ∧ name ∈ inclusionsOf g v ∧ library.find? name = some (.error e)

variable {library : Library} {root r : Text} {e : FileError}

namespace StoryReader

theorem readBranch_ne_unreadable (page : Page) (file : Text) (line : Nat) (role : Role) (state : BracketState) (body : Text) :
    readBranch page file line role state body ≠ .error (.unreadable e) := by
  unfold readBranch
  dsimp only
  split
  · exact fun h => nomatch h
  · exact fun h => nomatch Except.error.inj h
  · exact fun h => nomatch Except.error.inj h

variable {readFile : Text → Text → Progress → Outcome (List Node × Progress)} {file t : Text} {form : LineForm} {line : Nat}
  {page : Page} {progress : Progress}

theorem readLine_narrative_ne_unreadable {role : Role} {state : BracketState} {body : Text}
    (hform : form.narrative? = some (role, state, body)) :
    readLine library readFile file line form page progress ≠ .error (.unreadable e) := by
  intro h
  rw [readLine_narrative hform] at h
  cases hbranch : readBranch page file line role state body with
  | ok page =>
    rw [hbranch] at h
    cases h
  | error failure =>
    rw [hbranch] at h
    obtain rfl := Except.error.inj h
    exact readBranch_ne_unreadable page file line role state body hbranch

theorem readLine_inclusion_unreadable {written : Text}
    (h : readLine library readFile file line (.inclusion written) page progress = .error (.unreadable e)) :
    library.find? (Path.included file written) = some (.error e) ∨
      ∃ u, library.find? (Path.included file written) = some (.ok u) ∧
        readFile (Path.included file written) u progress = .error (.unreadable e) := by
  rw [readLine_inclusion] at h
  split at h
  · cases h
  cases hfind : library.find? (Path.included file written) with
  | none =>
    rw [hfind] at h
    cases Except.error.inj h
  | some found =>
    rw [hfind] at h
    cases found with
    | error e' =>
      obtain rfl := ParseFailure.unreadable.inj (Except.error.inj h)
      exact .inl rfl
    | ok u =>
      dsimp only at h
      cases hinner : readFile (Path.included file written) u progress with
      | ok found =>
        rw [hinner] at h
        cases h
      | error failure =>
        rw [hinner] at h
        obtain rfl := Except.error.inj h
        exact .inr ⟨u, rfl, hinner⟩

/-- Of all lines only an include can be one that is not read. -/
theorem exists_of_readLine_unreadable (h : readLine library readFile file line form page progress = .error (.unreadable e)) :
    ∃ written, form = .inclusion written := by
  cases form with
  | divert body | choice body | gather body | narrative body => exact absurd h (readLine_narrative_ne_unreadable rfl)
  | empty | logic name value => cases h
  | brokenDeclaration => cases Except.error.inj h
  | knotHeader name? =>
    unfold readLine at h
    cases name? with
    | none => cases Except.error.inj h
    | some name =>
      dsimp only at h
      split at h
      · cases Except.error.inj h
      · cases h
  | stitchHeader name? =>
    unfold readLine at h
    dsimp only at h
    split at h
    · cases Except.error.inj h
    · cases Except.error.inj h
    · split at h
      · cases Except.error.inj h
      · cases h
  | inclusion written => exact ⟨written, rfl⟩

theorem leadsToError_readLines {ls : List Text}
    (h : readLines library readFile file line ls page progress = .error (.unreadable e)) (hrest : Rest t line ls)
    (hfile : Consulted library root r file t)
    (hread : ∀ name u before, readFile name u before = .error (.unreadable e) → Consulted library root r name u →
      LeadsToError library root r e) : LeadsToError library root r e := by
  induction ls generalizing line page progress with
  | nil => cases h
  | cons l ls ih =>
    rw [readLines] at h
    cases hline : readLine library readFile file line (.ofCode (strip (codeOf l))) page progress with
    | ok found =>
      rw [hline] at h
      exact ih h hrest.tail
    | error failure =>
      rw [hline] at h
      obtain rfl := Except.error.inj h
      obtain ⟨written, hform⟩ := exists_of_readLine_unreadable hline
      have hname := hrest.included file l List.mem_cons_self written hform
      rw [hform] at hline
      rcases readLine_inclusion_unreadable hline with hfind | ⟨u, hfind, hinner⟩
      · exact ⟨file, t, _, hfile, hname, hfind⟩
      · exact hread _ u _ hinner (.included hfile hname hfind)

theorem leadsToError_readFile {depth : Nat} (h : StoryReader.readFile library depth file t progress = .error (.unreadable e))
    (hfile : Consulted library root r file t) : LeadsToError library root r e := by
  induction depth generalizing file t progress with
  | zero => cases h
  | succ depth ih =>
    rw [StoryReader.readFile] at h
    dsimp only at h
    cases hlines : readLines library (StoryReader.readFile library depth) file 1 (lines (dropMarks t)) {}
        { progress with fileNames := progress.fileNames ++ [file] } with
    | ok found =>
      rw [hlines] at h
      cases h
    | error failure =>
      rw [hlines] at h
      obtain rfl := Except.error.inj h
      exact leadsToError_readLines hlines (.all t) hfile fun _ _ _ => ih

end StoryReader

/-- A story fails to be read as text only for a file that the library fails to read, and the root leads there. -/
theorem leadsToError_of_parse (h : Story.parse library root r = .error (.unreadable e)) : LeadsToError library root r e := by
  unfold Story.parse at h
  cases hread : StoryReader.readFile library library.depth root r ⟨[], []⟩ with
  | ok found =>
    rw [hread] at h
    cases h
  | error failure =>
    rw [hread] at h
    obtain rfl := Except.error.inj h
    exact StoryReader.leadsToError_readFile hread .root

/-- A library without a disk. -/
theorem Library.find?_ne_error (files : List (Text × Text)) (name : Text) (e : FileError) :
    Library.find? { files } name ≠ some (.error e) := by
  unfold Library.find?
  split
  · exact fun h => nomatch Option.some.inj h
  · exact fun h => nomatch h

/-- Only a file on a disk can be one that cannot be read. -/
theorem parse_ne_unreadable (files : List (Text × Text)) (file t : Text) (e : FileError) :
    Story.parse { files } file t ≠ .error (.unreadable e) := by
  intro h
  obtain ⟨-, -, name, -, -, hname⟩ := leadsToError_of_parse h
  exact Library.find?_ne_error files name e hname

end LineTags
