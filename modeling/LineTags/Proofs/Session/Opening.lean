import LineTags.CommandLine.Tagging
import LineTags.Proofs.Buffer.Filling
import LineTags.Proofs.Script.Modes
import LineTags.Proofs.Script.Shedding
import LineTags.Proofs.Session.Refusal

/-!
# Opening all files of a project

A file that is opened is taken apart and shown without its tags, and the tracker binds what was taken out. Where every line that had a tag has code without it, each identifier is bound to its line again, so the session says of the file what the script said. Opening the files of a project in turn keeps them apart.
-/

namespace LineTags

open Text Keyed LineBuffer

/-! ## Filling a tracker -/

namespace Tracker

variable {t : Tracker MemoryBuffer}

theorem bind_of_free {line : Int} (hcarry : t.canCarry line = true) (hfree : t.identifierAt? line = none) (identifier : Text) :
    (t.bind line identifier).1 = true := bind_of_isAlive rfl hcarry hfree identifier

/-- The tracker of a file that was just opened. -/
def opened (file content : Text) : Tracker MemoryBuffer :=
  ({ buffer := LineBuffer.fresh, file } : Tracker MemoryBuffer).load file (extract content)

/-- The tracker before the first identifier is bound. -/
def blank (file clean : Text) : Tracker MemoryBuffer :=
  { buffer := LineBuffer.clearAnchors (LineBuffer.setText clean (LineBuffer.fresh : MemoryBuffer)), file }

theorem opened_eq (file content : Text) :
    opened file content = (blank file (extract content).clean).bindAll (extract content).ids := rfl

theorem text_opened (file content : Text) : (opened file content).text = (extract content).clean := text_load _ _ _

/-- The tracker shows the identifiers of those lines that have code without their tag. -/
theorem mem_associations_opened (file content : Text) {x : LineId} :
    x ∈ (opened file content).associations ↔
      x ∈ (extract content).ids ∧ (opened file content).canCarry x.line = true :=
  mem_associations_load rfl file (nodup_line_ids_extract content)

theorem anchorsOf_opened_le (file content identifier : Text) :
    (opened file content).anchorsOf identifier ≤ (extract content).ids.countP fun a => a.identifier = identifier := by
  have hle := (blank file (extract content).clean).anchorsOf_bindAll_le (extract content).ids identifier
  have hblank : (blank file (extract content).clean).anchorsOf identifier = 0 := rfl
  rw [opened_eq]
  omega

end Tracker

theorem ShedsTags.mem_associations_opened {content : Text} (h : ShedsTags content) (file : Text) {x : LineId} :
    x ∈ (Tracker.opened file content).associations ↔ x ∈ (extract content).ids := by
  rw [Tracker.mem_associations_opened]
  refine and_iff_left_of_imp fun hx => Tracker.canCarry_iff.2 ?_
  rw [LineBuffer.line?, show LineBuffer.text (Tracker.opened file content).buffer = (extract content).clean
    from Tracker.text_opened file content]
  exact h.coded x hx

/-! ## Opening one file after the other -/

namespace Session

variable {s s' : Session MemoryBuffer}

theorem applyStaged_of_nil {β : Type} [LineBuffer β] {s : Session β} (h : s.staged = []) (file : Text) : s.applyStaged file = s := by
  obtain ⟨files, documents, active, staged, mode⟩ := s
  obtain rfl : staged = [] := h
  rfl

/-- A file that is not open yet is put behind those that are. -/
theorem openDocument_eq_ok {file content : Text} (hstaged : s.staged = []) (hclosed : file ∉ names s.documents)
    (hcontent : s.files.lookup file = some content) (h : s.openDocument file none none = (.ok (), s')) :
    s' = { s with
      documents := s.documents ++ [(file, Tracker.opened file (s.mode.prepareScript content))]
      active := s.active.or (some file) } := by
  have hdoc : s.document? file = none := by
    rw [document?, ← Option.not_isSome_iff_eq_none, lookup_isSome_iff]
    exact hclosed
  have htracker : s.trackerFor file none = { buffer := LineBuffer.fresh, file } := by
    unfold trackerFor
    rw [hdoc]
  have hstored : (none : Option Text).getD (s.stored file) = content := by
    show s.stored file = content
    rw [stored, hcontent, Option.getD_some]
  unfold openDocument at h
  dsimp only at h
  rw [hstored, htracker, put_of_lookup hcontent] at h
  obtain ⟨files, documents, active, staged, mode⟩ := s
  obtain rfl : staged = [] := hstaged
  split at h
  · cases h
  · next extraction hextraction =>
    obtain rfl := ofScript_eq hextraction
    rw [← (Prod.mk.inj h).2, applyStaged_of_nil rfl]
    unfold putDocument
    dsimp only
    rw [put_put, put_of_not_mem hclosed]
    rfl

/-- What a session is after files were opened that were not open before, in their order. -/
theorem openAll_eq_ok {contentOf : Text → Text} {order : List Text} (hstaged : s.staged = [])
    (hcontent : ∀ file ∈ order, s.files.lookup file = some (contentOf file)) (hnodup : (names s.documents ++ order).Nodup)
    (h : Tagging.openAll order s = .ok s') :
    s'.files = s.files ∧ s'.staged = [] ∧
      s'.documents = s.documents ++
        order.map fun file => (file, Tracker.opened file (s.mode.prepareScript (contentOf file))) := by
  induction order generalizing s with
  | nil =>
    rw [← Except.ok.inj h]
    exact ⟨rfl, hstaged, (List.append_nil _).symm⟩
  | cons file order ih =>
    rw [Tagging.openAll] at h
    split at h
    · next s₁ hopened =>
      have hclosed : file ∉ names s.documents := by
        rw [List.nodup_append] at hnodup
        exact fun hmem => hnodup.2.2 file hmem file List.mem_cons_self rfl
      have hs₁ := openDocument_eq_ok hstaged hclosed (hcontent file List.mem_cons_self) hopened
      have hfiles₁ : s₁.files = s.files := by rw [hs₁]
      have hmode₁ : s₁.mode = s.mode := by rw [hs₁]
      have hdocuments₁ : s₁.documents =
          s.documents ++ [(file, Tracker.opened file (s.mode.prepareScript (contentOf file)))] := by rw [hs₁]
      have hnames : names s₁.documents ++ order = names s.documents ++ file :: order := by
        rw [hdocuments₁]
        simp [names]
      obtain ⟨hfiles, hstaged', hdocuments⟩ := ih (by rw [hs₁]; exact hstaged)
        (fun other hother => hfiles₁ ▸ hcontent other (List.mem_cons_of_mem _ hother)) (hnames ▸ hnodup) h
      refine ⟨hfiles.trans hfiles₁, hstaged', ?_⟩
      rw [hdocuments, hdocuments₁, hmode₁, List.append_assoc]
      rfl
    · cases h

theorem reachable_openAll {order : List Text} (hs : s.Reachable) (h : Tagging.openAll order s = .ok s') : s'.Reachable := by
  induction order generalizing s with
  | nil =>
    rw [← Except.ok.inj h]
    exact hs
  | cons file order ih =>
    rw [Tagging.openAll] at h
    have hopened : (s.openDocument file none none).2.Reachable :=
      hs.openDocument file none none fun _ h => absurd h (Option.not_mem_none _)
    split at h
    · next s₁ heq =>
      rw [heq] at hopened
      exact ih hopened h
    · cases h

end Session

end LineTags
