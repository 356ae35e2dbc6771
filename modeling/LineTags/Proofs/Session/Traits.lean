import LineTags.Proofs.Buffer.Anchoring
import LineTags.Proofs.Sync.Run

/-!
# What a session leaves to the users of its buffers

A session asks no more of its buffers than its trackers do, unless it opens a file. So a trait of buffers that anchors are no part of is the same after everything a session does with files that stay open.
-/

namespace LineTags

open LineBuffer

variable {β γ : Type} [LineBuffer β] {g : β → γ} (hg : Unanchored g)

include hg

namespace Session

omit [LineBuffer β] hg in
/-- The trait of the buffer of an open file. -/
def trait? (g : β → γ) (s : Session β) (file : Text) : Option γ := (s.document? file).map fun t => g t.buffer

variable {s : Session β} {file : Text}

omit [LineBuffer β] hg in
theorem trait?_putDocument {t t' : Tracker β} (hdoc : s.document? file = some t) (htrait : g t'.buffer = g t.buffer)
    (other : Text) : (s.putDocument file t').trait? g other = s.trait? g other := by
  rw [trait?, document?_putDocument]
  split
  · next heq => rw [heq, trait?, hdoc, Option.map_some, Option.map_some, htrait]
  · rfl

theorem trait?_tidy (s : Session β) (file : Text) : s.tidy.trait? g file = s.trait? g file := by
  rw [trait?, document?_tidy, Option.map_map]
  exact congrArg (fun f => (s.document? file).map f) (funext fun t => Tracker.trait_tidy hg t)

theorem trait?_applyEdit (s : Session β) (file : Text) (e : IdEdit) (expected other : Text) :
    (s.applyEdit file e expected).2.trait? g other = s.trait? g other := by
  obtain h | ⟨t, hdoc, h⟩ | ⟨t, hdoc, -, -, h⟩ := applyEdit_cases s file e expected
  · rw [h]
  · rw [h]
    exact trait?_putDocument hdoc (Tracker.trait_tidy hg t) other
  · rw [h]
    exact trait?_putDocument hdoc ((Tracker.trait_bind hg t.tidy _ _).trans (Tracker.trait_tidy hg t)) other

theorem trait?_applyStaged (s : Session β) (file other : Text) : (s.applyStaged file).trait? g other = s.trait? g other :=
  applyStaged_induction (P := fun r => r.trait? g other = s.trait? g other) file rfl fun r w _ hr =>
    (trait?_applyEdit hg r file w.edit w.lineText other).trans hr

theorem trait?_deliver (run : Run) (e : IdEdit) (s : Session β) (file : Text) :
    (TagDriver.deliver run e s).2.trait? g file = s.trait? g file := by
  obtain h | ⟨expected, -, -, h⟩ | ⟨expected, -, h⟩ := TagDriver.deliver_cases run e s
  · rw [h]
  · rw [h]
    exact trait?_applyEdit hg s run.file e expected file
  · rw [h, trait?, document?, documents_stage]
    rfl

theorem trait?_deliverAll (run : Run) (es : List IdEdit) (s : Session β) (file : Text) :
    (TagDriver.deliverAll run es s).2.trait? g file = s.trait? g file := by
  induction es generalizing s with
  | nil => rfl
  | cons e es ih => exact (ih _).trans (trait?_deliver hg run e s file)

end Session

end LineTags
