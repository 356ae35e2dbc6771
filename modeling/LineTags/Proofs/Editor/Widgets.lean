import LineTags.Buffer.Widget
import LineTags.Proofs.Session.Gains
import LineTags.Proofs.Session.Traits
import LineTags.Proofs.Sync.Reservation

/-!
# Sessions of widgets

A user looks at a text or changes it, and a change raises an event. Whatever is done by trackers raises none. So in a session of widgets a text differs from what it was when its events were delivered only if it says that it was modified, and then there is an event to deliver. Sessions in which identifiers were added and nothing was typed are `Enriched`; those in which none was added either are `Alike`.
-/

namespace LineTags

open LineBuffer

namespace Widget

variable {w w' w'' : Widget}

/-- Whether the text was modified, the events to deliver, and whether the widget can be used. -/
def flags (w : Widget) : Bool × Nat × Bool := (w.modified, w.pendingEvents, w.alive)

theorem unanchored_flags : Unanchored flags where
  release _ _ := rfl
  create h := by
    obtain ⟨-, -, rfl⟩ := createAnchor_eq_ok h
    rfl

/-- A widget that can be used, and that has an event to deliver if its text was modified. -/
structure Announcing (w : Widget) : Prop where
  alive : w.alive = true
  event : w.modified = true → 0 < w.pendingEvents

theorem Announcing.of_flags_eq (hw : w.Announcing) (h : w'.flags = w.flags) : w'.Announcing := by
  obtain ⟨hmodified, hrest⟩ := Prod.mk.inj h
  obtain ⟨hevents, halive⟩ := Prod.mk.inj hrest
  exact ⟨halive.trans hw.alive, fun hw' => hevents ▸ hw.event (hmodified ▸ hw')⟩

/-- What becomes of a widget in the hands of a user: the cursor and the selection move, or the text is modified. -/
inductive Handled (w : Widget) : Widget → Prop
  | looked (cursor : Mark) (selection : Option (Mark × Mark)) : Handled w { w with cursor, selection }
  | changed {w' : Widget} (hmodified : w'.modified = true) (hannouncing : w'.Announcing) (hhandles : w'.handles = w.handles) :
    Handled w w'

theorem Handled.refl (w : Widget) : w.Handled w := .looked w.cursor w.selection

theorem Handled.trans (h : w.Handled w') (h' : w'.Handled w'') : w.Handled w'' := by
  cases h' with
  | looked cursor selection =>
    cases h with
    | looked cursor' selection' => exact .looked cursor selection
    | changed hmodified hannouncing hhandles => exact .changed hmodified (hannouncing.of_flags_eq rfl) hhandles
  | changed hmodified hannouncing hhandles =>
    refine .changed hmodified hannouncing (hhandles.trans ?_)
    cases h with
    | looked cursor selection => rfl
    | changed _ _ hhandles => exact hhandles

theorem Handled.announcing (h : w.Handled w') (hw : w.Announcing) : w'.Announcing := by
  cases h with
  | looked cursor selection => exact hw.of_flags_eq rfl
  | changed _ hannouncing _ => exact hannouncing

theorem Handled.handles (h : w.Handled w') : w'.handles = w.handles := by
  cases h with
  | looked cursor selection => rfl
  | changed _ _ hhandles => exact hhandles

/-- A change of the text is announced. -/
theorem handled_of_setModified (hw : w.Announcing) (hflags : w'.flags = w.flags) (hhandles : w'.handles = w.handles) :
    w.Handled (w'.setModified true) := by
  have hw' : w'.Announcing := hw.of_flags_eq hflags
  by_cases hmodified : w'.modified = true
  · have hsame : w'.setModified true = w' := if_pos hmodified
    rw [hsame]
    exact .changed hmodified hw' hhandles
  · have hraised : w'.setModified true = { w' with modified := true, pendingEvents := w'.pendingEvents + 1 } := if_neg hmodified
    rw [hraised]
    exact .changed rfl ⟨hw'.alive, fun _ => Nat.succ_pos _⟩ hhandles

theorem handled_insertAt (hw : w.Announcing) (pos : Nat) (t : Text) : w.Handled (w.insertAt pos t) := by
  unfold insertAt
  split
  · exact .refl w
  · exact handled_of_setModified hw rfl (handles_moveMarks _ _)

theorem handled_deleteBetween (hw : w.Announcing) (start stop : Nat) : w.Handled (w.deleteBetween start stop) := by
  unfold deleteBetween
  split
  · exact .refl w
  · exact handled_of_setModified hw rfl (handles_moveMarks _ _)

theorem handled_type (hw : w.Announcing) (t : Text) : w.Handled (w.type t) := handled_insertAt hw w.cursor.offset t

theorem handled_setCursor (w : Widget) (line column : Int) : w.Handled (w.setCursor line column) := .looked _ w.selection

theorem handled_select (w : Widget) (startLine startColumn endLine endColumn : Int) :
    w.Handled (w.select startLine startColumn endLine endColumn) := .looked w.cursor _

theorem handled_deleteSelection (hw : w.Announcing) : w.Handled w.deleteSelection := by
  unfold deleteSelection
  split
  · exact handled_deleteBetween hw _ _
  · exact .refl w

theorem announcing_setText (hw : w.Announcing) (t : Text) : (w.setText t).Announcing := by
  have hdeleted := (handled_deleteBetween hw 0 w.content.length).announcing hw
  exact (handled_insertAt hdeleted 0 t).announcing hdeleted

end Widget

namespace Session

open Keyed

variable {s s' s'' : Session Widget} {listed : List Text} {file : Text}

/-! ## Sessions that only got identifiers -/

/-- Identifiers were added, and nothing was typed. -/
structure Enriched (s s' : Session Widget) : Prop where
  sound : s'.Sound
  grown : s.Extends s'
  flags : ∀ file, s'.trait? Widget.flags file = s.trait? Widget.flags file

/-- Not even identifiers were added. -/
structure Alike (s s' : Session Widget) : Prop extends Enriched s s' where
  ids : ∀ file, ∀ x ∈ s'.idsOf file, x ∈ s.idsOf file

theorem Enriched.trans (h : Enriched s s') (h' : Enriched s' s'') : Enriched s s'' where
  sound := h'.sound
  grown := h.grown.trans h'.grown
  flags file := (h'.flags file).trans (h.flags file)

theorem Alike.refl (hs : s.Sound) : Alike s s where
  sound := hs
  grown := .refl s
  flags _ := rfl
  ids _ _ h := h

theorem Alike.trans (h : Alike s s') (h' : Alike s' s'') : Alike s s'' where
  toEnriched := h.toEnriched.trans h'.toEnriched
  ids file x hx := h.ids file x (h'.ids file x hx)

theorem alike_tidy (hs : s.Sound) : Alike s s.tidy where
  sound := sound_tidy hs
  grown := extends_tidy hs
  flags file := trait?_tidy Widget.unanchored_flags s file
  ids file x hx := (mem_idsOf_tidy hs file x).1 hx

/-- Tidying one file shows in no document what tidying all does not. -/
theorem document?_tidyFile_cases (s : Session Widget) (file other : Text) :
    (s.tidyFile file).document? other = s.document? other ∨ (s.tidyFile file).document? other = s.tidy.document? other := by
  rw [document?_tidyFile, document?_tidy]
  split
  · exact .inr rfl
  · exact .inl rfl

theorem trait?_tidyFile {γ : Type} {g : Widget → γ} (hg : Unanchored g) (s : Session Widget) (file other : Text) :
    (s.tidyFile file).trait? g other = s.trait? g other := by
  obtain hdoc | hdoc := document?_tidyFile_cases s file other
  · rw [trait?, hdoc, trait?]
  · rw [trait?, hdoc]
    exact trait?_tidy hg s other

theorem alike_tidyFile (hs : s.Sound) (file : Text) : Alike s (s.tidyFile file) := by
  have htidy := alike_tidy hs
  refine ⟨⟨sound_tidyFile hs file, ⟨rfl, names_tidyFile s file, fun other => ?_, fun other x hx => ?_⟩,
    trait?_tidyFile Widget.unanchored_flags s file⟩, fun other x hx => ?_⟩
  all_goals obtain hdoc | hdoc := document?_tidyFile_cases s file other
  · rw [hdoc]
  · rw [hdoc]
    exact htidy.grown.text other
  · rw [idsOf, hdoc]
    exact hx
  · rw [idsOf, hdoc]
    exact htidy.grown.ids other x hx
  · rw [idsOf, hdoc] at hx
    exact hx
  · rw [idsOf, hdoc] at hx
    exact htidy.ids other x hx

theorem alike_locateIn (identifier : Text) (files : List Text) (hs : s.Sound) : Alike s (locateIn identifier files s).2 := by
  induction files generalizing s with
  | nil => exact .refl hs
  | cons file files ih =>
    have htidied := alike_tidyFile hs file
    unfold locateIn
    split
    · exact htidied
    · exact htidied.trans (ih htidied.sound)

theorem enriched_applyStaged (hs : s.Sound) (file : Text) : Enriched s (s.applyStaged file) where
  sound := sound_applyStaged hs file
  grown := extends_applyStaged hs file
  flags other := trait?_applyStaged Widget.unanchored_flags s file other

theorem enriched_setActive (hs : s.Sound) (hopen : s.isOpen file = true) : Enriched s (s.setActive file).2 := by
  have hactive : Enriched s { s with active := some file } := ⟨hs, .of_eq rfl rfl, fun _ => rfl⟩
  rw [setActive_of_isOpen hopen]
  exact hactive.trans (enriched_applyStaged (s := { s with active := some file }) hs file)

theorem enriched_deliverAll (hs : s.Sound) (run : Run) (es : List IdEdit) : Enriched s (TagDriver.deliverAll run es s).2 where
  sound := TagDriver.sound_deliverAll hs run es
  grown := TagDriver.extends_deliverAll hs run es
  flags file := trait?_deliverAll Widget.unanchored_flags run es s file

theorem alike_deliverAll (hs : s.Sound) (run : Run) {es : List IdEdit} (hnone : (TagDriver.deliverAll run es s).1 = []) :
    Alike s (TagDriver.deliverAll run es s).2 where
  toEnriched := enriched_deliverAll hs run es
  ids file x hx := by
    rcases (TagDriver.mem_idsOf_deliverAll hs run es file x).1 hx with hx | ⟨-, e, he, -⟩
    · exact hx
    · rw [hnone] at he
      cases he

/-- A document whose widget keeps its text and its anchors says the same. -/
theorem sameIds_putDocument {t : Tracker Widget} (hdoc : s.document? file = some t) (cursor : Mark)
    (selection : Option (Mark × Mark)) (modified : Bool) (pendingEvents : Nat) :
    let s' := s.putDocument file { t with buffer := { t.buffer with cursor, selection, modified, pendingEvents } }
    s.Extends s' ∧ ∀ other, ∀ x ∈ s'.idsOf other, x ∈ s.idsOf other := by
  intro s'
  have hids : ∀ other, s'.idsOf other = s.idsOf other := by
    intro other
    rw [idsOf_putDocument]
    split
    · next heq =>
      rw [heq, idsOf_of_document? hdoc]
      rfl
    · rfl
  exact ⟨.of_steady (steady_putDocument hdoc rfl) (names_putDocument hdoc _) fun other x hx => hids other ▸ hx,
    fun other x hx => hids other ▸ hx⟩

/-- Looking at a text adds nothing. -/
theorem alike_looked (hs : s.Sound) {t : Tracker Widget} (hdoc : s.document? file = some t) (cursor : Mark)
    (selection : Option (Mark × Mark)) :
    Alike s (s.putDocument file { t with buffer := { t.buffer with cursor, selection } }) where
  sound := sound_putDocument hs file ⟨(hs.of_document? hdoc).buffer, (hs.of_document? hdoc).nodup, (hs.of_document? hdoc).below⟩
  grown := (sameIds_putDocument hdoc cursor selection t.buffer.modified t.buffer.pendingEvents).1
  flags := trait?_putDocument hdoc rfl
  ids := (sameIds_putDocument hdoc cursor selection t.buffer.modified t.buffer.pendingEvents).2

/-! ## Proper sessions -/

/-- What holds of the session of an editor, whose list names only open files. -/
structure Proper (s : Session Widget) (listed : List Text) : Prop where
  sound : s.Sound
  wellNamed : s.WellNamed
  distinct : (names s.files).Nodup
  announcing : ∀ file t, s.document? file = some t → t.buffer.Announcing
  opened : ∀ file ∈ listed, s.isOpen file = true

/-- No text was modified since its events were delivered. -/
def Delivered (s : Session Widget) : Prop := ∀ file t, s.document? file = some t → t.buffer.modified = false

theorem delivered_of_documents (h : ∀ d ∈ s.documents, d.2.buffer.modified = false) : s.Delivered := fun file t hdoc =>
  h (file, t) (Keyed.mem_of_lookup hdoc)

theorem exists_document?_of_flags_eq (h : s'.trait? Widget.flags file = s.trait? Widget.flags file) {t' : Tracker Widget}
    (hdoc' : s'.document? file = some t') : ∃ t, s.document? file = some t ∧ t'.buffer.flags = t.buffer.flags := by
  rw [trait?, hdoc', Option.map_some, eq_comm, trait?, Option.map_eq_some_iff] at h
  obtain ⟨t, hdoc, hflags⟩ := h
  exact ⟨t, hdoc, hflags.symm⟩

theorem delivered_of_flags_eq (h : ∀ file, s'.trait? Widget.flags file = s.trait? Widget.flags file) (hs : s.Delivered) :
    s'.Delivered := by
  intro file t' hdoc'
  obtain ⟨t, hdoc, hflags⟩ := exists_document?_of_flags_eq (h file) hdoc'
  exact (Prod.mk.inj hflags).1.trans (hs file t hdoc)

theorem Enriched.delivered_iff (h : Enriched s s') : s'.Delivered ↔ s.Delivered :=
  ⟨delivered_of_flags_eq fun file => (h.flags file).symm, delivered_of_flags_eq h.flags⟩

namespace Proper

variable (hp : s.Proper listed)

theorem of_eq (hp : s.Proper listed) (hdocuments : s'.documents = s.documents) (hfiles : s'.files = s.files) :
    s'.Proper listed where
  sound := hp.sound.of_documents_eq hdocuments
  wellNamed := hp.wellNamed.of_names_eq (by rw [hdocuments]) fun _ h => hfiles ▸ h
  distinct := hfiles ▸ hp.distinct
  announcing file t hdoc := hp.announcing file t (by rwa [document?, hdocuments] at hdoc)
  opened file hfile := by
    rw [isOpen, document?, hdocuments]
    exact hp.opened file hfile

include hp

theorem alive? (hopen : s.isOpen file = true) : s.alive? file = some true := by
  obtain ⟨t, hdoc⟩ := Option.isSome_iff_exists.1 hopen
  rw [alive?_of_document? hdoc]
  exact congrArg some (hp.announcing file t hdoc).alive

theorem enriched (h : Enriched s s') : s'.Proper listed where
  sound := h.sound
  wellNamed := h.grown.wellNamed hp.wellNamed
  distinct := h.grown.files ▸ hp.distinct
  announcing file t' hdoc' := by
    obtain ⟨t, hdoc, hflags⟩ := exists_document?_of_flags_eq (h.flags file) hdoc'
    exact (hp.announcing file t hdoc).of_flags_eq hflags
  opened file hfile := (h.grown.isOpen file).trans (hp.opened file hfile)

/-- A document is put, and a content for its file. -/
theorem put {t : Tracker Widget} (ht : t.Sound) (hannouncing : t.buffer.Announcing) (file content : Text) :
    ({ s.putDocument file t with files := Keyed.put file content s.files } : Session Widget).Proper (file :: listed) where
  sound := sound_putDocument hp.sound file ht
  wellNamed := hp.wellNamed.put file t content
  distinct := nodup_names_put hp.distinct
  announcing other t' hdoc := by
    have hdoc : (s.putDocument file t).document? other = some t' := hdoc
    rw [document?_putDocument] at hdoc
    split at hdoc
    · obtain rfl := Option.some.inj hdoc
      exact hannouncing
    · exact hp.announcing other t' hdoc
  opened other hother := by
    show ((s.putDocument file t).document? other).isSome = true
    rw [document?_putDocument]
    split
    · rfl
    · next hne => exact hp.opened other ((List.mem_cons.1 hother).resolve_left hne)

/-- What is open is replaced. -/
theorem putDocument {t t' : Tracker Widget} (hdoc : s.document? file = some t) (ht : t'.Sound)
    (hannouncing : t'.buffer.Announcing) : (s.putDocument file t').Proper listed where
  sound := sound_putDocument hp.sound file ht
  wellNamed := hp.wellNamed.putDocument hdoc t'
  distinct := hp.distinct
  announcing other r hother := by
    rw [document?_putDocument] at hother
    split at hother
    · obtain rfl := Option.some.inj hother
      exact hannouncing
    · exact hp.announcing other r hother
  opened other hother := by
    rw [isOpen, document?_putDocument]
    split
    · rfl
    · exact hp.opened other hother

/-- The events of a widget are delivered. -/
theorem acknowledged {t : Tracker Widget} (hdoc : s.document? file = some t) :
    (s.putDocument file { t with buffer := { t.buffer with modified := false, pendingEvents := 0 } }).Proper listed := by
  have ht : t.Sound := hp.sound.of_document? hdoc
  exact hp.putDocument hdoc ⟨ht.buffer, ht.nodup, ht.below⟩ ⟨(hp.announcing file t hdoc).alive, nofun⟩

theorem announcing_trackerFor (buffer? : Option Widget) (hbuffer : ∀ b ∈ buffer?, b.Announcing) :
    (s.trackerFor file buffer?).buffer.Announcing := by
  unfold trackerFor
  split
  · next t hdoc => exact hp.announcing file t hdoc
  · next b => exact hbuffer b rfl
  · exact ⟨rfl, nofun⟩

/-- Opening a file, refused or not, keeps the session proper, and the file is open. -/
theorem openDocument (file : Text) (content? : Option Text) (buffer? : Option Widget)
    (hbuffer : ∀ b ∈ buffer?, LawfulBuffer.Sound b ∧ b.Announcing) :
    (s.openDocument file content? buffer?).2.Proper (file :: listed) := by
  have ht : (s.trackerFor file buffer?).Sound := sound_trackerFor hp.sound file buffer? fun b hb => (hbuffer b hb).1
  have hannouncing : (s.trackerFor file buffer?).buffer.Announcing :=
    hp.announcing_trackerFor buffer? fun b hb => (hbuffer b hb).2
  have hput := hp.put ht hannouncing file (content?.getD (s.stored file))
  unfold Session.openDocument
  dsimp only
  split
  · exact hput
  · next extraction _ =>
    have hloaded : ((s.trackerFor file buffer?).load file extraction).buffer.Announcing := by
      refine (Widget.announcing_setText hannouncing extraction.clean).of_flags_eq ?_
      exact Tracker.trait_bindAll Widget.unanchored_flags _ extraction.ids
    have hdoc : ({ s.putDocument file (s.trackerFor file buffer?) with
        files := Keyed.put file (content?.getD (s.stored file)) s.files } : Session Widget).document? file =
          some (s.trackerFor file buffer?) := by
      show (s.putDocument file (s.trackerFor file buffer?)).document? file = _
      rw [document?_putDocument, if_pos rfl]
    have hfilled := hput.putDocument hdoc (Tracker.sound_load ht file extraction) hloaded
    have hactive : Proper { ({ s.putDocument file (s.trackerFor file buffer?) with
        files := Keyed.put file (content?.getD (s.stored file)) s.files } : Session Widget).putDocument file
          ((s.trackerFor file buffer?).load file extraction) with active := s.active.or (some file) } (file :: listed) :=
      hfilled.of_eq rfl rfl
    exact hactive.enriched (enriched_applyStaged hactive.sound file)

theorem mono {listed' : List Text} (hsub : ∀ file ∈ listed', file ∈ listed) : s.Proper listed' :=
  ⟨hp.sound, hp.wellNamed, hp.distinct, hp.announcing, fun file hfile => hp.opened file (hsub file hfile)⟩

theorem setActive (file : Text) : (s.setActive file).2.Proper listed := by
  by_cases hopen : s.isOpen file = true
  · exact hp.enriched (enriched_setActive hp.sound hopen)
  · have hopened := (hp.openDocument file none none fun b hb => absurd hb (Option.not_mem_none b)).mono
      fun _ h => List.mem_cons_of_mem file h
    unfold Session.setActive
    rw [if_neg hopen]
    cases h : s.openDocument file none none with
    | mk result r =>
      rw [h] at hopened
      cases result with
      | error e => exact hopened
      | ok _ =>
        have hactive : Proper { r with active := some file } listed := hopened.of_eq rfl rfl
        exact hactive.enriched (enriched_applyStaged hactive.sound file)

end Proper

theorem proper_ofFiles (files : List (Text × Text)) (mode : ExtractionMode) : (ofFiles files mode : Session Widget).Proper [] where
  sound := fun d hd => absurd hd List.not_mem_nil
  wellNamed := ⟨List.nodup_nil, fun _ h => absurd h List.not_mem_nil⟩
  distinct := nodup_names_ofList files
  announcing := fun _ _ hdoc => by cases hdoc
  opened := fun _ h => absurd h List.not_mem_nil

end Session

end LineTags
