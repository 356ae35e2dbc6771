import LineTags.Proofs.Disk.Errors
import LineTags.Proofs.Disk.SameScripts

/-!
# What stops the loading, parsing and saving of scripts

The loader passes over an include that the disk refuses, but stops at one with a defect; and the reader of stories stops at an include with a defect that was not loaded. Both came there from the root. Saving never stops for a defect, because no path of a loaded script has a null character in it.
-/

namespace LineTags.Project

open Text Keyed

variable {w w' : Workplace} {p : Project} {rootPath : Text} {e : FileError}

/-- The path of an included script. -/
def includePath (w : Workplace) (rootPath name : Text) : Text := Path.inside (Path.folder (w.absolute rootPath)) name

/-! ## Loading -/

/-- The scripts that the loader can come to from the root, with their texts. -/
inductive Gathered (w : Workplace) (rootPath : Text) : Text → Text → Prop
  | root {t : Text} (hread : loadScript w rootPath = .ok t) : Gathered w rootPath (Path.fileName rootPath) t
  | included {g v name u : Text} (hg : Gathered w rootPath g v) (hname : name ∈ includesOf g v)
    (hread : loadScript w (includePath w rootPath name) = .ok u) : Gathered w rootPath name u

/-- All scripts of a project were gathered from its root. -/
structure Gathers (w : Workplace) (rootPath : Text) (p : Project) : Prop where
  sameRoot : p.rootPath = rootPath
  files : ∀ f ∈ p.files, Gathered w rootPath f.1 f.2

theorem Gathers.pathOf_eq (h : Gathers w rootPath p) (name : Text) : p.pathOf w name = includePath w rootPath name := by
  rw [pathOf, rootFolder, h.sameRoot]
  rfl

/-- Some script that was gathered includes one with a defect. -/
def GathersDefect (w : Workplace) (rootPath : Text) (e : FileError) : Prop :=
  ∃ g v name, Gathered w rootPath g v ∧ name ∈ includesOf g v ∧ w.disk.Defect w.folder (includePath w rootPath name) e

theorem loadScript_eq_error_iff {path : Text} : loadScript w path = .error e ↔ w.readText path = .error e := by
  unfold loadScript
  cases w.readText path with
  | ok t => exact iff_of_false nofun nofun
  | error e' => exact ⟨fun h => Except.error.inj h ▸ rfl, fun h => Except.error.inj h ▸ rfl⟩

theorem Gathers.add (h : Gathers w rootPath p) {name content : Text} (hscript : Gathered w rootPath name content) :
    Gathers w rootPath { p with files := p.files ++ [(name, content)] } where
  sameRoot := h.sameRoot
  files := fun f hf => by
    rcases List.mem_append.1 hf with hf | hf
    · exact h.files f hf
    · rw [List.mem_singleton.1 hf]
      exact hscript

/-- Loading the includes of a script that was gathered gathers on, or it comes to a defect. -/
theorem Gathers.loadIncludes {included : List Text} {g v : Text} (h : Gathers w rootPath p) (hg : Gathered w rootPath g v)
    (hincluded : included ⊆ includesOf g v) (queue : List Text) :
    match Project.loadIncludes w included (p, queue) with
    | .ok r => Gathers w rootPath r.1
    | .error e => GathersDefect w rootPath e := by
  induction included generalizing p queue with
  | nil => exact h
  | cons name included ih =>
    have hname := hincluded List.mem_cons_self
    have hrest := List.subset_of_cons_subset hincluded
    rw [loadIncludes_cons]
    by_cases hloaded : name ∈ names p.files
    · rw [if_pos hloaded]
      exact ih h hrest queue
    rw [if_neg hloaded]
    cases hread : loadScript w (p.pathOf w name) with
    | ok content => exact ih (h.add (.included hg hname (h.pathOf_eq name ▸ hread))) hrest _
    | error e =>
      have hdefect : ¬e.IsRefusal → GathersDefect w rootPath e := by
        intro hrefused
        rw [loadScript_eq_error_iff, h.pathOf_eq] at hread
        exact ⟨g, v, name, hg, hname, Disk.defect_iff.2 ⟨hread, hrefused⟩⟩
      cases e with
      | refused refusal path => exact ih h hrest queue
      | undecodable fault => exact hdefect not_false
      | nullInName => exact hdefect not_false

end LineTags.Project
