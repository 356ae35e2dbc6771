import LineTags.Proofs.CommandLine.Course
import LineTags.Proofs.Session.Reopening
import LineTags.Proofs.Sync.Wanting
import LineTags.Proofs.Story.LineKinds

/-!
# Nothing is left to tag

In the turn of a script each of its lines that wants a tag gets an identifier or is reported, and a free line takes the identifier that comes for it. No line becomes free later. So if every script has a story in its turn and no line is reported, then no line of a saved script takes a tag and wants one. The scripts have stories in their turns because tags do not change what lines are: each line of a script is, at any moment, the one that was loaded or the one that is saved in the end.
-/

namespace LineTags.Tagging

open Text Keyed

variable {w : Workplace} {p : Project} {d d' d₂ : TagDriver MemoryBuffer} {file l : Text} {i : Nat}

/-! ## Every script has a story in its turn -/

/-- Every script has a story that needs no others, and neither the repair of the spacing nor what is written for the scripts changes what their lines are. What is written comes out as it went in when it is opened and saved. -/
structure Rereads (mode : ExtractionMode) (scripts written : List (Text × Text)) : Prop where
  complete : ∀ f ∈ scripts, (Story.parse { files := scripts } f.1 f.2).isOk = true
  prepared : ∀ f ∈ scripts, SameKinds f.2 (mode.prepareScript f.2)
  tagged : ∀ f ∈ scripts, SameKinds f.2 ((written.lookup f.1).getD [])
  settled : ∀ g ∈ written, ∀ l ∈ lines (dropMarks g.2), Settled mode l

variable {mode : ExtractionMode} {scripts written files : List (Text × Text)} {s₀ s s' : Session MemoryBuffer}

/-- Scripts that have the same kinds of lines as others have stories, if the others have. -/
theorem Rereads.exists_parse (h : Rereads mode scripts written) (hnames : names files = names scripts)
    (hkinds : ∀ f ∈ scripts, ∃ content, files.lookup f.1 = some content ∧ SameKinds f.2 content) {f : Text × Text}
    (hf : f ∈ scripts) (w : Workplace) (folder : Text) :
    ∃ content story, files.lookup f.1 = some content ∧
      Story.parse (Project.libraryIn w folder files) f.1 content = .ok story := by
  obtain ⟨content, hlookup, hsame⟩ := hkinds f hf
  have hcomplete := h.complete f hf
  have hoffers : StoryReader.Offers (Project.libraryIn w folder files) scripts := by
    intro name t hname
    obtain ⟨t', hlookup', hsame'⟩ := hkinds (name, t) (mem_of_lookup hname)
    exact ⟨t', Library.find?_of_lookup hlookup', hsame'⟩
  have hlength : scripts.length ≤ (Project.libraryIn w folder files).depth := by
    have hsame := congrArg List.length hnames
    rw [names, names, List.length_map, List.length_map] at hsame
    rw [← hsame]
    exact Nat.le_succ_of_le (Nat.le_add_right _ _)
  cases hparse : Story.parse { files := scripts } f.1 f.2 with
  | error e => rw [hparse] at hcomplete; cases hcomplete
  | ok story =>
    obtain ⟨story', hstory⟩ := exists_parse_of_offers hoffers hparse (List.mem_map_of_mem hf) hsame hlength
    exact ⟨content, story', hlookup, hstory⟩

/-- While scripts are tagged their lines stay what they are. -/
theorem Rereads.sameKinds (h : Rereads mode scripts s'.projectFiles) (hopened : Opened mode scripts s₀)
    (hnodup : (names scripts).Nodup) (hbefore : s₀.Extends s) (hafter : s.Extends s') (hspelled : s'.WellSpelled)
    {f : Text × Text} (hf : f ∈ scripts) : SameKinds f.2 (s.fullContent f.1) := by
  have hdoc₀ := hopened.document? hnodup hf
  have hopen := hopened.isOpen (List.mem_map_of_mem hf)
  obtain ⟨t, hdoc⟩ := Option.isSome_iff_exists.1 ((hbefore.isOpen f.1).trans hopen)
  obtain ⟨t', hdoc'⟩ := Option.isSome_iff_exists.1 (((hbefore.trans hafter).isOpen f.1).trans hopen)
  have htext := hbefore.text f.1
  have htext' := hafter.text f.1
  rw [hdoc₀, hdoc, Option.map_some, Option.map_some, Option.some_inj] at htext
  rw [hdoc, hdoc', Option.map_some, Option.map_some, Option.some_inj] at htext'
  have hsaved : s'.projectFiles.lookup f.1 = some (s'.fullContent f.1) := by
    refine Session.lookup_projectFiles_of_isOpen ?_ (Option.isSome_iff_exists.2 ⟨t', hdoc'⟩)
    exact (hopened.wellNamed hnodup).of_names_eq (hbefore.trans hafter).names fun _ hname =>
      (hbefore.trans hafter).files ▸ hname
  have hlast := h.tagged f hf
  rw [hsaved, Option.getD_some, Session.fullContent, hdoc'] at hlast
  rw [Session.fullContent, hdoc]
  refine (h.prepared f hf).of_mixed hlast (Tracker.getElem?_lines_fullContent_between htext (fun x hx => ?_) htext'
    (fun x hx => ?_) fun a ha => hspelled a.identifier (Session.carriers_ne_zero_of_mem hdoc' ha))
  · rw [← Session.idsOf_of_document? hdoc]
    exact hbefore.ids f.1 x (Session.idsOf_of_document? hdoc₀ ▸ hx)
  · rw [← Session.idsOf_of_document? hdoc']
    exact hafter.ids f.1 x (Session.idsOf_of_document? hdoc ▸ hx)

theorem content_runFor (hs : s.WellNamed) (hopen : s.isOpen file = true) (token : Nat) :
    (runFor s token file).content = s.fullContent file := by
  show (s.projectFiles.lookup file).getD [] = _
  rw [Session.lookup_projectFiles_of_isOpen hs hopen, Option.getD_some]

/-- So every script has a story whenever its turn comes. -/
theorem Rereads.exists_story (h : Rereads mode scripts s'.projectFiles) (hopened : Opened mode scripts s₀)
    (hnodup : (names scripts).Nodup) (hbefore : s₀.Extends s) (hafter : s.Extends s') (hspelled : s'.WellSpelled)
    (hfile : file ∈ names scripts) (token : Nat) : ∃ story, compileIn w p (runFor s token file) = .story story := by
  have hnamed : s.WellNamed := (hopened.wellNamed hnodup).of_names_eq hbefore.names fun _ hname => hbefore.files ▸ hname
  have hopen : ∀ file ∈ names scripts, s.isOpen file = true := fun file hfile =>
    (hbefore.isOpen file).trans (hopened.isOpen hfile)
  have hnames : names s.projectFiles = names scripts :=
    (Session.names_projectFiles hnamed).trans (congrArg names (hbefore.files.trans hopened.files))
  obtain ⟨f, hf, rfl⟩ := List.mem_map.1 hfile
  obtain ⟨content, story, hlookup, hparse⟩ := h.exists_parse hnames (fun g hg => ⟨s.fullContent g.1,
    Session.lookup_projectFiles_of_isOpen hnamed (hopen _ (List.mem_map_of_mem hg)),
    h.sameKinds hopened hnodup hbefore hafter hspelled hg⟩) hf w (p.rootFolder w)
  refine ⟨story, ?_⟩
  rw [compileIn_runFor, hlookup, Option.getD_some, hparse]
  rfl

/-! ## Each line that wants a tag gets one, or is reported -/

/-- In the turn of a script that has a story, and of which no line is reported, each line that wants a tag gets one or cannot take any. -/
theorem not_free_of_turn (hs : d.session.Sound) (hopen : d.session.isOpen file = true)
    (h : tagFile (compileIn w p) file d = .ok ([], d₂)) {story : Story}
    (hstory : compileIn w p (runFor (d.session.setActive file).2 (d.issued + 1) file) = .story story)
    (hl : (lines (dropMarks (runFor (d.session.setActive file).2 (d.issued + 1) file).content))[i]? = some l)
    (hwants : WantsTag l) : ¬d₂.session.Free file ((1 + i : Nat) : Int) := by
  have hissued := TagDriver.startRun_issued (startRun_setActive hopen hs)
  rw [tagFile_eq hopen hs, hstory] at h
  obtain ⟨hown, rfl⟩ := Prod.mk.inj (Except.ok.inj h)
  generalize hrun : runFor (d.session.setActive file).2 (d.issued + 1) file = run at hstory hissued hown hl
  have hfile : run.file = file := by rw [← hrun]; rfl
  have hparse : Story.parse (Project.libraryIn w (p.rootFolder w) run.files) run.file run.content = .ok story :=
    Compiled.eq_ok_of_ofParse hstory
  obtain ⟨t, hdoc, -⟩ := hissued.snapshot
  have hbusy := hissued.not_free_delivered (Session.sound_setActive hs file) (Session.alive?_of_document? hdoc) hparse hl
    hwants fun f hf hplace => by
      have hmem : f ∈ ([] : List Exhaustion) := by
        rw [← hown]
        exact List.mem_filter.2 ⟨hf, decide_eq_true ((congrArg Place.file hplace).trans (congrArg some hfile))⟩
      cases hmem
  rwa [hfile] at hbusy

/-- A free line is saved as it was saved when less was tagged. -/
theorem getElem?_lines_fullContent_of_extends {s' : Session MemoryBuffer} (hextends : s.Extends s')
    (hids : ∀ x ∈ s'.idsOf file, isIdentifier x.identifier) (hfree : s'.Free file ((1 + i : Nat) : Int)) :
    (lines (s.fullContent file))[i]? = (lines (s'.fullContent file))[i]? := by
  obtain ⟨t, hdoc, -, hnone⟩ := hextends.free hfree
  obtain ⟨t', hdoc', -, hnone'⟩ := hfree
  rw [Session.idsOf_of_document? hdoc'] at hids
  have hold : ∀ a ∈ t.associations, isIdentifier a.identifier := by
    intro a ha
    have hkept := hextends.ids file a (Session.idsOf_of_document? hdoc ▸ ha)
    rw [Session.idsOf_of_document? hdoc'] at hkept
    exact hids a hkept
  have htext := hextends.text file
  rw [hdoc, hdoc', Option.map_some, Option.map_some, Option.some_inj] at htext
  rw [Session.fullContent, hdoc, Session.fullContent, hdoc']
  dsimp only
  rw [Tracker.getElem?_lines_fullContent_of_free hold hnone, Tracker.getElem?_lines_fullContent_of_free hids hnone', htext]

/-- When no line was reported, every script is saved fully tagged. -/
theorem Rereads.fullyTagged (hrereads : Rereads mode scripts d'.session.projectFiles) (hopened : Opened mode scripts d.session)
    (hnodup : (names scripts).Nodup) (h : tagFiles (compileIn w p) (names scripts) d = .ok ([], d'))
    (hspelled : d'.session.WellSpelled) (hfile : file ∈ names scripts) :
    FullyTagged (dropMarks (d'.session.fullContent file)) := by
  intro l hmem htakes hwants
  obtain ⟨i, hi⟩ := List.mem_iff_getElem?.1 hmem
  obtain ⟨line, hline, rfl⟩ := getElem?_lines_dropMarks.1 hi
  obtain ⟨d₁, d₂, own, hs₁, hopen₁, hturn, hbefore, hafter, hown⟩ :=
    exists_turn (fun run => Compiled.validNames_ofParse _ run.file run.content) hopened.sound (fun _ => hopened.isOpen) h hfile
  obtain rfl := List.eq_nil_of_subset_nil hown
  have hactive := Session.extends_setActive hs₁ hopen₁
  have hgrown : (d₁.session.setActive file).2.Extends d'.session := (extends_turn hs₁ hopen₁ hturn).trans hafter
  have hnamed : (d₁.session.setActive file).2.WellNamed := (hopened.wellNamed hnodup).of_names_eq
    (hactive.names.trans hbefore.names) fun _ hname => (hactive.files.trans hbefore.files) ▸ hname
  obtain ⟨t, hdoc⟩ := Option.isSome_iff_exists.1 ((hgrown.isOpen file).trans ((hactive.isOpen file).trans hopen₁))
  have hids : ∀ x ∈ t.associations, isIdentifier x.identifier := fun x hx =>
    hspelled x.identifier (Session.carriers_ne_zero_of_mem hdoc hx)
  have hshown : takesTag line := by
    unfold readAs at htakes
    split at htakes
    · exact takesTag_of_dropMarks htakes
    · exact htakes
  have hfree : d'.session.Free file ((1 + i : Nat) : Int) := by
    rw [Session.fullContent, hdoc] at hline
    exact ⟨t, hdoc, Tracker.free_of_takesTag hids hline hshown⟩
  rw [← Session.idsOf_of_document? hdoc] at hids
  -- nothing becomes free on the way, so the line was free when the turn began and when it ended
  obtain ⟨story, hstory⟩ := hrereads.exists_story (w := w) (p := p) hopened hnodup (hbefore.trans hactive) hgrown hspelled
    hfile (d₁.issued + 1)
  refine not_free_of_turn hs₁ hopen₁ hturn hstory ?_ hwants (hafter.free hfree)
  rw [content_runFor hnamed ((hactive.isOpen file).trans hopen₁), getElem?_lines_dropMarks]
  exact ⟨line, (getElem?_lines_fullContent_of_extends hgrown hids hfree).trans hline, rfl⟩

end LineTags.Tagging
