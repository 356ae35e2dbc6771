import LineTags.Proofs.Story.Closure

/-!
# Which knot and stitch a line belongs to

The knot and the stitch that are open at a line can be told from the lines before it in its own file, `Scope.ofLine`: an include opens and closes nothing. The reader keeps the same account while it puts a page together, so everything on a page stands in its scope (`Page.Within`), and a property that containers take over from what stands in them holds of all that was read. With it the containers around each piece of narrative text are those of the scope of its line.
-/

namespace LineTags

open Text LineForm Node StoryReader

/-- Where a line of a file belongs: before the first knot, to a knot, or to a stitch of a knot. -/
inductive Scope
  | top
  | knot (name : Text)
  | stitch (knot name : Text)
  deriving DecidableEq

namespace Scope

def containers : Scope → List Container
  | top => []
  | knot name => [⟨.knot, name⟩]
  | stitch k name => [⟨.knot, k⟩, ⟨.stitch, name⟩]

/-- Where the next line belongs. A stitch is one of the open knot, and before the first knot there is none to be a stitch of. -/
def behind (scope : Scope) : LineForm → Scope
  | .knotHeader (some name) => knot name
  | .stitchHeader (some name) =>
    match scope with
    | top => top
    | knot k | stitch k _ => stitch k name
  | _ => scope

/-- Where a line belongs that some lines lead to. -/
def behindAll (scope : Scope) (ls : List Text) : Scope := ls.foldl (fun scope l => scope.behind (formOf l)) scope

/-- Where the line with an index belongs in its file. -/
def ofLine (ls : List Text) (i : Nat) : Scope := top.behindAll (ls.take i)

end Scope

/-- A node stands where its scope allows it: the branch of a line in the scope of the line, a knot or an included file at the top, a stitch in a knot. Knots and stitches have valid names, and no two stitches of a knot have one name. -/
inductive WellPlaced (source : Text → Text → Prop) : Scope → Node → Prop
  | line {file u l : Text} {i : Nat} {n : Node} : source file u → (lines (dropMarks u))[i]? = some l →
    lineBranch? file (1 + i) (formOf l) = some n → WellPlaced source (.ofLine (lines (dropMarks u)) i) n
  | inclusion {name : Text} {place : Option Place} {content : List Node} :
    (∀ n ∈ content, WellPlaced source .top n) → WellPlaced source .top (.branch (.inclusion name) place content)
  | knot {name : Text} {place : Option Place} {content : List Node} : isContainerName name = true →
    (content.filterMap containerName?).Nodup → (∀ n ∈ content, WellPlaced source (.knot name) n) →
    WellPlaced source .top (.branch (.container ⟨.knot, name⟩) place content)
  | stitch {k name : Text} {place : Option Place} {content : List Node} : isContainerName name = true →
    (∀ n ∈ content, WellPlaced source (.stitch k name) n) →
    WellPlaced source (.knot k) (.branch (.container ⟨.stitch, name⟩) place content)

namespace StoryReader

variable {source : Text → Text → Prop} {library : Library} {readFile : Text → Text → Progress → Outcome (List Node × Progress)} {root r : Text}
  {file t : Text} {line : Nat} {form : LineForm} {page page' : Page} {progress progress' : Progress}

/-! ### The scope of a page -/

/-- Where the next line of a page belongs. -/
def Page.scope (p : Page) : Scope :=
  match p.knot with
  | none => .top
  | some k =>
    match k.stitch with
    | none => .knot k.name
    | some s => .stitch k.name s.name

theorem OpenKnot.name_close (k : OpenKnot) : k.close.name = k.name := by
  unfold OpenKnot.close
  split <;> rfl

theorem Page.scope_add (p : Page) (n : Node) : (p.add n).scope = p.scope := by
  obtain ⟨before, knot, after⟩ := p
  rcases knot with _ | ⟨name, place, content, stitch⟩
  · rfl
  · cases stitch <;> rfl

theorem Page.scope_addInclude (p : Page) (n : Node) : (p.addInclude n).scope = p.scope := by
  obtain ⟨before, knot, after⟩ := p
  cases knot <;> rfl

theorem Page.scope_openStitch {p : Page} {k : OpenKnot} (hk : p.knot = some k) (name : Text) (place : Place) :
    (p.openStitch k name place).scope = p.scope.behind (.stitchHeader (some name)) := by
  show Scope.stitch k.close.name name = _
  rw [k.name_close]
  unfold Page.scope
  rw [hk]
  dsimp only
  cases k.stitch <;> rfl

theorem behind_of_branch {n : Node} (h : lineBranch? file line form = some n) (scope : Scope) :
    scope.behind form = scope := by
  cases form with
  | knotHeader name? | stitchHeader name? => cases h
  | empty | inclusion name | logic name value | brokenDeclaration | divert body | choice body | gather body
    | narrative body => rfl

theorem LineEffect.scope (h : LineEffect library readFile file line page progress form page' progress') :
    page'.scope = page.scope.behind form := by
  cases h with
  | empty | repeated | knot => rfl
  | included => exact Page.scope_addInclude _ _
  | stitch hknot => exact Page.scope_openStitch hknot _ _
  | branch hbranch => rw [behind_of_branch hbranch, Page.scope_add]

/-! ### What stands in its scope -/

/-- All that was added to a page is well placed in its scope, and so are the open knot and stitch. -/
structure Page.Within (source : Text → Text → Prop) (page : Page) : Prop where
  before : ∀ n ∈ page.before, WellPlaced source .top n
  after : ∀ n ∈ page.after, WellPlaced source .top n
  knotName : ∀ k, page.knot = some k → isContainerName k.name = true
  stitchNames : ∀ k, page.knot = some k → k.stitchNames.Nodup
  knot : ∀ k, page.knot = some k → ∀ n ∈ k.content, WellPlaced source (.knot k.name) n
  stitchName : ∀ k s, page.knot = some k → k.stitch = some s → isContainerName s.name = true
  stitch : ∀ k s, page.knot = some k → k.stitch = some s → ∀ n ∈ s.content, WellPlaced source (.stitch k.name s.name) n

theorem OpenKnot.stitchNames_close (k : OpenKnot) : k.close.content.filterMap containerName? = k.stitchNames := rfl

namespace Page.Within

theorem empty : Page.Within source {} where
  before _ h := absurd h List.not_mem_nil
  after _ h := absurd h List.not_mem_nil
  knotName _ h := nomatch h
  stitchNames _ h := nomatch h
  knot _ h := nomatch h
  stitchName _ _ h := nomatch h
  stitch _ _ h := nomatch h

theorem close (h : page.Within source) {k : OpenKnot} (hk : page.knot = some k) :
    ∀ n ∈ k.close.content, WellPlaced source (.knot k.name) n := by
  unfold OpenKnot.close
  split
  · next s hs =>
    refine Holds.forall_mem_append (h.knot k hk) (Holds.forall_mem_singleton ?_)
    exact .stitch (h.stitchName k s hk hs) (h.stitch k s hk hs)
  · exact h.knot k hk

theorem nodes (h : page.Within source) : ∀ n ∈ page.nodes, WellPlaced source .top n := by
  refine Holds.forall_mem_append (Holds.forall_mem_append h.before fun n hn => ?_) h.after
  cases hk : page.knot with
  | none => rw [hk] at hn; cases hn
  | some k =>
    rw [hk] at hn
    rw [List.mem_singleton.1 hn]
    exact .knot (h.knotName k hk) (h.stitchNames k hk) (h.close hk)

theorem openKnot (h : page.Within source) {name : Text} (hname : isContainerName name = true) (place : Place) :
    (page.openKnot name place).Within source where
  before := h.nodes
  after _ hn := absurd hn List.not_mem_nil
  knotName := by
    rintro _ ⟨⟩
    exact hname
  stitchNames := by
    rintro _ ⟨⟩
    exact List.nodup_nil
  knot := by
    rintro _ ⟨⟩ n hn
    cases hn
  stitchName := by rintro _ _ ⟨⟩ ⟨⟩
  stitch := by rintro _ _ ⟨⟩ ⟨⟩

theorem openStitch (h : page.Within source) {k : OpenKnot} (hk : page.knot = some k) {name : Text}
    (hname : isContainerName name = true) (hnew : name ∉ k.stitchNames) (place : Place) :
    (page.openStitch k name place).Within source where
  before := h.before
  after := h.after
  knotName := by
    rintro _ ⟨⟩
    exact k.name_close ▸ h.knotName k hk
  stitchNames := by
    rintro _ ⟨⟩
    show ((k.close.content ++ [OpenStitch.node ⟨name, place, []⟩]).filterMap containerName?).Nodup
    rw [List.filterMap_append, k.stitchNames_close, List.nodup_append]
    refine ⟨h.stitchNames k hk, List.nodup_singleton name, fun a ha b hb heq => hnew ?_⟩
    have hb : b = name := List.mem_singleton.1 hb
    exact hb ▸ heq ▸ ha
  knot := by
    rintro _ ⟨⟩
    exact k.name_close ▸ h.close hk
  stitchName := by
    rintro _ _ ⟨⟩ ⟨⟩
    exact hname
  stitch := by
    rintro _ _ ⟨⟩ ⟨⟩ n hn
    cases hn

theorem addInclude (h : page.Within source) {n : Node} (hn : WellPlaced source .top n) : (page.addInclude n).Within source := by
  have hknot : (page.addInclude n).knot = page.knot := by
    unfold Page.addInclude
    split <;> rfl
  refine ⟨?_, ?_, hknot ▸ h.knotName, hknot ▸ h.stitchNames, hknot ▸ h.knot, hknot ▸ h.stitchName, hknot ▸ h.stitch⟩
  · unfold Page.addInclude
    split
    · exact Holds.forall_mem_append h.before (Holds.forall_mem_singleton hn)
    · exact h.before
  · unfold Page.addInclude
    split
    · exact h.after
    · exact Holds.forall_mem_append h.after (Holds.forall_mem_singleton hn)

theorem add (h : page.Within source) {n : Node} (hplain : containerName? n = none) (hn : WellPlaced source page.scope n) :
    (page.add n).Within source := by
  have hnames : ∀ k', (page.add n).knot = some k' → k'.stitchNames.Nodup := fun k' hk' => by
    have hopen := Page.openStitches?_add hplain page
    unfold Page.openStitches? at hopen
    rw [hk'] at hopen
    obtain ⟨k, hk, heq⟩ := Option.map_eq_some_iff.1 hopen.symm
    exact heq ▸ h.stitchNames k hk
  unfold Page.scope at hn
  unfold Page.add at hnames ⊢
  cases hk : page.knot with
  | none =>
    rw [hk] at hn
    refine ⟨Holds.forall_mem_append h.before (Holds.forall_mem_singleton hn), h.after, ?_, ?_, ?_, ?_, ?_⟩
    · rintro _ ⟨⟩
    · rintro _ ⟨⟩
    · rintro _ ⟨⟩
    · rintro _ _ ⟨⟩
    · rintro _ _ ⟨⟩
  | some k =>
    rw [hk] at hn hnames
    dsimp only at hn hnames ⊢
    cases hs : k.stitch with
    | none =>
      rw [hs] at hn hnames
      refine ⟨h.before, h.after, ?_, hnames, ?_, ?_, ?_⟩
      · rintro _ ⟨⟩
        exact h.knotName k hk
      · rintro _ ⟨⟩
        exact Holds.forall_mem_append (h.knot k hk) (Holds.forall_mem_singleton hn)
      · rintro _ _ ⟨⟩ ⟨⟩
      · rintro _ _ ⟨⟩ ⟨⟩
    | some s =>
      rw [hs] at hn hnames
      refine ⟨h.before, h.after, ?_, hnames, ?_, ?_, ?_⟩
      · rintro _ ⟨⟩
        exact h.knotName k hk
      · rintro _ ⟨⟩
        exact h.knot k hk
      · rintro _ _ ⟨⟩ ⟨⟩
        exact h.stitchName k s hk hs
      · rintro _ _ ⟨⟩ ⟨⟩
        exact Holds.forall_mem_append (h.stitch k s hk hs) (Holds.forall_mem_singleton hn)

theorem effect {code : Text}
    (heffect : LineEffect library readFile file line page progress (.ofCode code) page' progress')
    (hbranch : ∀ n, lineBranch? file line (.ofCode code) = some n → WellPlaced source page.scope n)
    (hinclude : ∀ name t nodes, name ∉ progress.fileNames → library.find? name = some (.ok t) →
      readFile name t progress = .ok (nodes, progress') → ∀ n ∈ nodes, WellPlaced source .top n)
    (h : page.Within source) : page'.Within source := by
  generalize hform : ofCode code = form at heffect hbranch
  cases heffect with
  | empty | repeated => exact h
  | included hmem hfind hread => exact h.addInclude (.inclusion (hinclude _ _ _ hmem hfind hread))
  | knot => exact h.openKnot (isContainerName_of_ofCode (.inl hform)) _
  | stitch hknot hnew => exact h.openStitch hknot (isContainerName_of_ofCode (.inr hform)) hnew _
  | branch hn => exact h.add (containerName?_lineBranch? hn) (hbranch _ hn)

end Page.Within

/-- Lines are read to a page where all is well placed, if their branches and the files they include are. -/
theorem readLines_within {Q : List Text → Prop} {ls : List Text}
    (h : readLines library readFile file line ls page progress = .ok (page', progress'))
    (hbranch : ∀ i l n, ls[i]? = some l → lineBranch? file (line + i) (formOf l) = some n →
      WellPlaced source (page.scope.behindAll (ls.take i)) n)
    (hinclude : ∀ name t nodes progress progress', Q progress.fileNames → name ∉ progress.fileNames →
      library.find? name = some (.ok t) → readFile name t progress = .ok (nodes, progress') →
      Q progress'.fileNames ∧ ∀ n ∈ nodes, WellPlaced source .top n)
    (hQ : Q progress.fileNames) (hpage : page.Within source) : page'.Within source := by
  induction ls generalizing line page progress with
  | nil =>
    obtain ⟨rfl, rfl⟩ := Prod.mk.inj (Except.ok.inj h)
    exact hpage
  | cons l ls ih =>
    obtain ⟨mid, progress₁, heffect, hrest⟩ := readLines_cons_ok h
    have hmid : Q progress₁.fileNames := by
      rcases heffect.fileNames with heq | ⟨name, t, nodes, hmem, hfind, hread⟩
      · rwa [heq]
      · exact (hinclude name t nodes _ _ hQ hmem hfind hread).1
    have hscope : mid.scope = page.scope.behind (formOf l) := heffect.scope
    refine ih hrest (fun i k n hk hn => ?_) hmid (Page.Within.effect heffect (fun n hn => hbranch 0 l n rfl hn)
      (fun name t nodes hmem hfind hread => (hinclude name t nodes _ _ hQ hmem hfind hread).2) hpage)
    rw [hscope]
    exact hbranch (i + 1) k n hk (by rwa [Nat.add_comm i 1, ← Nat.add_assoc])

theorem wellPlaced_readFile {root r u : Text} {nodes : List Node} {depth : Nat}
    (h : StoryReader.readFile library depth file u progress = .ok (nodes, progress'))
    (hsource : SourceText library root r file u) (hroot : file = root ∨ root ∈ progress.fileNames) :
    ∀ n ∈ nodes, WellPlaced (SourceText library root r) .top n := by
  induction depth generalizing file u progress progress' nodes with
  | zero =>
    obtain ⟨rfl, rfl⟩ := Prod.mk.inj (Except.ok.inj h)
    exact fun n hn => absurd hn List.not_mem_nil
  | succ depth ih =>
    obtain ⟨page, hread, rfl⟩ := readFile_succ_ok h
    have hstart : root ∈ progress.fileNames ++ [file] := by
      rcases hroot with rfl | hroot
      · exact List.mem_append_right _ List.mem_cons_self
      · exact List.mem_append_left _ hroot
    have hpage := readLines_within (Q := fun names => root ∈ names) hread
      (fun i l n hl hn => .line hsource hl hn)
      (fun name v ns before after hbefore hname hfind hinner => ⟨(readFile_avoids hinner hname).1 root hbefore,
        ih hinner (sourceText_of_not_mem hbefore hname hfind) (.inr hbefore)⟩)
      hstart .empty
    exact hpage.nodes

end StoryReader

/-- A story is a branch of what its root file holds, and all of that is well placed. -/
theorem wellPlaced_of_parse {library : Library} {root r : Text} {story : Story}
    (h : Story.parse library root r = .ok story) :
    ∃ place content, story.root = .branch .story place content ∧
      ∀ n ∈ content, WellPlaced (SourceText library root r) .top n := by
  unfold Story.parse at h
  cases hread : readFile library library.depth root r ⟨[], []⟩ with
  | error e => rw [hread] at h; cases h
  | ok found =>
    rw [hread] at h
    obtain rfl := Except.ok.inj h
    exact ⟨_, _, rfl, wellPlaced_readFile hread (sourceText_root library root r) (.inl rfl)⟩

/-! ### The containers around a candidate -/

/-- A candidate stands on a line of a text, in the containers of the line's scope. -/
def StandsInScope (source : Text → Text → Prop) (c : Candidate) : Prop :=
  ∃ file u i line ps, source file u ∧ (lines (dropMarks u))[i]? = some line ∧ StandsOn c file i line ps ∧
    c.ancestry = (Scope.ofLine (lines (dropMarks u)) i).containers

variable {source : Text → Text → Prop} {scope : Scope}

theorem isEmpty_of_isContainerName {name : Text} (h : isContainerName name = true) : name.isEmpty = false := by
  cases name with
  | nil => exact absurd h (by decide)
  | cons c name => rfl

/-- What holds of the candidates of each node holds of the candidates of all. -/
theorem forall_mem_ofNodes {P : Candidate → Prop} {above : List Container} {ns : List Node}
    (hns : ∀ n ∈ ns, ∀ siblings index, ∀ c ∈ Candidate.ofNode above siblings index n, P c) (siblings : List Node)
    (index : Nat) : ∀ c ∈ Candidate.ofNodes above siblings index ns, P c := by
  intro c hc
  induction ns generalizing index with
  | nil => cases hc
  | cons n ns ih =>
    rw [Candidate.ofNodes, List.mem_append] at hc
    rcases hc with hc | hc
    · exact hns n List.mem_cons_self _ _ c hc
    · exact ih (fun m hm => hns m (List.mem_cons_of_mem _ hm)) _ hc

theorem WellPlaced.standsInScope {n : Node} (h : WellPlaced source scope n) (siblings : List Node) (index : Nat) :
    ∀ c ∈ Candidate.ofNode scope.containers siblings index n, StandsInScope source c := by
  induction h generalizing siblings index with
  | @line file u l i n hsource hl hn =>
    intro c hc
    obtain ⟨hplace, hancestry, role, state, body, ps, hform, hpieces, -, hsiblings, htext, hdark⟩ :=
      of_mem_lineBranch? hn hc
    rw [← hplace] at hsiblings htext
    have hps : piecesIn? l = some ps := piecesIn?_eq_some_iff.2 ⟨role, state, body, hform, hpieces⟩
    exact ⟨file, u, i, l, ps, hsource, hl, ⟨hplace, hps, hsiblings, htext, hdark⟩, hancestry⟩
  | inclusion hcontent ih =>
    rw [Candidate.ofNode_branch _ _ _ _ _ rfl fun _ h => by cases h]
    exact forall_mem_ofNodes ih _ _
  | knot hname _ hcontent ih | stitch hname hcontent ih =>
    rw [Candidate.ofNode_container, if_neg (by rw [isEmpty_of_isContainerName hname]; decide)]
    exact forall_mem_ofNodes ih _ _

/-- The containers around a candidate of a story are those of its line's scope. -/
theorem standsInScope_of_parse {library : Library} {root r : Text} {story : Story}
    (h : Story.parse library root r = .ok story) {c : Candidate} (hc : c ∈ Candidate.ofTree story.root) :
    StandsInScope (SourceText library root r) c := by
  obtain ⟨place, content, hroot, hcontent⟩ := wellPlaced_of_parse h
  rw [hroot, Candidate.ofTree_story] at hc
  exact forall_mem_ofNodes (fun n hn => (hcontent n hn).standsInScope) _ _ c hc

end LineTags
