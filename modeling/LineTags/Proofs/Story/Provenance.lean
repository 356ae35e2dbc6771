import LineTags.Proofs.Minting.Walk
import LineTags.Proofs.Story.PageOutline

/-!
# Where narrative text comes from

A piece of narrative text that is placed in the root file stands on the branch of one of its lines, among all that was written on that line, and the containers around it have valid names. The reason that no included file gets in between is that a file is read once: what an include brings in is placed in files that were not read before, and the root file was.
-/

namespace LineTags

open Text LineForm Node

namespace StoryReader

variable {library : Library} {file : Text} {line : Nat} {form : LineForm}

/-! ### The candidates of one line -/

/-- What a line is made of holds no text but its own. -/
def IsPart (place : Place) : Node → Prop
  | .text _ p => p = some place
  | .tag _ _ => True
  | .branch role _ content => role.isLogic = true ∨ ((∃ target, role = .divert target) ∧ content = [])

theorem isPart_textNode (place : Place) (t : Text) : ∀ m ∈ textNode place t, IsPart place m := by
  intro m hm
  unfold textNode at hm
  split at hm
  · cases hm
  · rw [List.mem_singleton.1 hm]
    rfl

theorem isPart_nodesFrom (place : Place) (ps : List Piece) : ∀ m ∈ (nodesFrom place ps).2, IsPart place m := by
  have hcons : ∀ {n : Node} {t : Text} {ns : List Node}, IsPart place n → (∀ m ∈ ns, IsPart place m) →
      ∀ m ∈ n :: (textNode place t ++ ns), IsPart place m := by
    intro n t ns hn hns m hm
    rcases List.mem_cons.1 hm with rfl | hm
    · exact hn
    rcases List.mem_append.1 hm with hm | hm
    · exact isPart_textNode place t m hm
    · exact hns m hm
  induction ps with
  | nil =>
    intro m hm
    rw [List.mem_singleton.1 hm]
    rfl
  | cons p ps ih =>
    cases p with
    | char c => exact ih
    | bracket =>
      intro m hm
      rcases List.mem_append.1 hm with hm | hm
      · exact isPart_textNode place _ m hm
      · exact ih m hm
    | interpolation body => exact hcons (.inl rfl) ih
    | tag t => exact hcons trivial ih
    | divert target => exact hcons (.inr ⟨⟨target, rfl⟩, rfl⟩) ih

theorem isPart_nodesOf (place : Place) (ps : List Piece) : ∀ m ∈ nodesOf place ps, IsPart place m := by
  intro m hm
  rcases List.mem_append.1 hm with hm | hm
  · exact isPart_textNode place _ m hm
  · exact isPart_nodesFrom place ps m hm

theorem of_mem_ofNodes {place : Place} {ns : List Node} (hns : ∀ m ∈ ns, IsPart place m) {ancestry : List Container}
    {siblings : List Node} {index : Nat} {c : Candidate} (hc : c ∈ Candidate.ofNodes ancestry siblings index ns) :
    c.place = place ∧ c.siblings = siblings ∧ c.ancestry = ancestry ∧ .text c.raw (some place) ∈ ns ∧
      isBlankText c.raw = false := by
  induction ns generalizing index with
  | nil => cases hc
  | cons n ns ih =>
    rw [Candidate.ofNodes, List.mem_append] at hc
    rcases hc with hc | hc
    · have hn := hns n List.mem_cons_self
      cases n with
      | text t p =>
        obtain rfl : p = some place := hn
        rw [Candidate.ofNode] at hc
        split at hc
        · cases hc
        · next hblank =>
          rw [List.mem_singleton.1 hc]
          exact ⟨rfl, rfl, rfl, List.mem_cons_self, Bool.not_eq_true _ ▸ hblank⟩
      | tag t p => cases hc
      | branch role p content =>
        rcases hn with hlogic | ⟨⟨target, rfl⟩, rfl⟩
        · rw [Candidate.ofNode_logic _ _ _ _ _ hlogic] at hc
          cases hc
        · cases hc
    · obtain ⟨hplace, hsiblings, hancestry, htext, hblank⟩ := ih (fun m hm => hns m (List.mem_cons_of_mem _ hm)) hc
      exact ⟨hplace, hsiblings, hancestry, List.mem_cons_of_mem _ htext, hblank⟩

theorem role_of_narrative? {role : Role} {state : BracketState} {body : Text}
    (h : form.narrative? = some (role, state, body)) : role.isLogic = false ∧ ∀ c, role ≠ .container c := by
  cases form <;> cases h <;> exact ⟨rfl, nofun⟩

/-- A candidate of the branch of a line is narrative and stands among everything on the line. -/
theorem of_mem_lineBranch? {n : Node} (h : lineBranch? file line form = some n) {ancestry : List Container}
    {siblings : List Node} {index : Nat} {c : Candidate} (hc : c ∈ Candidate.ofNode ancestry siblings index n) :
    c.place = ⟨some file, line⟩ ∧ c.ancestry = ancestry ∧
      ∃ role state body ps, form.narrative? = some (role, state, body) ∧ piecesOf state body = .ok ps ∧ ps ≠ [] ∧
        c.siblings = nodesOf ⟨some file, line⟩ ps ∧ .text c.raw (some ⟨some file, line⟩) ∈ nodesOf ⟨some file, line⟩ ps ∧
        isBlankText c.raw = false := by
  obtain ⟨role, state, body, ps, hform, hread, rfl⟩ | ⟨name, value, -, rfl⟩ := lineBranch?_cases h
  · obtain ⟨hlogic, hcontainer⟩ := role_of_narrative? hform
    rw [Candidate.ofNode_branch _ _ _ _ _ hlogic hcontainer] at hc
    obtain ⟨hplace, hsiblings, hancestry, htext, hblank⟩ := of_mem_ofNodes (isPart_nodesOf _ ps) hc
    refine ⟨hplace, hancestry, role, state, body, ps, hform, hread, ?_, hsiblings, htext, hblank⟩
    rintro rfl
    cases hc
  · cases hc

/-! ### Candidates and the lines they stand on -/

/-- Every candidate of a node that is placed in a file stands on a line branch below the node. -/
def FromLines (file : Text) (n : Node) : Prop :=
  ∀ ancestry siblings index, ∀ c ∈ Candidate.ofNode ancestry siblings index n, c.place.file = some file →
    ∃ b ∈ lineBranches n, (∃ siblings' index', c ∈ Candidate.ofNode c.ancestry siblings' index' b) ∧
      ∀ k ∈ c.ancestry, k ∈ ancestry ∨ isContainerName k.name = true

theorem fromLines_ofNodes {ns : List Node} (hns : ∀ n ∈ ns, FromLines file n) {ancestry : List Container}
    {siblings : List Node} {index : Nat} {c : Candidate} (hc : c ∈ Candidate.ofNodes ancestry siblings index ns)
    (hfile : c.place.file = some file) :
    ∃ b ∈ lineBranchesIn ns, (∃ siblings' index', c ∈ Candidate.ofNode c.ancestry siblings' index' b) ∧
      ∀ k ∈ c.ancestry, k ∈ ancestry ∨ isContainerName k.name = true := by
  induction ns generalizing index with
  | nil => cases hc
  | cons n ns ih =>
    rw [Candidate.ofNodes, List.mem_append] at hc
    rcases hc with hc | hc
    · obtain ⟨b, hb, hrest⟩ := hns n List.mem_cons_self _ _ _ c hc hfile
      exact ⟨b, List.mem_append_left _ hb, hrest⟩
    · obtain ⟨b, hb, hrest⟩ := ih (fun m hm => hns m (List.mem_cons_of_mem _ hm)) hc
      exact ⟨b, List.mem_append_right _ hb, hrest⟩

theorem fromLines_container (c : Container) (place : Option Place) (content : List Node)
    (hname : isContainerName c.name = true) (hcontent : ∀ n ∈ content, FromLines file n) :
    FromLines file (.branch (.container c) place content) := by
  intro ancestry siblings index d hd hfile
  rw [Candidate.ofNode_container] at hd
  obtain ⟨b, hb, hmem, hancestry⟩ := fromLines_ofNodes hcontent hd hfile
  refine ⟨b, hb, hmem, fun k hk => ?_⟩
  rcases hancestry k hk with hk | hk
  · split at hk
    · exact .inl hk
    · rcases List.mem_append.1 hk with hk | hk
      · exact .inl hk
      · rw [List.mem_singleton.1 hk]
        exact .inr hname
  · exact .inr hk

theorem fromLines_lineBranch? {n : Node} (h : lineBranch? file line form = some n) : FromLines file n := by
  intro ancestry siblings index c hc _
  obtain ⟨-, hancestry, -⟩ := of_mem_lineBranch? h hc
  refine ⟨n, ?_, ⟨siblings, index, hancestry ▸ hc⟩, fun k hk => .inl (hancestry ▸ hk)⟩
  rw [lineBranches_of_lineBranch? h]
  exact List.mem_cons_self

/-! ### Included files -/

/-- Every candidate of a node has a property, whatever surrounds the node. -/
def EachCandidate (P : Candidate → Prop) (n : Node) : Prop :=
  ∀ ancestry siblings index, ∀ c ∈ Candidate.ofNode ancestry siblings index n, P c

section

variable {P : Candidate → Prop}

theorem eachCandidate_ofNodes {ns : List Node} (hns : ∀ n ∈ ns, EachCandidate P n) {ancestry : List Container}
    {siblings : List Node} {index : Nat} {c : Candidate} (hc : c ∈ Candidate.ofNodes ancestry siblings index ns) : P c := by
  induction ns generalizing index with
  | nil => cases hc
  | cons n ns ih =>
    rw [Candidate.ofNodes, List.mem_append] at hc
    rcases hc with hc | hc
    · exact hns n List.mem_cons_self _ _ _ c hc
    · exact ih (fun m hm => hns m (List.mem_cons_of_mem _ hm)) hc

theorem eachCandidate_container (c : Container) (place : Option Place) (content : List Node)
    (hcontent : ∀ n ∈ content, EachCandidate P n) : EachCandidate P (.branch (.container c) place content) := by
  intro ancestry siblings index d hd
  rw [Candidate.ofNode_container] at hd
  exact eachCandidate_ofNodes hcontent hd

theorem eachCandidate_inclusion (name : Text) (place : Option Place) (content : List Node)
    (hcontent : ∀ n ∈ content, EachCandidate P n) : EachCandidate P (.branch (.inclusion name) place content) := by
  intro ancestry siblings index d hd
  rw [Candidate.ofNode_branch _ _ _ _ _ rfl fun _ h => by cases h] at hd
  exact eachCandidate_ofNodes hcontent hd

end

/-- No candidate of a node is placed in one of some files. -/
def Avoids (seen : List Text) (n : Node) : Prop := EachCandidate (fun c => ∃ f, c.place.file = some f ∧ f ∉ seen) n

variable {seen : List Text}

theorem avoids_lineBranch? (hfile : file ∉ seen) {n : Node} (h : lineBranch? file line form = some n) : Avoids seen n := by
  intro ancestry siblings index c hc
  exact ⟨file, by rw [(of_mem_lineBranch? h hc).1], hfile⟩

/-! ### Reading files -/

section

variable {readFile : Text → Text → Progress → Outcome (List Node × Progress)} {page page' : Page}
  {progress progress' : Progress} {P : Node → Prop} {Q : List Text → Prop}

theorem LineEffect.fileNames (h : LineEffect library readFile file line page progress form page' progress') :
    progress'.fileNames = progress.fileNames ∨
      ∃ name t nodes, name ∉ progress.fileNames ∧ library.find? name = some (.ok t) ∧
        readFile name t progress = .ok (nodes, progress') := by
  cases h with
  | included hmem hfind hread => exact .inr ⟨_, _, _, hmem, hfind, hread⟩
  | empty | repeated | knot | stitch | branch => exact .inl rfl

/-- What the branches of all lines and all included files have, every node of a page has, for as long as the files read so far allow it. -/
theorem readLines_holds {ls : List Text}
    (h : readLines library readFile file line ls page progress = .ok (page', progress'))
    (hcontainer : ∀ c place content, isContainerName c.name = true → (∀ n ∈ content, P n) →
      P (.branch (.container c) place content))
    (hbranch : ∀ i l n, ls[i]? = some l → lineBranch? file (line + i) (.ofCode (strip (codeOf l))) = some n → P n)
    (hinclude : ∀ name t place nodes progress progress', Q progress.fileNames → name ∉ progress.fileNames →
      library.find? name = some (.ok t) → readFile name t progress = .ok (nodes, progress') →
      Q progress'.fileNames ∧ P (.branch (.inclusion name) place nodes))
    (hQ : Q progress.fileNames) (hpage : page.Holds P) : Q progress'.fileNames ∧ page'.Holds P := by
  induction ls generalizing line page progress with
  | nil =>
    obtain ⟨rfl, rfl⟩ := Prod.mk.inj (Except.ok.inj h)
    exact ⟨hQ, hpage⟩
  | cons l ls ih =>
    obtain ⟨mid, progress₁, heffect, hrest⟩ := readLines_cons_ok h
    have hmid : Q progress₁.fileNames := by
      rcases heffect.fileNames with heq | ⟨name, t, nodes, hmem, hfind, hread⟩
      · rwa [heq]
      · exact (hinclude name t none nodes _ _ hQ hmem hfind hread).1
    have hlater : ∀ i k n, ls[i]? = some k → lineBranch? file (line + 1 + i) (.ofCode (strip (codeOf k))) = some n → P n :=
      fun i k n hk hn => hbranch (i + 1) k n hk (by rwa [Nat.add_comm i 1, ← Nat.add_assoc])
    exact ih hrest hlater hmid (hpage.effect heffect hcontainer (fun n hn => hbranch 0 l n rfl hn)
      fun name t nodes hmem hfind hread => (hinclude name t _ nodes _ _ hQ hmem hfind hread).2)

end

theorem readFile_succ_ok {depth : Nat} {name t : Text} {progress progress' : Progress} {nodes : List Node}
    (h : readFile library (depth + 1) name t progress = .ok (nodes, progress')) :
    ∃ page, readLines library (readFile library depth) name 1 (lines (dropMarks t)) {}
      { progress with fileNames := progress.fileNames ++ [name] } = .ok (page, progress') ∧ nodes = page.nodes := by
  rw [readFile] at h
  dsimp only at h
  cases hread : readLines library (readFile library depth) name 1 (lines (dropMarks t)) {}
      { progress with fileNames := progress.fileNames ++ [name] } with
  | error e => rw [hread] at h; cases h
  | ok found =>
    rw [hread] at h
    obtain ⟨rfl, rfl⟩ := Prod.mk.inj (Except.ok.inj h)
    exact ⟨found.1, rfl, rfl⟩

/-- A file that is read brings in no text of the files read before it. -/
theorem readFile_avoids {depth : Nat} {name t : Text} {progress progress' : Progress} {nodes : List Node}
    (h : readFile library depth name t progress = .ok (nodes, progress')) (hname : name ∉ progress.fileNames) :
    (∀ f ∈ progress.fileNames, f ∈ progress'.fileNames) ∧ ∀ n ∈ nodes, Avoids progress.fileNames n := by
  induction depth generalizing name t progress progress' nodes with
  | zero =>
    obtain ⟨rfl, rfl⟩ := Prod.mk.inj (Except.ok.inj h)
    exact ⟨fun f hf => hf, fun n hn => absurd hn List.not_mem_nil⟩
  | succ depth ih =>
    obtain ⟨page, hread, rfl⟩ := readFile_succ_ok h
    have hcontainer : ∀ c place content, isContainerName c.name = true → (∀ n ∈ content, Avoids progress.fileNames n) →
        Avoids progress.fileNames (.branch (.container c) place content) :=
      fun c place content _ => eachCandidate_container c place content
    have hinclude : ∀ inner u place ns (before after : Progress), (∀ f ∈ progress.fileNames, f ∈ before.fileNames) →
        inner ∉ before.fileNames → library.find? inner = some (.ok u) →
        readFile library depth inner u before = .ok (ns, after) →
        (∀ f ∈ progress.fileNames, f ∈ after.fileNames) ∧
          Avoids progress.fileNames (.branch (.inclusion inner) place ns) := by
      intro inner u place ns before after hbefore hinner _ hread
      obtain ⟨hmore, havoids⟩ := ih hread hinner
      refine ⟨fun f hf => hmore f (hbefore f hf), eachCandidate_inclusion inner place ns fun n hn => ?_⟩
      intro ancestry siblings index c hc
      obtain ⟨f, hf, hnot⟩ := havoids n hn ancestry siblings index c hc
      exact ⟨f, hf, fun hmem => hnot (hbefore f hmem)⟩
    obtain ⟨hkept, hpage⟩ := readLines_holds (Q := fun names => ∀ f ∈ progress.fileNames, f ∈ names) hread hcontainer
      (fun _ _ n _ hn => avoids_lineBranch? hname hn) hinclude (fun f hf => List.mem_append_left _ hf) .empty
    exact ⟨hkept, hpage.nodes hcontainer⟩

/-- What was read of a file is all from its lines, if the file is the first one. -/
theorem fromLines_readFile {depth : Nat} {t : Text} {page : Page} {progress : Progress}
    (h : readLines library (readFile library depth) file 1 (lines (dropMarks t)) {} ⟨[file], []⟩ = .ok (page, progress)) :
    ∀ n ∈ page.nodes, FromLines file n := by
  have hinclude : ∀ name u place ns (before after : Progress), file ∈ before.fileNames → name ∉ before.fileNames →
      library.find? name = some (.ok u) → readFile library depth name u before = .ok (ns, after) →
      file ∈ after.fileNames ∧ FromLines file (.branch (.inclusion name) place ns) := by
    intro name u place ns before after hbefore hname _ hread
    obtain ⟨hkept, havoids⟩ := readFile_avoids hread hname
    refine ⟨hkept file hbefore, fun ancestry siblings index c hc hfile => ?_⟩
    obtain ⟨f, hf, hnot⟩ := eachCandidate_inclusion name place ns havoids ancestry siblings index c hc
    obtain rfl := Option.some.inj (hf.symm.trans hfile)
    exact absurd hbefore hnot
  have hstart : file ∈ [file] := List.mem_singleton_self file
  obtain ⟨-, hpage⟩ := readLines_holds (Q := fun names => file ∈ names) h fromLines_container
    (fun _ _ n _ hn => fromLines_lineBranch? hn) hinclude hstart .empty
  exact hpage.nodes fromLines_container

end StoryReader

open StoryReader

variable {library : Library} {file t : Text} {story : Story}

theorem exists_page_of_parse (h : Story.parse library file t = .ok story) :
    ∃ page progress, readLines library (readFile library (library.files.length + library.stored)) file 1
      (lines (dropMarks t)) {} ⟨[file], []⟩ = .ok (page, progress) ∧
      story = ⟨.branch .story (some ⟨some file, 1⟩) page.nodes, progress.fileNames, progress.knots⟩ := by
  unfold Story.parse at h
  cases hread : readFile library library.depth file t ⟨[], []⟩ with
  | error e => rw [hread] at h; cases h
  | ok found =>
    rw [hread] at h
    obtain ⟨page, hlines, hnodes⟩ := readFile_succ_ok hread
    refine ⟨page, found.2, hlines, ?_⟩
    rw [← Except.ok.inj h, ← hnodes]

theorem parse_of_page {page : Page} {progress : Progress}
    (h : readLines library (readFile library (library.files.length + library.stored)) file 1
      (lines (dropMarks t)) {} ⟨[file], []⟩ = .ok (page, progress)) :
    Story.parse library file t =
      .ok ⟨.branch .story (some ⟨some file, 1⟩) page.nodes, progress.fileNames, progress.knots⟩ := by
  have hread : readFile library library.depth file t ⟨[], []⟩ = .ok (page.nodes, progress) := by
    show readFile library (library.files.length + library.stored + 1) file t ⟨[], []⟩ = _
    rw [readFile]
    show (readLines library _ file 1 (lines (dropMarks t)) {} ⟨[file], []⟩ >>= _) = _
    rw [h]
    rfl
  unfold Story.parse
  rw [hread]
  rfl

/-- The branches of a story are those of the lines of its root file, in their order. -/
theorem lineBranches_parse {page : Page} {progress : Progress}
    (h : readLines library (readFile library (library.files.length + library.stored)) file 1
      (lines (dropMarks t)) {} ⟨[file], []⟩ = .ok (page, progress)) :
    lineBranchesIn page.nodes = branchesFrom file 1 (lines (dropMarks t)) := by
  rw [lineBranchesIn_readLines h rfl]
  rfl

theorem mem_branchesFrom_iff {n : Node} {line : Nat} {ls : List Text} :
    n ∈ branchesFrom file line ls ↔
      ∃ i l, ls[i]? = some l ∧ lineBranch? file (line + i) (.ofCode (strip (codeOf l))) = some n := by
  induction ls generalizing line with
  | nil =>
    constructor
    · intro hn
      cases hn
    · rintro ⟨i, l, hl, -⟩
      cases hl
  | cons l ls ih =>
    rw [branchesFrom, List.mem_append, Option.mem_toList, ih]
    constructor
    · rintro (hn | ⟨i, k, hk, hbranch⟩)
      · exact ⟨0, l, rfl, hn⟩
      · refine ⟨i + 1, k, hk, ?_⟩
        rwa [Nat.add_right_comm] at hbranch
    · rintro ⟨i, k, hk, hbranch⟩
      cases i with
      | zero =>
        obtain rfl := Option.some.inj hk
        exact .inl hbranch
      | succ i =>
        refine .inr ⟨i, k, hk, ?_⟩
        rwa [Nat.add_right_comm]

/-- A piece of narrative text in the root file stands among what was read from one of its lines. -/
theorem exists_line_of_candidate (hparse : Story.parse library file t = .ok story) {c : Candidate}
    (hc : c ∈ Candidate.ofTree story.root) (hfile : c.place.file = some file) :
    ∃ i l role state body ps, (lines (dropMarks t))[i]? = some l ∧
      (ofCode (strip (codeOf l))).narrative? = some (role, state, body) ∧ piecesOf state body = .ok ps ∧ ps ≠ [] ∧
      c.place = ⟨some file, ((1 + i : Nat) : Int)⟩ ∧ c.siblings = nodesOf c.place ps ∧
      ∀ k ∈ c.ancestry, isContainerName k.name = true := by
  obtain ⟨page, progress, hlines, rfl⟩ := exists_page_of_parse hparse
  have hnodes : c ∈ Candidate.ofNodes [] page.nodes 0 page.nodes := Candidate.ofTree_story _ _ ▸ hc
  obtain ⟨n, hn, ⟨siblings, index, hmem⟩, hancestry⟩ := fromLines_ofNodes (fromLines_readFile hlines) hnodes hfile
  rw [lineBranches_parse hlines] at hn
  obtain ⟨i, l, hl, hbranch⟩ := mem_branchesFrom_iff.1 hn
  obtain ⟨hplace, -, role, state, body, ps, hform, hread, hne, hsiblings, -, -⟩ := of_mem_lineBranch? hbranch hmem
  refine ⟨i, l, role, state, body, ps, hl, hform, hread, hne, hplace, ?_, fun k hk => ?_⟩
  · rw [hplace]
    exact hsiblings
  · exact (hancestry k hk).resolve_left List.not_mem_nil

end LineTags
