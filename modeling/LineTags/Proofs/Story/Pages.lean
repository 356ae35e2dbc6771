import LineTags.Proofs.Story.Outline
import LineTags.Proofs.Story.TaggedForm
import LineTags.Story.Parser

/-!
# Pages

Reading a line does one of a few things to a page, `LineEffect`: it leaves the page alone, or adds an included file, a knot, a stitch or the branch of the line. Everything about a whole file is proved from these: that the nodes of the page keep a property that containers pass on, that the branches of the page are those of the lines in their order, and that two pages with the same outline keep it.
-/

namespace LineTags

open Text LineForm

/-! ### The branches of lines -/

namespace Node

mutual

/-- The branches below a node that stand for a line of the file itself. -/
def lineBranches : Node → List Node
  | .text _ _ | .tag _ _ => []
  | .branch role place content =>
    match role with
    | .container _ | .story => lineBranchesIn content
    | .inclusion _ => []
    | _ => [.branch role place content]

def lineBranchesIn : List Node → List Node
  | [] => []
  | n :: ns => lineBranches n ++ lineBranchesIn ns

end

theorem lineBranchesIn_append (ns ms : List Node) :
    lineBranchesIn (ns ++ ms) = lineBranchesIn ns ++ lineBranchesIn ms := by
  induction ns with
  | nil => rfl
  | cons n ns ih => rw [List.cons_append, lineBranchesIn, lineBranchesIn, ih, List.append_assoc]

theorem lineBranchesIn_singleton (n : Node) : lineBranchesIn [n] = lineBranches n := List.append_nil _

variable (hidden : Text → Option Place → Bool)

mutual

/-- The outline of a tree has the outlines of its lines. -/
theorem lineBranches_outline? : ∀ n : Node,
    lineBranchesIn (outline? hidden n).toList = outlines hidden (lineBranches n)
  | .text t place => by
    rw [outline?, lineBranches]
    split <;> rfl
  | .tag t place => by
    rw [outline?, lineBranches]
    split <;> rfl
  | .branch role place content => by
    have ih := lineBranchesIn_outlines content
    cases role
    case container c =>
      show lineBranchesIn [.branch (.container c) place (outlines hidden content)] = _
      rw [lineBranchesIn_singleton]
      exact ih
    case story =>
      show lineBranchesIn [.branch .story place (outlines hidden content)] = _
      rw [lineBranchesIn_singleton]
      exact ih
    all_goals rfl

theorem lineBranchesIn_outlines : ∀ ns : List Node,
    lineBranchesIn (outlines hidden ns) = outlines hidden (lineBranchesIn ns)
  | [] => rfl
  | n :: ns => by
    rw [outlines, lineBranchesIn_append, lineBranchesIn, outlines_append, lineBranches_outline? n,
      lineBranchesIn_outlines ns]

end

end Node

open Node

/-- The branch that a line becomes. Headers, includes and empty lines become none, nor does a line that is rejected. -/
def lineBranch? (file : Text) (line : Nat) (form : LineForm) : Option Node :=
  match form with
  | .logic name value =>
    some (.branch (.assignment name) (some ⟨some file, line⟩) [.text value (some ⟨some file, line⟩)])
  | form => form.narrative?.bind fun (role, state, body) =>
    (piecesOf state body).toOption.map fun ps =>
      .branch role (some ⟨some file, line⟩) (nodesOf ⟨some file, line⟩ ps)

namespace StoryReader

variable {library : Library} {readFile : Text → Text → Progress → Outcome (List Node × Progress)} {file : Text}
  {line : Nat} {form : LineForm} {page page' : Page} {progress progress' : Progress}

theorem readLine_narrative {role : Role} {state : BracketState} {body : Text}
    (h : form.narrative? = some (role, state, body)) :
    readLine library readFile file line form page progress =
      (readBranch page file line role state body).map fun page => (page, progress) := by
  cases form <;> cases h <;> rfl

theorem lineBranch?_narrative {role : Role} {state : BracketState} {body : Text}
    (h : form.narrative? = some (role, state, body)) :
    lineBranch? file line form = (piecesOf state body).toOption.map fun ps =>
      .branch role (some ⟨some file, line⟩) (nodesOf ⟨some file, line⟩ ps) := by
  cases form <;> cases h <;> rfl

theorem lineBranch?_of_ok (file : Text) (line : Nat) {role : Role} {state : BracketState} {body : Text} {ps : List Piece}
    (h : form.narrative? = some (role, state, body)) (hpieces : piecesOf state body = .ok ps) :
    lineBranch? file line form = some (.branch role (some ⟨some file, line⟩) (nodesOf ⟨some file, line⟩ ps)) := by
  rw [lineBranch?_narrative h, hpieces]
  rfl

/-- The branch of a line is narrative with all that was read of it, or logic. -/
theorem lineBranch?_cases {n : Node} (h : lineBranch? file line form = some n) :
    (∃ role state body ps, form.narrative? = some (role, state, body) ∧ piecesOf state body = .ok ps ∧
      n = .branch role (some ⟨some file, line⟩) (nodesOf ⟨some file, line⟩ ps)) ∨
    (∃ name value, form = .logic name value ∧
      n = .branch (.assignment name) (some ⟨some file, line⟩) [.text value (some ⟨some file, line⟩)]) := by
  cases hform : form.narrative? with
  | some found =>
    obtain ⟨role, state, body⟩ := found
    rw [lineBranch?_narrative hform] at h
    cases hread : piecesOf state body with
    | error e => rw [hread] at h; cases h
    | ok ps =>
      rw [hread] at h
      exact .inl ⟨role, state, body, ps, rfl, hread, (Option.some.inj h).symm⟩
  | none =>
    cases form with
    | logic name value => exact .inr ⟨name, value, rfl, (Option.some.inj h).symm⟩
    | divert body | choice body | gather body | narrative body => cases hform
    | empty | inclusion name | knotHeader name? | stitchHeader name? | brokenDeclaration => cases h

theorem readBranch_of_ok {role : Role} {state : BracketState} {body : Text} {ps : List Piece}
    (h : piecesOf state body = .ok ps) :
    readBranch page file line role state body =
      .ok (page.add (.branch role (some ⟨some file, line⟩) (nodesOf ⟨some file, line⟩ ps))) := by
  unfold readBranch
  dsimp only
  rw [readInline, h]
  rfl

/-- A line with a branch adds this branch to the page. -/
theorem readLine_of_branch {n : Node} (h : lineBranch? file line form = some n) :
    readLine library readFile file line form page progress = .ok (page.add n, progress) := by
  obtain ⟨role, state, body, ps, hform, hread, rfl⟩ | ⟨name, value, rfl, rfl⟩ := lineBranch?_cases h
  · rw [readLine_narrative hform, readBranch_of_ok hread]
    rfl
  · rfl

theorem readLine_inclusion {written : Text} :
    readLine library readFile file line (.inclusion written) page progress =
      if Path.included file written ∈ progress.fileNames then .ok (page, progress)
      else
        match library.find? (Path.included file written) with
        | none => reject (.includeNotFound written) file line
        | some (.error fault) => .error (.unreadable fault)
        | some (.ok t) => (readFile (Path.included file written) t progress).map fun (nodes, progress) =>
            (page.addInclude (.branch (.inclusion (Path.included file written)) (some ⟨some file, line⟩) nodes), progress) := by
  unfold readLine
  dsimp only
  split
  · rfl
  · cases library.find? (Path.included file written) with
    | none => rfl
    | some found =>
      cases found with
      | error e => rfl
      | ok t =>
        dsimp only
        cases readFile (Path.included file written) t progress <;> rfl

/-- What one line does to a page and to the progress of the whole story. -/
inductive LineEffect (library : Library) (readFile : Text → Text → Progress → Outcome (List Node × Progress)) (file : Text)
    (line : Nat) (page : Page) (progress : Progress) : LineForm → Page → Progress → Prop
  | empty : LineEffect library readFile file line page progress .empty page progress
  | repeated {written : Text} : Path.included file written ∈ progress.fileNames →
    LineEffect library readFile file line page progress (.inclusion written) page progress
  | included {written t : Text} {nodes : List Node} {progress' : Progress} :
    Path.included file written ∉ progress.fileNames → library.find? (Path.included file written) = some (.ok t) →
    readFile (Path.included file written) t progress = .ok (nodes, progress') →
    LineEffect library readFile file line page progress (.inclusion written)
      (page.addInclude (.branch (.inclusion (Path.included file written)) (some ⟨some file, line⟩) nodes)) progress'
  | knot {name : Text} : name ∉ progress.knotNames →
    LineEffect library readFile file line page progress (.knotHeader (some name)) (page.openKnot name ⟨some file, line⟩)
      { progress with knots := progress.knots ++ [(name, ⟨some file, line⟩)] }
  | stitch {k : OpenKnot} {name : Text} : page.knot = some k → name ∉ k.stitchNames →
    LineEffect library readFile file line page progress (.stitchHeader (some name))
      (page.openStitch k name ⟨some file, line⟩) progress
  | branch {form : LineForm} {n : Node} : lineBranch? file line form = some n →
    LineEffect library readFile file line page progress form (page.add n) progress

theorem readLine_of_effect (h : LineEffect library readFile file line page progress form page' progress') :
    readLine library readFile file line form page progress = .ok (page', progress') := by
  cases h with
  | empty => rfl
  | repeated hmem => rw [readLine_inclusion, if_pos hmem]
  | included hmem hfind hread =>
    rw [readLine_inclusion, if_neg hmem, hfind]
    dsimp only
    rw [hread]
    rfl
  | knot hname => exact if_neg hname
  | stitch hknot hname =>
    unfold readLine
    dsimp only
    rw [hknot]
    exact if_neg hname
  | branch hbranch => exact readLine_of_branch hbranch

theorem effect_of_readLine_inclusion {written : Text}
    (h : readLine library readFile file line (.inclusion written) page progress = .ok (page', progress')) :
    LineEffect library readFile file line page progress (.inclusion written) page' progress' := by
  rw [readLine_inclusion] at h
  split at h
  · next hmem =>
    obtain ⟨rfl, rfl⟩ := Prod.mk.inj (Except.ok.inj h)
    exact .repeated hmem
  next hmem =>
  cases hfind : library.find? (Path.included file written) with
  | none => rw [hfind] at h; cases h
  | some found =>
    rw [hfind] at h
    cases found with
    | error e => cases h
    | ok t =>
      dsimp only at h
      cases hread : readFile (Path.included file written) t progress with
      | error e => rw [hread] at h; cases h
      | ok found =>
        rw [hread] at h
        obtain ⟨rfl, rfl⟩ := Prod.mk.inj (Except.ok.inj h)
        exact .included hmem hfind hread

/-- A line that is read has one of the effects. -/
theorem effect_of_readLine (h : readLine library readFile file line form page progress = .ok (page', progress')) :
    LineEffect library readFile file line page progress form page' progress' := by
  cases hbranch : lineBranch? file line form with
  | some n =>
    rw [readLine_of_branch hbranch] at h
    obtain ⟨rfl, rfl⟩ := Prod.mk.inj (Except.ok.inj h)
    exact .branch hbranch
  | none =>
    have hnarrative : ∀ role state body, form.narrative? ≠ some (role, state, body) := by
      intro role state body hform
      rw [readLine_narrative hform] at h
      rw [lineBranch?_narrative hform] at hbranch
      unfold readBranch at h
      dsimp only at h
      rw [readInline] at h
      cases hread : piecesOf state body with
      | ok ps => rw [hread] at hbranch; cases hbranch
      | error e =>
        rw [hread] at h
        cases e <;> cases h
    cases form with
    | empty =>
      obtain ⟨rfl, rfl⟩ := Prod.mk.inj (Except.ok.inj h)
      exact .empty
    | inclusion written => exact effect_of_readLine_inclusion h
    | knotHeader name? =>
      cases name? with
      | none => cases h
      | some name =>
        unfold readLine at h
        dsimp only at h
        split at h
        · cases h
        · next hname =>
          obtain ⟨rfl, rfl⟩ := Prod.mk.inj (Except.ok.inj h)
          exact .knot hname
    | stitchHeader name? =>
      unfold readLine at h
      dsimp only at h
      cases hknot : page.knot with
      | none => rw [hknot] at h; cases h
      | some k =>
        rw [hknot] at h
        cases name? with
        | none => cases h
        | some name =>
          dsimp only at h
          split at h
          · cases h
          · next hname =>
            obtain ⟨rfl, rfl⟩ := Prod.mk.inj (Except.ok.inj h)
            exact .stitch hknot hname
    | logic name value => cases hbranch
    | brokenDeclaration => cases h
    | divert body => exact absurd rfl (hnarrative _ _ _)
    | choice body => exact absurd rfl (hnarrative _ _ _)
    | gather body => exact absurd rfl (hnarrative _ _ _)
    | narrative body => exact absurd rfl (hnarrative _ _ _)

/-- Reading several lines reads the first one and then the others. -/
theorem readLines_cons_ok {l : Text} {ls : List Text}
    (h : readLines library readFile file line (l :: ls) page progress = .ok (page', progress')) :
    ∃ mid progress₁, LineEffect library readFile file line page progress (.ofCode (strip (codeOf l))) mid progress₁ ∧
      readLines library readFile file (line + 1) ls mid progress₁ = .ok (page', progress') := by
  rw [readLines] at h
  cases hline : readLine library readFile file line (.ofCode (strip (codeOf l))) page progress with
  | error e => rw [hline] at h; cases h
  | ok found =>
    obtain ⟨mid, progress₁⟩ := found
    rw [hline] at h
    exact ⟨mid, progress₁, effect_of_readLine hline, h⟩

theorem readLines_cons {l : Text} {ls : List Text} {mid : Page} {progress₁ : Progress}
    (h : LineEffect library readFile file line page progress (.ofCode (strip (codeOf l))) mid progress₁) :
    readLines library readFile file line (l :: ls) page progress =
      readLines library readFile file (line + 1) ls mid progress₁ := by
  rw [readLines, readLine_of_effect h]
  rfl

/-! ### What all nodes of a page have in common -/

/-- Everything that was added to a page has a property, and its containers have valid names. -/
structure Page.Holds (P : Node → Prop) (page : Page) : Prop where
  before : ∀ n ∈ page.before, P n
  knotName : ∀ k, page.knot = some k → isContainerName k.name = true
  knot : ∀ k, page.knot = some k → ∀ n ∈ k.content, P n
  stitchName : ∀ k s, page.knot = some k → k.stitch = some s → isContainerName s.name = true
  stitch : ∀ k s, page.knot = some k → k.stitch = some s → ∀ n ∈ s.content, P n
  after : ∀ n ∈ page.after, P n

namespace Page.Holds

variable {P : Node → Prop}

theorem empty : Page.Holds P {} where
  before _ h := absurd h List.not_mem_nil
  knotName _ h := nomatch h
  knot _ h := nomatch h
  stitchName _ _ h := nomatch h
  stitch _ _ h := nomatch h
  after _ h := absurd h List.not_mem_nil

theorem forall_mem_append {P : Node → Prop} {ns ms : List Node} (hns : ∀ n ∈ ns, P n) (hms : ∀ n ∈ ms, P n) :
    ∀ n ∈ ns ++ ms, P n := by
  intro n hn
  rcases List.mem_append.1 hn with hn | hn
  · exact hns n hn
  · exact hms n hn

theorem forall_mem_singleton {P : Node → Prop} {m : Node} (hm : P m) : ∀ n ∈ [m], P n := by
  intro n hn
  rwa [List.mem_singleton.1 hn]

variable (hcontainer : ∀ c place content, isContainerName c.name = true → (∀ n ∈ content, P n) →
  P (.branch (.container c) place content))

include hcontainer in
theorem close (h : page.Holds P) {k : OpenKnot} (hk : page.knot = some k) : ∀ n ∈ k.close.content, P n := by
  unfold OpenKnot.close
  split
  · next s hs =>
    refine forall_mem_append (h.knot k hk) (forall_mem_singleton ?_)
    exact hcontainer _ _ _ (h.stitchName k s hk hs) (h.stitch k s hk hs)
  · exact h.knot k hk

include hcontainer in
theorem nodes (h : page.Holds P) : ∀ n ∈ page.nodes, P n := by
  refine forall_mem_append (forall_mem_append h.before ?_) h.after
  intro n hn
  cases hk : page.knot with
  | none => rw [hk] at hn; cases hn
  | some k =>
    rw [hk] at hn
    rw [List.mem_singleton.1 hn]
    exact hcontainer _ _ _ (h.knotName k hk) (h.close hcontainer hk)

theorem add (h : page.Holds P) {n : Node} (hn : P n) : (page.add n).Holds P := by
  unfold Page.add
  cases hk : page.knot with
  | none =>
    refine ⟨forall_mem_append h.before (forall_mem_singleton hn), ?_, ?_, ?_, ?_, h.after⟩
    · rintro _ ⟨⟩
    · rintro _ ⟨⟩
    · rintro _ _ ⟨⟩
    · rintro _ _ ⟨⟩
  | some k =>
    dsimp only
    cases hs : k.stitch with
    | none =>
      refine ⟨h.before, ?_, ?_, ?_, ?_, h.after⟩
      · rintro _ ⟨⟩
        exact h.knotName k hk
      · rintro _ ⟨⟩
        exact forall_mem_append (h.knot k hk) (forall_mem_singleton hn)
      · rintro _ _ ⟨⟩ ⟨⟩
      · rintro _ _ ⟨⟩ ⟨⟩
    | some s =>
      refine ⟨h.before, ?_, ?_, ?_, ?_, h.after⟩
      · rintro _ ⟨⟩
        exact h.knotName k hk
      · rintro _ ⟨⟩
        exact h.knot k hk
      · rintro _ _ ⟨⟩ ⟨⟩
        exact h.stitchName k s hk hs
      · rintro _ _ ⟨⟩ ⟨⟩
        exact forall_mem_append (h.stitch k s hk hs) (forall_mem_singleton hn)

theorem addInclude (h : page.Holds P) {n : Node} (hn : P n) : (page.addInclude n).Holds P := by
  have hknot : (page.addInclude n).knot = page.knot := by
    unfold Page.addInclude
    split <;> rfl
  refine ⟨?_, hknot ▸ h.knotName, hknot ▸ h.knot, hknot ▸ h.stitchName, hknot ▸ h.stitch, ?_⟩
  · unfold Page.addInclude
    split
    · exact forall_mem_append h.before (forall_mem_singleton hn)
    · exact h.before
  · unfold Page.addInclude
    split
    · exact h.after
    · exact forall_mem_append h.after (forall_mem_singleton hn)

include hcontainer in
theorem openKnot (h : page.Holds P) {name : Text} (hname : isContainerName name = true) (place : Place) :
    (page.openKnot name place).Holds P := by
  refine ⟨h.nodes hcontainer, ?_, ?_, ?_, ?_, fun n hn => absurd hn List.not_mem_nil⟩
  · rintro _ ⟨⟩
    exact hname
  · rintro _ ⟨⟩ n hn
    exact absurd hn List.not_mem_nil
  · rintro _ _ ⟨⟩ ⟨⟩
  · rintro _ _ ⟨⟩ ⟨⟩

include hcontainer in
theorem openStitch (h : page.Holds P) {k : OpenKnot} (hk : page.knot = some k) {name : Text}
    (hname : isContainerName name = true) (place : Place) : (page.openStitch k name place).Holds P := by
  have hclosed : k.close.name = k.name := by
    unfold OpenKnot.close
    split <;> rfl
  refine ⟨h.before, ?_, ?_, ?_, ?_, h.after⟩
  · rintro _ ⟨⟩
    show isContainerName k.close.name = true
    rw [hclosed]
    exact h.knotName k hk
  · rintro _ ⟨⟩
    exact h.close hcontainer hk
  · rintro _ _ ⟨⟩ ⟨⟩
    exact hname
  · rintro _ _ ⟨⟩ ⟨⟩ n hn
    exact absurd hn List.not_mem_nil

end Page.Holds

theorem isContainerName_of_asContainerName? {word : Option Text} {name : Text} (h : asContainerName? word = some name) :
    isContainerName name = true := (Option.filter_eq_some_iff.1 h).2

/-- The names in headers are those of containers. -/
theorem isContainerName_of_ofCode {code name : Text}
    (h : ofCode code = .knotHeader (some name) ∨ ofCode code = .stitchHeader (some name)) : isContainerName name = true := by
  have hlogic : ∀ body, ofLogic body ≠ .knotHeader (some name) ∧ ofLogic body ≠ .stitchHeader (some name) := by
    intro body
    unfold ofLogic
    dsimp only
    split <;> exact ⟨nofun, nofun⟩
  unfold ofCode at h
  split at h
  · exact absurd h (by rintro (h | h) <;> cases h)
  split at h
  · exact absurd h (by rintro (h | h) <;> cases h)
  split at h
  · rcases h with h | h
    · exact isContainerName_of_asContainerName? (LineForm.knotHeader.inj h)
    · cases h
  split at h
  · rcases h with h | h
    · cases h
    · exact isContainerName_of_asContainerName? (LineForm.stitchHeader.inj h)
  split at h
  · rcases h with h | h
    · exact absurd h (hlogic _).1
    · exact absurd h (hlogic _).2
  split at h
  · exact absurd h (by rintro (h | h) <;> cases h)
  repeat' split at h
  all_goals exact absurd h (by rintro (h | h) <;> cases h)

theorem Page.Holds.effect {P : Node → Prop} {code : Text}
    (heffect : LineEffect library readFile file line page progress (.ofCode code) page' progress')
    (hcontainer : ∀ c place content, isContainerName c.name = true → (∀ n ∈ content, P n) →
      P (.branch (.container c) place content))
    (hbranch : ∀ n, lineBranch? file line (.ofCode code) = some n → P n)
    (hinclude : ∀ name t nodes, name ∉ progress.fileNames → library.find? name = some (.ok t) →
      readFile name t progress = .ok (nodes, progress') → P (.branch (.inclusion name) (some ⟨some file, line⟩) nodes))
    (h : page.Holds P) : page'.Holds P := by
  generalize hform : ofCode code = form at heffect hbranch
  cases heffect with
  | empty => exact h
  | repeated => exact h
  | included hmem hfind hread => exact h.addInclude (hinclude _ _ _ hmem hfind hread)
  | knot => exact h.openKnot hcontainer (isContainerName_of_ofCode (.inl hform)) _
  | stitch hknot => exact h.openStitch hcontainer hknot (isContainerName_of_ofCode (.inr hform)) _
  | branch hn => exact h.add (hbranch _ hn)

end StoryReader

end LineTags
