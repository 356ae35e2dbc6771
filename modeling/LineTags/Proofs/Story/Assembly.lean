import LineTags.Proofs.Story.Scope

/-!
# How a story is put together

A page takes each line that is read to its place: to the stitch or knot that is open, or beside them where a file is included. So the lines of a story do not come in the order of reading, but all of them come, and once each; and the knots do come in the order of reading, since only the last one on a page is open. `Adds` says this of any stretch of reading, with all files read in it. Of a whole story it says that the lines and the knots in the tree are exactly those of its files.
-/

namespace LineTags

open Text LineForm StoryReader

/-- Whether a branch holds what many lines became, not one. -/
def Role.isStructure : Role → Bool
  | container _ | story | inclusion _ => true
  | _ => false

namespace Node

mutual

/-- A node and all nodes below it, in the order of the script. -/
def all : Node → List Node
  | .text t place => [.text t place]
  | .tag t place => [.tag t place]
  | .branch role place content => .branch role place content :: allIn content

def allIn : List Node → List Node
  | [] => []
  | n :: ns => all n ++ allIn ns

end

mutual

/-- The branches of all lines below a node, also of those that an included file brings in. -/
def allLines : Node → List Node
  | .text _ _ | .tag _ _ => []
  | .branch role place content => if role.isStructure then allLinesIn content else [.branch role place content]

def allLinesIn : List Node → List Node
  | [] => []
  | n :: ns => allLines n ++ allLinesIn ns

end

/-- The name and the place of the knot that a node is. -/
def knot? : Node → Option (Text × Option Place)
  | .branch (.container ⟨.knot, name⟩) place _ => some (name, place)
  | _ => none

def knotsIn (ns : List Node) : List (Text × Option Place) := (allIn ns).filterMap knot?

/-- What is found at some nodes and at all nodes below them, in the order of the script. -/
def collect {α : Type} (f : Node → Option α) (ns : List Node) : List α := (allIn ns).filterMap f

theorem knotsIn_eq (ns : List Node) : knotsIn ns = collect knot? ns := rfl

theorem allIn_append (ns ms : List Node) : allIn (ns ++ ms) = allIn ns ++ allIn ms := by
  induction ns with
  | nil => rfl
  | cons n ns ih => rw [List.cons_append, allIn, allIn, ih, List.append_assoc]

theorem mem_allIn {m : Node} {ns : List Node} : m ∈ allIn ns ↔ ∃ n ∈ ns, m ∈ all n := by
  induction ns with
  | nil => simp [allIn]
  | cons n ns ih => simp [allIn, ih]

theorem allLines_structure {role : Role} (h : role.isStructure = true) (place : Option Place) (content : List Node) :
    allLines (.branch role place content) = allLinesIn content := by
  rw [allLines, h]
  rfl

theorem allLinesIn_append (ns ms : List Node) : allLinesIn (ns ++ ms) = allLinesIn ns ++ allLinesIn ms := by
  induction ns with
  | nil => rfl
  | cons n ns ih => rw [List.cons_append, allLinesIn, allLinesIn, ih, List.append_assoc]

theorem allLinesIn_eq_flatMap (ns : List Node) : allLinesIn ns = ns.flatMap allLines := by
  induction ns with
  | nil => rfl
  | cons n ns ih => rw [allLinesIn, ih, List.flatMap_cons]

theorem allLinesIn_singleton (n : Node) : allLinesIn [n] = allLines n := List.append_nil _

section

variable {α : Type} (f : Node → Option α)

theorem collect_append (ns ms : List Node) : collect f (ns ++ ms) = collect f ns ++ collect f ms := by
  rw [collect, allIn_append, List.filterMap_append]
  rfl

theorem collect_singleton (n : Node) : collect f [n] = (all n).filterMap f := by
  rw [collect, allIn, allIn, List.append_nil]

theorem collect_branch (role : Role) (place : Option Place) (content : List Node) :
    collect f [.branch role place content] = (f (.branch role place content)).toList ++ collect f content := by
  rw [collect_singleton, all, List.filterMap_cons]
  cases f (.branch role place content) <;> rfl

end

end Node

open Node

/-! ### The inside of a line -/

/-- What stands on a line: texts and tags, and branches that hold no other line. -/
inductive Inline : Node → Prop
  | text (t : Text) (place : Option Place) : Inline (.text t place)
  | tag (t : Text) (place : Option Place) : Inline (.tag t place)
  | branch {role : Role} {place : Option Place} {content : List Node} : role.isStructure = false →
    (∀ n ∈ content, Inline n) → Inline (.branch role place content)

theorem inline_textNode (place : Place) (t : Text) : ∀ n ∈ textNode place t, Inline n := by
  intro n hn
  unfold textNode at hn
  split at hn
  · cases hn
  · rw [List.mem_singleton.1 hn]
    exact .text _ _

theorem inline_nodesFrom (place : Place) (ps : List Piece) : ∀ n ∈ (nodesFrom place ps).2, Inline n := by
  have hcons : ∀ {n : Node} {t : Text} {ns : List Node}, Inline n → (∀ m ∈ ns, Inline m) →
      ∀ m ∈ n :: (textNode place t ++ ns), Inline m := fun hn hns =>
    List.forall_mem_cons.2 ⟨hn, Page.Holds.forall_mem_append (inline_textNode place _) hns⟩
  induction ps with
  | nil => exact Page.Holds.forall_mem_singleton (.text _ _)
  | cons p ps ih =>
    cases p with
    | char c => exact ih
    | bracket => exact Page.Holds.forall_mem_append (inline_textNode place _) ih
    | interpolation body => exact hcons (.branch rfl (Page.Holds.forall_mem_singleton (.text _ _))) ih
    | tag t => exact hcons (.tag _ _) ih
    | divert target => exact hcons (.branch rfl nofun) ih

theorem inline_of_lineBranch? {file : Text} {line : Nat} {form : LineForm} {n : Node}
    (h : lineBranch? file line form = some n) : Inline n := by
  obtain ⟨role, state, body, ps, hform, -, rfl⟩ | ⟨name, value, -, rfl⟩ := lineBranch?_cases h
  · have hrole : role.isStructure = false := by cases form <;> cases hform <;> rfl
    exact .branch hrole (Page.Holds.forall_mem_append (inline_textNode _ _) (inline_nodesFrom _ ps))
  · exact .branch rfl (Page.Holds.forall_mem_singleton (.text _ _))

theorem Inline.all {n m : Node} (h : Inline n) (hm : m ∈ n.all) : Inline m := by
  induction h with
  | text t place | tag t place =>
    rw [List.mem_singleton.1 hm]
    constructor
  | branch hrole hcontent ih =>
    rw [Node.all] at hm
    rcases List.mem_cons.1 hm with rfl | hm
    · exact .branch hrole hcontent
    · obtain ⟨k, hk, hm⟩ := mem_allIn.1 hm
      exact ih k hk hm

theorem Inline.role {role : Role} {place : Option Place} {content : List Node} (h : Inline (.branch role place content)) :
    role.isStructure = false ∧ ∀ n ∈ content, Inline n := by
  cases h with
  | branch hrole hcontent => exact ⟨hrole, hcontent⟩

/-- What is found at a node in passing: nothing on a line or at a stitch, and at a knot the same whatever it holds. -/
structure Skims {α : Type} (f : Node → Option α) (atKnot : Text → Place → Option α) : Prop where
  knot : ∀ name place content, f (.branch (.container ⟨.knot, name⟩) (some place) content) = atKnot name place
  stitch : ∀ name place content, f (.branch (.container ⟨.stitch, name⟩) place content) = none
  inline : ∀ n, Inline n → f n = none

theorem skims_knot? : Skims knot? fun name place => some (name, some place) where
  knot _ _ _ := rfl
  stitch _ _ _ := rfl
  inline n hn := by
    cases hn with
    | text | tag => rfl
    | @branch role place content hrole => cases role <;> first | rfl | cases hrole

/-! ### Pages -/

namespace StoryReader

theorem allLinesIn_nodes (page : Page) :
    allLinesIn page.nodes =
      allLinesIn page.before ++ (page.knot.elim [] fun k =>
        allLinesIn k.content ++ k.stitch.elim [] fun s => allLinesIn s.content) ++ allLinesIn page.after := by
  obtain ⟨before, knot, after⟩ := page
  unfold Page.nodes
  rw [allLinesIn_append, allLinesIn_append]
  rcases knot with _ | ⟨name, place, content, _ | s⟩
  · rfl
  · show _ ++ (allLinesIn content ++ []) ++ _ = _
    rfl
  · show _ ++ (allLinesIn (content ++ [s.node]) ++ []) ++ _ = _
    rw [allLinesIn_append, List.append_nil, allLinesIn_singleton]
    rfl

theorem allLinesIn_add (page : Page) (n : Node) :
    (allLinesIn (page.add n).nodes).Perm (allLinesIn page.nodes ++ allLines n) := by
  obtain ⟨before, knot, after⟩ := page
  rw [allLinesIn_nodes, allLinesIn_nodes]
  unfold Page.add
  rcases knot with _ | ⟨name, place, content, _ | s⟩
  all_goals
    simp only [Option.elim_none, Option.elim_some, List.append_nil, allLinesIn_append, allLinesIn_singleton,
      List.append_assoc, List.perm_append_left_iff]
    exact List.perm_append_comm

theorem allLinesIn_addInclude (page : Page) (n : Node) :
    (allLinesIn (page.addInclude n).nodes).Perm (allLinesIn page.nodes ++ allLines n) := by
  obtain ⟨before, knot, after⟩ := page
  rw [allLinesIn_nodes, allLinesIn_nodes]
  unfold Page.addInclude
  cases knot with
  | none =>
    simp only [Option.elim_none, List.append_nil, allLinesIn_append, allLinesIn_singleton, List.append_assoc,
      List.perm_append_left_iff]
    exact List.perm_append_comm
  | some k =>
    dsimp only
    rw [allLinesIn_append, allLinesIn_singleton, ← List.append_assoc]

/-- No include is put behind a knot where there is none. -/
def Page.Tidy (page : Page) : Prop := page.knot = none → page.after = []

theorem allLinesIn_openKnot (page : Page) (name : Text) (place : Place) :
    allLinesIn (page.openKnot name place).nodes = allLinesIn page.nodes := by
  rw [allLinesIn_nodes]
  show allLinesIn page.nodes ++ [] ++ [] = _
  rw [List.append_nil, List.append_nil]

theorem allLinesIn_openStitch {page : Page} {k : OpenKnot} (hk : page.knot = some k) (name : Text) (place : Place) :
    allLinesIn (page.openStitch k name place).nodes = allLinesIn page.nodes := by
  obtain ⟨before, knot, after⟩ := page
  obtain rfl : knot = some k := hk
  rw [allLinesIn_nodes, allLinesIn_nodes]
  unfold Page.openStitch OpenKnot.close
  obtain ⟨kname, kplace, content, _ | s⟩ := k
  · rfl
  · dsimp only [Option.elim_some]
    rw [allLinesIn_append, allLinesIn_singleton]
    show _ ++ (allLinesIn content ++ allLinesIn s.content ++ []) ++ _ = _
    rw [List.append_nil]

end StoryReader

namespace Skims

variable {α : Type} {f : Node → Option α} {atKnot : Text → Place → Option α}

theorem collect_inline (h : Skims f atKnot) {n : Node} (hn : Inline n) : collect f [n] = [] := by
  rw [collect_singleton, List.filterMap_eq_nil_iff]
  exact fun m hm => h.inline m (hn.all hm)

theorem collect_stitch (h : Skims f atKnot) (s : OpenStitch) : collect f [s.node] = collect f s.content := by
  rw [OpenStitch.node, collect_branch, h.stitch]
  rfl

theorem collect_nodes (h : Skims f atKnot) (page : Page) :
    collect f page.nodes =
      collect f page.before ++ (page.knot.elim [] fun k => (atKnot k.name k.place).toList ++
        (collect f k.content ++ k.stitch.elim [] fun s => collect f s.content)) ++ collect f page.after := by
  obtain ⟨before, knot, after⟩ := page
  unfold Page.nodes
  rw [collect_append, collect_append]
  rcases knot with _ | ⟨name, place, content, _ | s⟩
  · rfl
  · show _ ++ collect f [.branch (.container ⟨.knot, name⟩) (some place) content] ++ _ = _
    rw [collect_branch, h.knot, Option.elim_some, Option.elim_none, List.append_nil]
  · show _ ++ collect f [.branch (.container ⟨.knot, name⟩) (some place) (content ++ [s.node])] ++ _ = _
    rw [collect_branch, h.knot, collect_append, h.collect_stitch, Option.elim_some, Option.elim_some]

theorem collect_add (h : Skims f atKnot) {n : Node} (hn : Inline n) (page : Page) :
    collect f (page.add n).nodes = collect f page.nodes := by
  obtain ⟨before, knot, after⟩ := page
  rw [h.collect_nodes, h.collect_nodes]
  unfold Page.add
  rcases knot with _ | ⟨name, place, content, _ | s⟩
  all_goals simp only [Option.elim_none, Option.elim_some, collect_append, h.collect_inline hn, List.append_nil]

theorem collect_addInclude (h : Skims f atKnot) {page : Page} (htidy : page.Tidy) (n : Node) :
    collect f (page.addInclude n).nodes = collect f page.nodes ++ collect f [n] := by
  obtain ⟨before, knot, after⟩ := page
  rw [h.collect_nodes, h.collect_nodes]
  unfold Page.addInclude
  cases knot with
  | none =>
    obtain rfl : after = [] := htidy rfl
    simp only [Option.elim_none, collect_append, List.append_nil]
    show _ ++ [] = _ ++ [] ++ _
    rw [List.append_nil, List.append_nil]
  | some k =>
    dsimp only
    rw [collect_append, ← List.append_assoc]

theorem collect_openKnot (h : Skims f atKnot) (page : Page) (name : Text) (place : Place) :
    collect f (page.openKnot name place).nodes = collect f page.nodes ++ (atKnot name place).toList := by
  rw [h.collect_nodes]
  show collect f page.nodes ++ ((atKnot name place).toList ++ []) ++ [] = _
  rw [List.append_nil, List.append_nil]

theorem collect_openStitch (h : Skims f atKnot) {page : Page} {k : OpenKnot} (hk : page.knot = some k) (name : Text)
    (place : Place) : collect f (page.openStitch k name place).nodes = collect f page.nodes := by
  obtain ⟨before, knot, after⟩ := page
  obtain rfl : knot = some k := hk
  rw [h.collect_nodes, h.collect_nodes]
  unfold Page.openStitch OpenKnot.close
  obtain ⟨kname, kplace, content, _ | s⟩ := k
  · rfl
  · dsimp only [Option.elim_some]
    rw [collect_append, h.collect_stitch]
    show _ ++ (_ ++ (collect f content ++ collect f s.content ++ [])) ++ _ = _
    rw [List.append_nil]

end Skims

namespace StoryReader

/-! ### Stretches of reading -/

/-- The branches of the lines of a file. -/
def linesOf (file t : Text) : List Node := branchesFrom file 1 (lines (dropMarks t))

def knotEntry (k : Text × Place) : Text × Option Place := (k.1, some k.2)

/-- What a stretch of reading adds to some nodes: the branches of lines and the knots of the file that is read, and all those of other files that are read in between. The knots come in the order of reading. -/
structure Adds (source : Text → Text → Prop) (branches : List Node) (knots new : List (Text × Place))
    (files : List (Text × Text)) (before : List Node) (progress : Progress) (after : List Node) (progress' : Progress) :
    Prop where
  names : progress'.fileNames = progress.fileNames ++ files.map Prod.fst
  texts : ∀ f ∈ files, source f.1 f.2
  lines : (allLinesIn after).Perm (allLinesIn before ++ (branches ++ files.flatMap fun f => linesOf f.1 f.2))
  known : progress'.knots = progress.knots ++ new
  listed : knotsIn after = knotsIn before ++ new.map knotEntry
  fromFiles : new.Perm (knots ++ files.flatMap fun f => knotsOf f.1 f.2)
  ownOrder : knots.Sublist new
  orders : ∀ f ∈ files, (knotsOf f.1 f.2).Sublist new

theorem perm_regroup {α : Type} (a b c d : List α) : ((a ++ b) ++ (c ++ d)).Perm ((a ++ c) ++ (b ++ d)) := by
  simp only [List.append_assoc, List.perm_append_left_iff]
  rw [← List.append_assoc, ← List.append_assoc]
  exact List.perm_append_comm.append_right d

namespace Adds

variable {source : Text → Text → Prop} {branches branches' before mid after : List Node}
  {knots knots' new new' : List (Text × Place)} {files files' : List (Text × Text)} {progress progress₁ progress' : Progress}

/-- Nothing is read in between where no file is included. -/
theorem own (hnames : progress'.fileNames = progress.fileNames) (hknown : progress'.knots = progress.knots ++ knots)
    (hlines : (allLinesIn after).Perm (allLinesIn before ++ branches))
    (hlisted : knotsIn after = knotsIn before ++ knots.map knotEntry) :
    Adds source branches knots knots [] before progress after progress' where
  names := hnames.trans (List.append_nil _).symm
  texts := List.forall_mem_nil _
  lines := by rwa [List.flatMap_nil, List.append_nil]
  known := hknown
  listed := hlisted
  fromFiles := .of_eq (List.append_nil _).symm
  ownOrder := .refl _
  orders := List.forall_mem_nil _

theorem refl (before : List Node) (progress : Progress) : Adds source [] [] [] [] before progress before progress :=
  .own rfl (List.append_nil _).symm (.of_eq (List.append_nil _).symm) (List.append_nil _).symm

theorem trans (h : Adds source branches knots new files before progress mid progress₁)
    (h' : Adds source branches' knots' new' files' mid progress₁ after progress') :
    Adds source (branches ++ branches') (knots ++ knots') (new ++ new') (files ++ files') before progress after progress' where
  names := by rw [h'.names, h.names, List.map_append, List.append_assoc]
  texts f hf := (List.mem_append.1 hf).elim (h.texts f) (h'.texts f)
  lines := by
    refine (h'.lines.trans (h.lines.append_right _)).trans ?_
    rw [List.append_assoc, List.flatMap_append]
    exact (perm_regroup _ _ _ _).append_left _
  known := by rw [h'.known, h.known, List.append_assoc]
  listed := by rw [h'.listed, h.listed, List.map_append, List.append_assoc]
  fromFiles := by
    rw [List.flatMap_append]
    exact (h.fromFiles.append h'.fromFiles).trans (perm_regroup _ _ _ _)
  ownOrder := h.ownOrder.append h'.ownOrder
  orders f hf := (List.mem_append.1 hf).elim (fun hf => (h.orders f hf).trans (List.sublist_append_left _ _))
    (fun hf => (h'.orders f hf).trans (List.sublist_append_right _ _))

/-- What was read of a file, seen from outside. -/
theorem file {name u : Text}
    (h : Adds source (linesOf name u) (knotsOf name u) new files [] { progress with fileNames := progress.fileNames ++ [name] }
      after progress') (hsource : source name u) :
    Adds source [] [] new ((name, u) :: files) [] progress after progress' where
  names := by rw [h.names, List.append_assoc]; rfl
  texts := List.forall_mem_cons.2 ⟨hsource, h.texts⟩
  lines := h.lines
  known := h.known
  listed := h.listed
  fromFiles := h.fromFiles
  ownOrder := List.nil_sublist _
  orders := List.forall_mem_cons.2 ⟨h.ownOrder, h.orders⟩

end Adds

variable {library : Library} {readFile : Text → Text → Progress → Outcome (List Node × Progress)} {source : Text → Text → Prop}
  {root r file l : Text} {line depth : Nat} {page page' : Page} {progress progress' : Progress}

theorem LineEffect.tidy {form : LineForm} (h : LineEffect library readFile file line page progress form page' progress')
    (htidy : page.Tidy) : page'.Tidy := by
  cases h with
  | empty | repeated => exact htidy
  | included =>
    unfold Page.addInclude
    cases hk : page.knot with
    | none => exact fun _ => htidy hk
    | some k => exact nofun
  | knot | stitch => exact nofun
  | branch =>
    unfold Page.add
    rcases hk : page.knot with _ | ⟨name, place, content, _ | s⟩
    · exact fun _ => htidy hk
    · exact nofun
    · exact nofun

theorem allLines_of_lineBranch? {form : LineForm} {n : Node} (h : lineBranch? file line form = some n) :
    allLines n = [n] := by
  have hinline := inline_of_lineBranch? h
  cases n with
  | text t place | tag t place => obtain ⟨_, _, _, _, _, _, h⟩ | ⟨_, _, _, h⟩ := lineBranch?_cases h <;> cases h
  | branch role place content =>
    rw [allLines, hinline.role.1]
    rfl

theorem knotsFrom_cons (file : Text) (line : Nat) (l : Text) (ls : List Text) :
    knotsFrom file line (l :: ls) = knotsFrom file line [l] ++ knotsFrom file (line + 1) ls := by
  rw [knotsFrom, knotsFrom]
  split <;> rfl

theorem knotsFrom_of_ne (h : ∀ name, formOf l ≠ .knotHeader (some name)) : knotsFrom file line [l] = [] := by
  rw [knotsFrom]
  split
  · next name hform => exact absurd hform (h name)
  · rfl

theorem branchesFrom_cons (file : Text) (line : Nat) (l : Text) (ls : List Text) :
    branchesFrom file line (l :: ls) = branchesFrom file line [l] ++ branchesFrom file (line + 1) ls := by
  rw [branchesFrom, branchesFrom, branchesFrom, List.append_nil]

/-- A line adds its branch, or its knot, or the files that it includes. -/
theorem LineEffect.adds (h : LineEffect library readFile file line page progress (formOf l) page' progress')
    (htidy : page.Tidy)
    (hread : ∀ name t nodes, name ∉ progress.fileNames → library.find? name = some (.ok t) →
      readFile name t progress = .ok (nodes, progress') → ∃ new files, Adds source [] [] new files [] progress nodes progress') :
    ∃ new files, Adds source (branchesFrom file line [l]) (knotsFrom file line [l]) new files page.nodes progress
      page'.nodes progress' := by
  have hbranches : branchesFrom file line [l] = (lineBranch? file line (formOf l)).toList := List.append_nil _
  have hnone : (∀ name, formOf l ≠ .knotHeader (some name)) → knotsFrom file line [l] = [] := knotsFrom_of_ne
  rw [hbranches]
  generalize hform : formOf l = form at h hnone
  cases h with
  | empty | repeated =>
    rw [hnone fun _ => by rintro ⟨⟩]
    exact ⟨[], [], .refl _ _⟩
  | @included _ _ nodes _ hnew hfind hinner =>
    obtain ⟨new, files, hadds⟩ := hread _ _ _ hnew hfind hinner
    rw [hnone fun _ => by rintro ⟨⟩]
    refine ⟨new, files, hadds.names, hadds.texts, ?_, hadds.known, ?_, hadds.fromFiles, hadds.ownOrder, hadds.orders⟩
    · exact (allLinesIn_addInclude _ _).trans (hadds.lines.append_left _)
    · rw [knotsIn_eq, skims_knot?.collect_addInclude htidy, collect_branch, ← knotsIn_eq nodes, hadds.listed]
      rfl
  | @knot name =>
    have hknots : knotsFrom file line [l] = [(name, ⟨some file, line⟩)] := by rw [knotsFrom, hform]; rfl
    rw [hknots]
    refine ⟨[(name, ⟨some file, line⟩)], [], .own rfl rfl ?_ (skims_knot?.collect_openKnot _ _ _)⟩
    rw [allLinesIn_openKnot]
    exact .of_eq (List.append_nil _).symm
  | stitch hknot =>
    rw [hnone fun _ => by rintro ⟨⟩]
    refine ⟨[], [], .own rfl (List.append_nil _).symm ?_ ?_⟩
    · rw [allLinesIn_openStitch hknot]
      exact .of_eq (List.append_nil _).symm
    · exact (skims_knot?.collect_openStitch hknot _ _).trans (List.append_nil _).symm
  | @branch _ n hbranch =>
    rw [hbranch, hnone fun name hknot => by rw [hknot] at hbranch; cases hbranch]
    refine ⟨[], [], .own rfl (List.append_nil _).symm ?_ ?_⟩
    · refine (allLinesIn_add page n).trans ?_
      rw [allLines_of_lineBranch? hbranch]
      exact .refl _
    · exact (skims_knot?.collect_add (inline_of_lineBranch? hbranch) page).trans (List.append_nil _).symm

theorem adds_readLines {Q : List Text → Prop} {ls : List Text}
    (h : readLines library readFile file line ls page progress = .ok (page', progress')) (htidy : page.Tidy)
    (hread : ∀ name t nodes (before after : Progress), Q before.fileNames → name ∉ before.fileNames →
      library.find? name = some (.ok t) → readFile name t before = .ok (nodes, after) →
      Q after.fileNames ∧ ∃ new files, Adds source [] [] new files [] before nodes after)
    (hQ : Q progress.fileNames) :
    ∃ new files, Adds source (branchesFrom file line ls) (knotsFrom file line ls) new files page.nodes progress
      page'.nodes progress' := by
  induction ls generalizing line page progress with
  | nil =>
    obtain ⟨rfl, rfl⟩ := Prod.mk.inj (Except.ok.inj h)
    exact ⟨[], [], .refl _ _⟩
  | cons l ls ih =>
    obtain ⟨mid, progress₁, heffect, hrest⟩ := readLines_cons_ok h
    have hmid : Q progress₁.fileNames := by
      rcases heffect.fileNames with heq | ⟨name, t, nodes, hmem, hfind, hread'⟩
      · rwa [heq]
      · exact (hread name t nodes _ _ hQ hmem hfind hread').1
    obtain ⟨new, files, hadds⟩ := heffect.adds htidy fun name t nodes hmem hfind hread' =>
      (hread name t nodes _ _ hQ hmem hfind hread').2
    obtain ⟨new', files', hadds'⟩ := ih hrest (heffect.tidy htidy) hmid
    rw [branchesFrom_cons, knotsFrom_cons]
    exact ⟨_, _, hadds.trans hadds'⟩

theorem adds_readFile {t : Text} {nodes : List Node}
    (h : StoryReader.readFile library depth file t progress = .ok (nodes, progress'))
    (hsource : SourceText library root r file t) (hroot : file = root ∨ root ∈ progress.fileNames) :
    ∃ new files, Adds (SourceText library root r) [] [] new files [] progress nodes progress' := by
  induction depth generalizing file t progress progress' nodes with
  | zero =>
    obtain ⟨rfl, rfl⟩ := Prod.mk.inj (Except.ok.inj h)
    exact ⟨[], [], .refl _ _⟩
  | succ depth ih =>
    obtain ⟨page, hlines, rfl⟩ := readFile_succ_ok h
    have hstart : root ∈ progress.fileNames ++ [file] := by
      rcases hroot with rfl | hroot
      · exact List.mem_append_right _ List.mem_cons_self
      · exact List.mem_append_left _ hroot
    obtain ⟨new, files, hadds⟩ := adds_readLines (Q := fun names => root ∈ names) hlines (fun _ => rfl)
      (fun name u nodes before after hbefore hname hfind hinner => ⟨(readFile_avoids hinner hname).1 root hbefore,
        ih hinner (sourceText_of_not_mem hbefore hname hfind) (.inr hbefore)⟩)
      hstart
    exact ⟨new, (file, t) :: files, hadds.file hsource⟩

end StoryReader

/-! ### Whole stories -/

/-- The files that a story was read from, with their texts. The tree holds the branches of all their lines, each once, and all their knots. These are in the order of the tree, and those of one file in the order of its lines. -/
structure Assembled (source : Text → Text → Prop) (story : Story) (files : List (Text × Text)) : Prop where
  names : story.fileNames = files.map Prod.fst
  texts : ∀ f ∈ files, source f.1 f.2
  lines : (allLines story.root).Perm (files.flatMap fun f => linesOf f.1 f.2)
  knots : (all story.root).filterMap knot? = story.knots.map knotEntry
  fromFiles : story.knots.Perm (files.flatMap fun f => knotsOf f.1 f.2)
  orders : ∀ f ∈ files, (knotsOf f.1 f.2).Sublist story.knots

theorem assembled_of_parse {library : Library} {root r : Text} {story : Story}
    (h : Story.parse library root r = .ok story) : ∃ files, Assembled (SourceText library root r) story files := by
  unfold Story.parse at h
  cases hread : readFile library library.depth root r ⟨[], []⟩ with
  | error e => rw [hread] at h; cases h
  | ok found =>
    rw [hread] at h
    obtain rfl := Except.ok.inj h
    obtain ⟨new, files, hadds⟩ := adds_readFile hread (sourceText_root library root r) (.inl rfl)
    have hknots : found.2.knots = new := hadds.known
    refine ⟨files, hadds.names, hadds.texts, hadds.lines, ?_, hknots ▸ hadds.fromFiles, hknots ▸ hadds.orders⟩
    show knotsIn found.1 = found.2.knots.map knotEntry
    rw [hadds.listed, hknots]
    rfl

namespace StoryReader

variable {file : Text} {line : Nat} {ls : List Text}

theorem exists_place_of_mem_branchesFrom {place : Option Place} (h : place ∈ (branchesFrom file line ls).map Node.place) :
    ∃ i, place = some ⟨some file, ((line + i : Nat) : Int)⟩ := by
  obtain ⟨n, hn, rfl⟩ := List.mem_map.1 h
  obtain ⟨i, l, -, hbranch⟩ := mem_branchesFrom_iff.1 hn
  exact ⟨i, place_of_lineBranch? hbranch⟩

theorem nodup_places_branchesFrom : ((branchesFrom file line ls).map Node.place).Nodup := by
  induction ls generalizing line with
  | nil => exact List.nodup_nil
  | cons l ls ih =>
    rw [branchesFrom]
    cases hbranch : lineBranch? file line (.ofCode (strip (codeOf l))) with
    | none => exact ih
    | some n =>
      rw [Option.toList_some, List.singleton_append, List.map_cons, List.nodup_cons]
      refine ⟨fun hmem => ?_, ih⟩
      obtain ⟨i, hplace⟩ := exists_place_of_mem_branchesFrom hmem
      rw [place_of_lineBranch? hbranch] at hplace
      have hline : (line : Int) = ((line + 1 + i : Nat) : Int) := congrArg Place.line (Option.some.inj hplace)
      omega

end StoryReader

theorem flatMap_of_nodup {files : List (Text × Text)} (hfiles : (files.map Prod.fst).Nodup) {f : Text × Text}
    (hf : f ∈ files) {α : Type} (F : Text × Text → List α) :
    (files.flatMap fun g => if g.1 = f.1 then F g else []) = F f := by
  induction files with
  | nil => cases hf
  | cons g files ih =>
    rw [List.map_cons, List.nodup_cons] at hfiles
    rw [List.flatMap_cons]
    rcases List.mem_cons.1 hf with rfl | hf
    · have hothers : (files.flatMap fun g => if g.1 = f.1 then F g else []) = [] := by
        refine List.flatMap_eq_nil_iff.2 fun g hg => if_neg fun heq => hfiles.1 ?_
        exact heq ▸ List.mem_map_of_mem hg
      rw [if_pos rfl, hothers, List.append_nil]
    · have hne : g.1 ≠ f.1 := fun heq => hfiles.1 (heq ▸ List.mem_map_of_mem hf)
      rw [if_neg hne, ih hfiles.2 hf, List.nil_append]

namespace Assembled

variable {source : Text → Text → Prop} {story : Story} {files : List (Text × Text)}

/-- No two lines of a story have one place. -/
theorem nodup_places (h : Assembled source story files) (hfiles : story.fileNames.Nodup) :
    ((allLines story.root).map Node.place).Nodup := by
  rw [(h.lines.map Node.place).nodup_iff, List.map_flatMap, List.nodup_flatMap]
  refine ⟨fun f _ => nodup_places_branchesFrom, ?_⟩
  rw [h.names] at hfiles
  refine (List.pairwise_map.1 hfiles).imp fun {f g} hne place hf hg => hne ?_
  obtain ⟨i, hi⟩ := exists_place_of_mem_branchesFrom hf
  obtain ⟨j, hj⟩ := exists_place_of_mem_branchesFrom hg
  exact Option.some.inj (congrArg Place.file (Option.some.inj (hi.symm.trans hj)))

/-- A line of a story stands in one of its files. -/
theorem file_mem (h : Assembled source story files) {file : Text} {line : Int}
    (hplace : some ⟨some file, line⟩ ∈ (allLines story.root).map Node.place) :
    file ∈ story.fileNames := by
  rw [(h.lines.map Node.place).mem_iff, List.map_flatMap] at hplace
  obtain ⟨f, hf, hmem⟩ := List.mem_flatMap.1 hplace
  obtain ⟨i, hi⟩ := exists_place_of_mem_branchesFrom hmem
  obtain rfl : file = f.1 := Option.some.inj (congrArg Place.file (Option.some.inj hi))
  rw [h.names]
  exact List.mem_map_of_mem hf

/-- The knots of one file are those that its lines open, in their order. -/
theorem knots_of_file (h : Assembled source story files) (hfiles : story.fileNames.Nodup) {f : Text × Text} (hf : f ∈ files) :
    story.knots.filter (fun k => k.2.file = some f.1) = knotsOf f.1 f.2 := by
  have hown : ∀ g : Text × Text, (knotsOf g.1 g.2).filter (fun k => k.2.file = some f.1) =
      if g.1 = f.1 then knotsOf g.1 g.2 else [] := fun g => by
    split
    · next heq => exact List.filter_eq_self.2 fun k hk => decide_eq_true (heq ▸ file_of_mem_knotsFrom hk)
    · next hne =>
      refine List.filter_eq_nil_iff.2 fun k hk heq => hne ?_
      exact Option.some.inj ((file_of_mem_knotsFrom hk).symm.trans (of_decide_eq_true heq))
  have hsub : (knotsOf f.1 f.2).Sublist (story.knots.filter fun k => k.2.file = some f.1) := by
    have hfiltered := (h.orders f hf).filter fun k => k.2.file = some f.1
    rwa [hown, if_pos rfl] at hfiltered
  rw [h.names] at hfiles
  have hall : (files.flatMap fun g => knotsOf g.1 g.2).filter (fun k => k.2.file = some f.1) = knotsOf f.1 f.2 := by
    rw [List.filter_flatMap]
    simp only [hown]
    exact flatMap_of_nodup hfiles hf _
  refine (hsub.eq_of_length ?_).symm
  rw [((h.fromFiles).filter _).length_eq, hall]

end Assembled

end LineTags
