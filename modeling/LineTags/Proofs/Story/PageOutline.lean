import LineTags.Proofs.Story.Pages

/-!
# Pages and outlines

The branches of a page are those of the lines read, in their order, whatever knots and stitches they went to. And reading takes no notice of what an outline leaves out: from two pages with the same outline, lines with the same outlines lead to two pages with the same outline, and the one reading comes to an end if the other does.
-/

namespace LineTags

open Text LineForm Node

namespace StoryReader

variable {library : Library} {readFile : Text → Text → Progress → Outcome (List Node × Progress)} {file : Text}
  {line : Nat} {form : LineForm} {page page' : Page} {progress progress' : Progress}

/-! ### The lines of a page -/

theorem lineBranchesIn_close (k : OpenKnot) :
    lineBranchesIn k.close.content =
      lineBranchesIn k.content ++ k.stitch.elim [] fun s => lineBranchesIn s.content := by
  unfold OpenKnot.close
  cases k.stitch with
  | none => exact (List.append_nil _).symm
  | some s => exact lineBranchesIn_append _ _ |>.trans (congrArg _ (List.append_nil _))

theorem lineBranchesIn_nodes (page : Page) :
    lineBranchesIn page.nodes =
      lineBranchesIn page.before ++ (page.knot.elim [] fun k => lineBranchesIn k.close.content) ++
        lineBranchesIn page.after := by
  unfold Page.nodes
  rw [lineBranchesIn_append, lineBranchesIn_append]
  cases page.knot with
  | none => rfl
  | some k =>
    rw [Option.map_some, Option.toList_some, lineBranchesIn_singleton]
    rfl

theorem lineBranches_of_lineBranch? {n : Node} (h : lineBranch? file line form = some n) : lineBranches n = [n] := by
  obtain ⟨role, state, body, ps, hform, -, rfl⟩ | ⟨name, value, -, rfl⟩ := lineBranch?_cases h
  · cases form <;> cases hform <;> rfl
  · rfl

theorem lineBranchesIn_add (hafter : lineBranchesIn page.after = []) (n : Node) :
    lineBranchesIn (page.add n).nodes = lineBranchesIn page.nodes ++ lineBranches n ∧
      lineBranchesIn (page.add n).after = [] := by
  rw [lineBranchesIn_nodes, lineBranchesIn_nodes]
  unfold Page.add
  cases page.knot with
  | none =>
    refine ⟨?_, hafter⟩
    show lineBranchesIn (page.before ++ [n]) ++ [] ++ _ = lineBranchesIn page.before ++ [] ++ _ ++ _
    rw [hafter, lineBranchesIn_append, lineBranchesIn_singleton]
    simp
  | some k =>
    dsimp only
    rw [Option.elim_some, lineBranchesIn_close]
    cases hs : k.stitch with
    | none =>
      refine ⟨?_, hafter⟩
      dsimp only
      rw [Option.elim_some, lineBranchesIn_close, lineBranchesIn_append, lineBranchesIn_singleton, hafter]
      simp
    | some s =>
      refine ⟨?_, hafter⟩
      dsimp only
      rw [Option.elim_some, lineBranchesIn_close, Option.elim_some, Option.elim_some, lineBranchesIn_append,
        lineBranchesIn_singleton, hafter]
      simp

theorem lineBranchesIn_addInclude (hafter : lineBranchesIn page.after = []) {n : Node} (hn : lineBranches n = []) :
    lineBranchesIn (page.addInclude n).nodes = lineBranchesIn page.nodes ∧
      lineBranchesIn (page.addInclude n).after = [] := by
  rw [lineBranchesIn_nodes, lineBranchesIn_nodes]
  unfold Page.addInclude
  cases page.knot with
  | none =>
    refine ⟨?_, hafter⟩
    dsimp only
    rw [lineBranchesIn_append, lineBranchesIn_singleton, hn, List.append_nil]
  | some k =>
    have hadded : lineBranchesIn (page.after ++ [n]) = [] := by
      rw [lineBranchesIn_append, lineBranchesIn_singleton, hn, hafter, List.append_nil]
    refine ⟨?_, hadded⟩
    dsimp only
    rw [hadded, hafter]

/-- A line adds its branch behind all others. -/
theorem LineEffect.lineBranchesIn (h : LineEffect library readFile file line page progress form page' progress')
    (hafter : lineBranchesIn page.after = []) :
    Node.lineBranchesIn page'.nodes = Node.lineBranchesIn page.nodes ++ (lineBranch? file line form).toList ∧
      Node.lineBranchesIn page'.after = [] := by
  cases h with
  | empty => exact ⟨(List.append_nil _).symm, hafter⟩
  | repeated => exact ⟨(List.append_nil _).symm, hafter⟩
  | included =>
    obtain ⟨hnodes, hadded⟩ := lineBranchesIn_addInclude hafter (n := .branch (.inclusion _) _ _) rfl
    exact ⟨hnodes.trans (List.append_nil _).symm, hadded⟩
  | knot =>
    refine ⟨?_, rfl⟩
    show Node.lineBranchesIn (Page.nodes ⟨page.nodes, _, []⟩) = _ ++ []
    rw [lineBranchesIn_nodes]
    show _ ++ [] ++ [] = _
    rw [List.append_nil]
  | @stitch k name hknot =>
    refine ⟨?_, hafter⟩
    show Node.lineBranchesIn (Page.nodes ⟨page.before, some _, page.after⟩) = _ ++ []
    rw [lineBranchesIn_nodes, lineBranchesIn_nodes, hknot, Option.elim_some, Option.elim_some, List.append_nil,
      lineBranchesIn_close]
    show _ ++ (Node.lineBranchesIn k.close.content ++ []) ++ _ = _
    rw [List.append_nil]
  | branch hbranch =>
    obtain ⟨hnodes, hadded⟩ := lineBranchesIn_add hafter _
    rw [hbranch, hnodes, lineBranches_of_lineBranch? hbranch]
    exact ⟨rfl, hadded⟩

/-- The branches of the lines of a file from line `line` on. -/
def branchesFrom (file : Text) : Nat → List Text → List Node
  | _, [] => []
  | line, l :: ls => (lineBranch? file line (.ofCode (strip (codeOf l)))).toList ++ branchesFrom file (line + 1) ls

theorem lineBranchesIn_readLines {ls : List Text}
    (h : readLines library readFile file line ls page progress = .ok (page', progress'))
    (hafter : lineBranchesIn page.after = []) :
    lineBranchesIn page'.nodes = lineBranchesIn page.nodes ++ branchesFrom file line ls := by
  induction ls generalizing line page progress with
  | nil =>
    obtain ⟨rfl, rfl⟩ := Prod.mk.inj (Except.ok.inj h)
    exact (List.append_nil _).symm
  | cons l ls ih =>
    obtain ⟨mid, progress₁, heffect, hrest⟩ := readLines_cons_ok h
    obtain ⟨hnodes, hadded⟩ := heffect.lineBranchesIn hafter
    rw [ih hrest hadded, hnodes, branchesFrom, List.append_assoc]

/-! ### The outline of a page -/

def OpenStitch.outline (hidden : Text → Option Place → Bool) (s : OpenStitch) : OpenStitch :=
  { s with content := outlines hidden s.content }

def OpenKnot.outline (hidden : Text → Option Place → Bool) (k : OpenKnot) : OpenKnot :=
  { k with content := outlines hidden k.content, stitch := k.stitch.map (OpenStitch.outline hidden) }

def Page.outline (hidden : Text → Option Place → Bool) (p : Page) : Page :=
  ⟨outlines hidden p.before, p.knot.map (OpenKnot.outline hidden), outlines hidden p.after⟩

variable {hidden hidden' : Text → Option Place → Bool}

theorem outlines_singleton (n : Node) : outlines hidden [n] = (outline? hidden n).toList := List.append_nil _

theorem outlines_concat {n m : Node} (h : outline? hidden n = some m) (ns : List Node) :
    outlines hidden (ns ++ [n]) = outlines hidden ns ++ [m] := by
  rw [outlines_append, outlines_singleton, h]
  rfl

theorem OpenKnot.outline_close (k : OpenKnot) : (k.outline hidden).close = k.close.outline hidden := by
  obtain ⟨name, place, content, stitch⟩ := k
  cases stitch with
  | none => rfl
  | some s =>
    unfold OpenKnot.close OpenKnot.outline
    dsimp only [Option.map_some]
    rw [outlines_concat (n := s.node) (m := (s.outline hidden).node) rfl]
    rfl

theorem OpenKnot.outline_node (k : OpenKnot) : outline? hidden k.node = some (k.outline hidden).node := by
  unfold OpenKnot.node
  rw [OpenKnot.outline_close]
  rfl

theorem Page.outline_nodes (p : Page) : outlines hidden p.nodes = (p.outline hidden).nodes := by
  obtain ⟨before, knot, after⟩ := p
  unfold Page.nodes Page.outline
  rw [outlines_append, outlines_append]
  cases knot with
  | none => rfl
  | some k =>
    dsimp only
    rw [Option.map_some, Option.map_some, Option.map_some, Option.toList_some, outlines_singleton,
      OpenKnot.outline_node]

theorem Page.outline_add {n m : Node} (h : outline? hidden n = some m) (p : Page) :
    (p.add n).outline hidden = (p.outline hidden).add m := by
  obtain ⟨before, knot, after⟩ := p
  rcases knot with _ | ⟨name, place, content, stitch⟩
  · unfold Page.add Page.outline
    dsimp only [Option.map_none]
    rw [outlines_concat h]
  · cases stitch with
    | none =>
      unfold Page.add Page.outline
      dsimp only [Option.map_some]
      unfold OpenKnot.outline
      dsimp only [Option.map_none]
      rw [outlines_concat h]
    | some s =>
      unfold Page.add Page.outline
      dsimp only [Option.map_some]
      unfold OpenKnot.outline
      dsimp only [Option.map_some]
      unfold OpenStitch.outline
      dsimp only
      rw [outlines_concat h]

theorem Page.outline_addInclude {n m : Node} (h : outline? hidden n = some m) (p : Page) :
    (p.addInclude n).outline hidden = (p.outline hidden).addInclude m := by
  obtain ⟨before, knot, after⟩ := p
  unfold Page.addInclude Page.outline
  cases knot with
  | none =>
    dsimp only [Option.map_none]
    rw [outlines_concat h]
  | some k =>
    dsimp only [Option.map_some]
    rw [outlines_concat h]

theorem Page.outline_openKnot (p : Page) (name : Text) (place : Place) :
    (p.openKnot name place).outline hidden = (p.outline hidden).openKnot name place := by
  unfold Page.openKnot
  rw [← Page.outline_nodes]
  rfl

theorem Page.outline_openStitch (p : Page) (k : OpenKnot) (name : Text) (place : Place) :
    (p.openStitch k name place).outline hidden = (p.outline hidden).openStitch (k.outline hidden) name place := by
  unfold Page.openStitch
  rw [OpenKnot.outline_close]
  rfl

theorem filterMap_containerName?_outlines (ns : List Node) :
    (outlines hidden ns).filterMap containerName? = ns.filterMap containerName? := by
  induction ns with
  | nil => rfl
  | cons n ns ih =>
    have hhead : (outline? hidden n).toList.filterMap containerName? = (containerName? n).toList := by
      cases n with
      | text t place =>
        rw [outline?]
        split <;> rfl
      | tag t place =>
        rw [outline?]
        split <;> rfl
      | branch role place content => cases role <;> rfl
    rw [outlines, List.filterMap_append, ih, hhead, List.filterMap_cons]
    cases containerName? n <;> rfl

theorem OpenKnot.stitchNames_outline (k : OpenKnot) : (k.outline hidden).stitchNames = k.stitchNames := by
  unfold OpenKnot.stitchNames
  rw [OpenKnot.outline_close]
  exact filterMap_containerName?_outlines _

/-! ### Reading from pages with the same outline -/

/-- Two forms of one line that lead to branches with the same outline, or are the same and lead to none. -/
def SameLine (file : Text) (line : Nat) (hidden hidden' : Text → Option Place → Bool) (form form' : LineForm) : Prop :=
  (∃ n n' m, lineBranch? file line form = some n ∧ lineBranch? file line form' = some n' ∧ outline? hidden n = some m ∧
    outline? hidden' n' = some m) ∨
  (lineBranch? file line form = none ∧ form = form')

theorem LineEffect.transfer {q : Page} {form' : LineForm}
    (h : LineEffect library readFile file line page progress form page' progress')
    (houtline : page.outline hidden = q.outline hidden') (hsame : SameLine file line hidden hidden' form form') :
    ∃ q', LineEffect library readFile file line q progress form' q' progress' ∧
      page'.outline hidden = q'.outline hidden' := by
  obtain ⟨n, n', m, hn, hn', hm, hm'⟩ | ⟨hnone, rfl⟩ := hsame
  · have heq := (readLine_of_effect h).symm.trans (readLine_of_branch hn)
    obtain ⟨rfl, rfl⟩ := Prod.mk.inj (Except.ok.inj heq)
    exact ⟨_, .branch hn', by rw [Page.outline_add hm, Page.outline_add hm', houtline]⟩
  cases h with
  | empty => exact ⟨q, .empty, houtline⟩
  | repeated hmem => exact ⟨q, .repeated hmem, houtline⟩
  | included hmem hfind hread =>
    refine ⟨_, .included hmem hfind hread, ?_⟩
    rw [Page.outline_addInclude rfl, Page.outline_addInclude rfl, houtline]
  | knot hname =>
    refine ⟨_, .knot hname, ?_⟩
    rw [Page.outline_openKnot, Page.outline_openKnot, houtline]
  | @stitch k name hknot hname =>
    have hknots : page.knot.map (OpenKnot.outline hidden) = q.knot.map (OpenKnot.outline hidden') :=
      congrArg Page.knot houtline
    rw [hknot, Option.map_some] at hknots
    obtain ⟨k', hk', hclosed⟩ := Option.map_eq_some_iff.1 hknots.symm
    have hnames : k'.stitchNames = k.stitchNames := calc
      k'.stitchNames = (k'.outline hidden').stitchNames := (OpenKnot.stitchNames_outline k').symm
      _ = (k.outline hidden).stitchNames := by rw [hclosed]
      _ = k.stitchNames := OpenKnot.stitchNames_outline k
    refine ⟨_, .stitch hk' (hnames ▸ hname), ?_⟩
    rw [Page.outline_openStitch, Page.outline_openStitch, houtline, hclosed]
  | branch hbranch =>
    rw [hnone] at hbranch
    cases hbranch

/-- Reading the lines of two files that are the same up to what an outline leaves out. -/
theorem readLines_transfer {q : Page} {ls ls' : List Text}
    (h : readLines library readFile file line ls page progress = .ok (page', progress'))
    (hlength : ls'.length = ls.length) (houtline : page.outline hidden = q.outline hidden')
    (hsame : ∀ i l l', ls[i]? = some l → ls'[i]? = some l' →
      SameLine file (line + i) hidden hidden' (.ofCode (strip (codeOf l))) (.ofCode (strip (codeOf l')))) :
    ∃ q', readLines library readFile file line ls' q progress = .ok (q', progress') ∧
      page'.outline hidden = q'.outline hidden' := by
  induction ls generalizing line page progress q ls' with
  | nil =>
    obtain ⟨rfl, rfl⟩ := Prod.mk.inj (Except.ok.inj h)
    rw [List.eq_nil_of_length_eq_zero hlength]
    exact ⟨q, rfl, houtline⟩
  | cons l ls ih =>
    rcases ls' with _ | ⟨l', ls'⟩
    · cases hlength
    obtain ⟨mid, progress₁, heffect, hrest⟩ := readLines_cons_ok h
    obtain ⟨mid', heffect', hmid⟩ := heffect.transfer houtline (hsame 0 l l' rfl rfl)
    obtain ⟨q', hread, hq'⟩ := ih hrest (Nat.succ.inj hlength) hmid fun i k k' hk hk' => by
      have hline := hsame (i + 1) k k' hk hk'
      rwa [← Nat.add_assoc, Nat.add_right_comm] at hline
    exact ⟨q', (readLines_cons heffect').trans hread, hq'⟩

/-! ### From outlines back to lines -/

theorem place_of_outline? {n m : Node} (h : outline? hidden n = some m) : m.place = n.place := by
  cases n with
  | text t place =>
    rw [outline?] at h
    split at h
    · cases h
    · obtain rfl := Option.some.inj h
      rfl
  | tag t place =>
    rw [outline?] at h
    split at h
    · cases h
    · obtain rfl := Option.some.inj h
      rfl
  | branch role place content => cases role <;> (obtain rfl := Option.some.inj h; rfl)

theorem place_of_lineBranch? {n : Node} (h : lineBranch? file line form = some n) :
    n.place = some ⟨some file, line⟩ := by
  obtain ⟨role, state, body, ps, -, -, rfl⟩ | ⟨name, value, -, rfl⟩ := lineBranch?_cases h
  · rfl
  · rfl

/-- The outline of the branch of a line. -/
def lineOutline? (hidden : Text → Option Place → Bool) (file : Text) (line : Nat) (l : Text) : Option Node :=
  (lineBranch? file line (.ofCode (strip (codeOf l)))).bind (outline? hidden)

theorem outlines_branchesFrom_cons (l : Text) (ls : List Text) :
    outlines hidden (branchesFrom file line (l :: ls)) =
      (lineOutline? hidden file line l).toList ++ outlines hidden (branchesFrom file (line + 1) ls) := by
  rw [branchesFrom, outlines_append, lineOutline?]
  cases lineBranch? file line (.ofCode (strip (codeOf l))) with
  | none => rfl
  | some n => rw [Option.toList_some, outlines_singleton, Option.bind_some]

theorem place_of_lineOutline? {l : Text} {m : Node} (h : lineOutline? hidden file line l = some m) :
    m.place = some ⟨some file, line⟩ := by
  obtain ⟨n, hn, hm⟩ := Option.bind_eq_some_iff.1 h
  rw [place_of_outline? hm, place_of_lineBranch? hn]

theorem exists_line_of_mem_branchesFrom {ls : List Text} {m : Node}
    (hm : m ∈ outlines hidden (branchesFrom file line ls)) : ∃ j : Nat, line ≤ j ∧ m.place = some ⟨some file, j⟩ := by
  induction ls generalizing line with
  | nil => cases hm
  | cons l ls ih =>
    rw [outlines_branchesFrom_cons, List.mem_append] at hm
    rcases hm with hm | hm
    · exact ⟨line, Nat.le_refl _, place_of_lineOutline? (Option.mem_toList.1 hm)⟩
    · obtain ⟨j, hj, hplace⟩ := ih hm
      exact ⟨j, by omega, hplace⟩

theorem not_mem_branchesFrom_succ {l : Text} {m : Node} (h : lineOutline? hidden' file line l = some m) (ls : List Text) :
    m ∉ outlines hidden (branchesFrom file (line + 1) ls) := by
  intro hmem
  obtain ⟨j, hj, hplace⟩ := exists_line_of_mem_branchesFrom hmem
  rw [place_of_lineOutline? h] at hplace
  have hline : (line : Int) = j := congrArg Place.line (Option.some.inj hplace)
  omega

theorem branchesFrom_cons_inj {l l' : Text} {ls ls' : List Text}
    (h : outlines hidden (branchesFrom file line (l :: ls)) = outlines hidden' (branchesFrom file line (l' :: ls'))) :
    lineOutline? hidden file line l = lineOutline? hidden' file line l' ∧
      outlines hidden (branchesFrom file (line + 1) ls) = outlines hidden' (branchesFrom file (line + 1) ls') := by
  rw [outlines_branchesFrom_cons, outlines_branchesFrom_cons] at h
  cases hold : lineOutline? hidden file line l with
  | none =>
    cases hnew : lineOutline? hidden' file line l' with
    | none =>
      rw [hold, hnew] at h
      exact ⟨rfl, h⟩
    | some m =>
      rw [hold, hnew] at h
      have hmem : m ∈ outlines hidden (branchesFrom file (line + 1) ls) := by
        rw [show outlines hidden (branchesFrom file (line + 1) ls) = _ from h]
        exact List.mem_cons_self
      exact absurd hmem (not_mem_branchesFrom_succ hnew ls)
  | some n =>
    cases hnew : lineOutline? hidden' file line l' with
    | none =>
      rw [hold, hnew] at h
      have hmem : n ∈ outlines hidden' (branchesFrom file (line + 1) ls') := by
        rw [show outlines hidden' (branchesFrom file (line + 1) ls') = _ from h.symm]
        exact List.mem_cons_self
      exact absurd hmem (not_mem_branchesFrom_succ hold ls')
    | some m =>
      rw [hold, hnew] at h
      obtain ⟨rfl, hrest⟩ := List.cons.inj h
      exact ⟨rfl, hrest⟩

/-- If all lines have the same outlines in order then each has. -/
theorem lineOutline?_eq_of_outlines_eq {ls ls' : List Text}
    (h : outlines hidden (branchesFrom file line ls) = outlines hidden' (branchesFrom file line ls'))
    {i : Nat} {l l' : Text} (hl : ls[i]? = some l) (hl' : ls'[i]? = some l') :
    lineOutline? hidden file (line + i) l = lineOutline? hidden' file (line + i) l' := by
  induction i generalizing line ls ls' with
  | zero =>
    rcases ls with _ | ⟨k, ls⟩
    · cases hl
    rcases ls' with _ | ⟨k', ls'⟩
    · cases hl'
    obtain rfl := Option.some.inj hl
    obtain rfl := Option.some.inj hl'
    exact (branchesFrom_cons_inj h).1
  | succ i ih =>
    rcases ls with _ | ⟨k, ls⟩
    · cases hl
    rcases ls' with _ | ⟨k', ls'⟩
    · cases hl'
    have hrest := ih (branchesFrom_cons_inj h).2 hl hl'
    rwa [Nat.add_right_comm] at hrest

end StoryReader

end LineTags
