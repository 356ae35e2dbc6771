import LineTags.Minting.Candidate
import Mathlib.Data.List.Sort

/-!
# Narrative text by its path

The walk that lists narrative text opens and closes containers on its way, and counts the logic above it. What it finds can be told without it, from the path of child numbers that leads to a piece of text: no node on the path is logic, the containers around the text are those on the path that have names, and its siblings are the children of the last node before it. The walk finds exactly these pieces, in the order of their paths, and closes every container that it opened.
-/

namespace LineTags

open Text

variable {ancestry : List Container} {siblings : List Node} {index depth : Nat} {role : Role} {place : Option Place}
  {content : List Node}

/-! ## Without a walk -/

namespace Candidate

mutual

/-- The candidates of a node that stands at `index` among `siblings`, told from the containers around it. Nothing below logic is one. -/
def ofNode (ancestry : List Container) (siblings : List Node) (index : Nat) : Node → List Candidate
  | .text t place =>
    match place with
    | some p => if isBlankText t then [] else [⟨t, siblings, index, ancestry, p⟩]
    | none => []
  | .tag _ _ => []
  | .branch role _ content =>
    if role.isLogic then []
    else
      match role with
      | .container c => ofNodes (if c.name.isEmpty then ancestry else ancestry ++ [c]) content 0 content
      | _ => ofNodes ancestry content 0 content

/-- The candidates among the siblings from `index` on. -/
def ofNodes (ancestry : List Container) (siblings : List Node) (index : Nat) : List Node → List Candidate
  | [] => []
  | n :: r => ofNode ancestry siblings index n ++ ofNodes ancestry siblings (index + 1) r

end

variable (ancestry : List Container) (siblings : List Node) (index : Nat) (place : Option Place) (content : List Node)

theorem ofNode_logic {role : Role} (h : role.isLogic = true) :
    ofNode ancestry siblings index (.branch role place content) = [] := by
  cases role <;> first | rfl | cases h

theorem ofNode_container (c : Container) :
    ofNode ancestry siblings index (.branch (.container c) place content) =
      ofNodes (if c.name.isEmpty then ancestry else ancestry ++ [c]) content 0 content := rfl

theorem ofNode_branch {role : Role} (hlogic : role.isLogic = false) (hcontainer : ∀ c, role ≠ .container c) :
    ofNode ancestry siblings index (.branch role place content) = ofNodes ancestry content 0 content := by
  cases role with
  | container c => exact absurd rfl (hcontainer c)
  | assignment | interpolation | logic => cases hlogic
  | story | inclusion | divert | choice | gather | line | group => rfl

/-- What stands below a branch that is no logic has the container of the branch around it. -/
theorem ofNode_below {role : Role} (hlogic : role.isLogic = false) :
    ofNode ancestry siblings index (.branch role place content) = ofNodes (ancestry ++ role.opens?.toList) content 0 content := by
  by_cases hcontainer : ∃ c, role = .container c
  · obtain ⟨c, rfl⟩ := hcontainer
    rw [ofNode_container, Role.opens?]
    by_cases hname : c.name.isEmpty = true
    · rw [if_pos hname, if_pos hname, Option.toList_none, List.append_nil]
    · rw [if_neg hname, if_neg hname, Option.toList_some]
  · rw [ofNode_branch _ _ _ _ _ hlogic fun c hc => hcontainer ⟨c, hc⟩]
    cases role with
    | container c => exact absurd ⟨c, rfl⟩ hcontainer
    | _ => exact congrArg (ofNodes · content 0 content) (List.append_nil ancestry).symm

end Candidate

/-! ## What a walk finds -/

namespace Walk

/-- A walk with what it finds next. -/
def add (w : Walk) (cs : List Candidate) : Walk := { w with found := w.found ++ cs }

theorem add_nil (w : Walk) : w.add [] = w := by
  rw [add, List.append_nil]

theorem add_add (w : Walk) (cs ds : List Candidate) : (w.add cs).add ds = w.add (cs ++ ds) := by
  rw [add, add, add, List.append_assoc]

/-- Where logic is counted, nothing is found below it. -/
theorem found_below (ancestry : List Container) (siblings : List Node) (index depth : Nat) (role : Role) (place : Option Place)
    (content : List Node) :
    (if (if role.isLogic then depth + 1 else depth) = 0 then
      Candidate.ofNodes (ancestry ++ role.opens?.toList) content 0 content else []) =
      if depth = 0 then Candidate.ofNode ancestry siblings index (.branch role place content) else [] := by
  cases hlogic : role.isLogic with
  | true => rw [if_pos rfl, if_neg (Nat.succ_ne_zero depth), Candidate.ofNode_logic _ _ _ _ _ hlogic, ite_self]
  | false => rw [if_neg Bool.false_ne_true, Candidate.ofNode_below _ _ _ _ _ hlogic]

theorem leave_add_enter (c : Container) (w : Walk) (cs : List Candidate) : ((w.enter c).add cs).leave = w.add cs := by
  rw [leave, add, enter, add, List.dropLast_concat]

mutual

theorem visit_eq : ∀ (n : Node) (siblings : List Node) (index depth : Nat) (w : Walk),
    visit siblings index depth n w = w.add (if depth = 0 then Candidate.ofNode w.opened siblings index n else [])
  | .text _ none => fun _ _ depth w => by
    rw [visit, Candidate.ofNode, ite_self, add_nil]
  | .text t (some p) => fun siblings index depth w => by
    rw [visit, Candidate.ofNode]
    by_cases hdepth : depth = 0
    · cases hblank : isBlankText t with
      | true => simp [hdepth, add_nil]
      | false => simp [hdepth, add]
    · simp [hdepth, add_nil]
  | .tag _ _ => fun _ _ depth w => by
    rw [visit, Candidate.ofNode, ite_self, add_nil]
  | .branch role place content => fun siblings index depth w => by
    rw [visit, ← found_below]
    cases role.opens? with
    | none => rw [visitAll_eq content, Option.toList_none, List.append_nil]
    | some c =>
      show (visitAll content 0 _ content (w.enter c)).leave = _
      rw [visitAll_eq content, leave_add_enter]
      rfl

theorem visitAll_eq : ∀ (ns siblings : List Node) (index depth : Nat) (w : Walk),
    visitAll siblings index depth ns w = w.add (if depth = 0 then Candidate.ofNodes w.opened siblings index ns else [])
  | [] => fun _ _ depth w => by
    rw [visitAll, Candidate.ofNodes, ite_self, add_nil]
  | n :: ns => fun siblings index depth w => by
    rw [visitAll, visit_eq n, visitAll_eq ns, add_add, Candidate.ofNodes]
    by_cases hdepth : depth = 0
    · rw [if_pos hdepth, if_pos hdepth, if_pos hdepth]
      rfl
    · rw [if_neg hdepth, if_neg hdepth, if_neg hdepth]
      rfl

end

/-- Every container that a walk opened below a node is closed behind it. -/
theorem opened_visit (siblings : List Node) (index depth : Nat) (n : Node) (w : Walk) :
    (visit siblings index depth n w).opened = w.opened := by
  rw [visit_eq]
  rfl

end Walk

theorem Candidate.ofTree_eq (root : Node) : ofTree root = ofNode [] [root] 0 root := by
  rw [ofTree, Walk.visit_eq]
  rfl

/-- The tree of a script has its candidates in what stands at the top. -/
theorem Candidate.ofTree_story (place : Option Place) (content : List Node) :
    ofTree (.branch .story place content) = ofNodes [] content 0 content := ofTree_eq _

/-! ## Paths -/

/-- A path of child numbers leads from a node to one below it, past the nodes `above`. -/
inductive Node.Leads : Node → List Nat → List Node → Node → Prop
  | here {n : Node} : Leads n [] [] n
  | down {role : Role} {place : Option Place} {content above : List Node} {i : Nat} {path : List Nat} {child n : Node} :
    content[i]? = some child → Leads child path above n →
    Leads (.branch role place content) (i :: path) (.branch role place content :: above) n

/-- The container that a node puts around what stands below it. -/
def Node.opens? : Node → Option Container
  | branch role _ _ => role.opens?
  | _ => none

def Node.isLogic : Node → Bool
  | branch role _ _ => role.isLogic
  | _ => false

namespace Candidate

/-- A candidate stands at the end of a path from a node that itself stands at `index` among `siblings`, in some containers: it is nonblank text there whose place is known, with no logic on the path, its siblings are the children of the last node on it, and the containers on it come behind those around the node. -/
def StandsBelow (ancestry : List Container) (siblings : List Node) (index : Nat) (n : Node) (path : List Nat) (c : Candidate) :
    Prop :=
  ∃ above, n.Leads path above (.text c.raw (some c.place)) ∧ isBlankText c.raw = false ∧ (∀ m ∈ above, m.isLogic = false) ∧
    c.siblings = (above.getLast?.map Node.content).getD siblings ∧ c.index = path.getLast?.getD index ∧
    c.ancestry = ancestry ++ above.filterMap Node.opens?

/-- A candidate stands at the end of a path from the root of a tree. -/
def StandsAt (root : Node) : List Nat → Candidate → Prop := StandsBelow [] [root] 0 root

theorem standsBelow_text {t : Text} {path : List Nat} {c : Candidate} :
    StandsBelow ancestry siblings index (.text t place) path c ↔
      path = [] ∧ isBlankText t = false ∧ ∃ p, place = some p ∧ c = ⟨t, siblings, index, ancestry, p⟩ := by
  constructor
  · rintro ⟨above, hleads, hblank, -, hsiblings, hindex, hancestry⟩
    obtain ⟨raw, siblings', index', ancestry', p⟩ := c
    cases hleads with
    | here =>
      refine ⟨rfl, hblank, p, rfl, ?_⟩
      obtain rfl : siblings' = siblings := hsiblings
      obtain rfl : index' = index := hindex
      rw [show ancestry' = ancestry from hancestry.trans (List.append_nil _)]
  · rintro ⟨rfl, hblank, p, rfl, rfl⟩
    exact ⟨[], .here, hblank, nofun, rfl, rfl, (List.append_nil _).symm⟩

theorem not_standsBelow_tag {t : Text} {path : List Nat} {c : Candidate} :
    ¬StandsBelow ancestry siblings index (.tag t place) path c := by
  rintro ⟨above, hleads, -⟩
  cases hleads

theorem parentContent_cons (n : Node) (above siblings : List Node) :
    ((n :: above).getLast?.map Node.content).getD siblings = (above.getLast?.map Node.content).getD n.content := by
  rw [List.getLast?_cons]
  cases above.getLast? <;> rfl

theorem lastChild_cons (i : Nat) (path : List Nat) (index : Nat) : (i :: path).getLast?.getD index = path.getLast?.getD i := by
  rw [List.getLast?_cons]
  rfl

theorem containers_cons (n : Node) (above : List Node) :
    (n :: above).filterMap Node.opens? = n.opens?.toList ++ above.filterMap Node.opens? := by
  rw [List.filterMap_cons]
  cases n.opens? <;> rfl

/-- What stands below a branch stands below one of its children, in the container of the branch. -/
theorem standsBelow_branch {path : List Nat} {c : Candidate} :
    StandsBelow ancestry siblings index (.branch role place content) path c ↔
      role.isLogic = false ∧ ∃ i rest child, path = i :: rest ∧ content[i]? = some child ∧
        StandsBelow (ancestry ++ role.opens?.toList) content i child rest c := by
  constructor
  · rintro ⟨above, hleads, hblank, hlogic, hsiblings, hindex, hancestry⟩
    cases hleads with
    | @down _ _ _ above i rest child _ hchild hleads =>
      obtain ⟨hrole, hlogic⟩ := List.forall_mem_cons.1 hlogic
      rw [parentContent_cons] at hsiblings
      rw [lastChild_cons] at hindex
      rw [containers_cons, ← List.append_assoc] at hancestry
      exact ⟨hrole, i, rest, child, rfl, hchild, above, hleads, hblank, hlogic, hsiblings, hindex, hancestry⟩
  · rintro ⟨hrole, i, rest, child, rfl, hchild, above, hleads, hblank, hlogic, hsiblings, hindex, hancestry⟩
    refine ⟨_, .down hchild hleads, hblank, List.forall_mem_cons.2 ⟨hrole, hlogic⟩, ?_, ?_, ?_⟩
    · rwa [parentContent_cons]
    · rwa [lastChild_cons]
    · rwa [containers_cons, ← List.append_assoc]

/-! ## The order of the paths -/

/-- Some candidates, each with its path, are all those for which a relation holds, in the order in which a depth-first walk comes to their paths. -/
structure Enumerates (stands : List Nat → Candidate → Prop) (entries : List (List Nat × Candidate)) : Prop where
  ordered : entries.Pairwise fun e e' => e.1 < e'.1
  mem_iff : ∀ path c, (path, c) ∈ entries ↔ stands path c

namespace Enumerates

variable {stands stands' : List Nat → Candidate → Prop} {entries entries' : List (List Nat × Candidate)}

theorem congr (h : Enumerates stands entries) (heq : ∀ path c, stands path c ↔ stands' path c) : Enumerates stands' entries where
  ordered := h.ordered
  mem_iff path c := (h.mem_iff path c).trans (heq path c)

theorem nil (h : ∀ path c, ¬stands path c) : Enumerates stands [] where
  ordered := .nil
  mem_iff path c := iff_of_false List.not_mem_nil (h path c)

/-- One candidate at the node itself. -/
theorem single {c : Candidate} (h : ∀ path d, stands path d ↔ path = [] ∧ d = c) : Enumerates stands [([], c)] where
  ordered := List.pairwise_singleton _ _
  mem_iff path d := by rw [List.mem_singleton, Prod.mk.injEq, h]

/-- The paths through a child begin with its number. -/
theorem child (h : Enumerates stands entries) (i : Nat) :
    Enumerates (fun path c => ∃ rest, path = i :: rest ∧ stands rest c) (entries.map fun e => (i :: e.1, e.2)) where
  ordered := by
    rw [List.pairwise_map]
    exact h.ordered.imp fun hlt => List.cons_lt_cons_self.2 hlt
  mem_iff path c := by
    rw [List.mem_map]
    constructor
    · rintro ⟨⟨rest, d⟩, he, heq⟩
      obtain ⟨rfl, rfl⟩ := Prod.mk.inj heq
      exact ⟨rest, rfl, (h.mem_iff rest d).1 he⟩
    · rintro ⟨rest, rfl, hstands⟩
      exact ⟨(rest, c), (h.mem_iff rest c).2 hstands, rfl⟩

theorem append (h : Enumerates stands entries) (h' : Enumerates stands' entries')
    (hlt : ∀ path c path' c', stands path c → stands' path' c' → path < path') :
    Enumerates (fun path c => stands path c ∨ stands' path c) (entries ++ entries') where
  ordered := by
    rw [List.pairwise_append]
    exact ⟨h.ordered, h'.ordered, fun e he e' he' => hlt _ _ _ _ ((h.mem_iff _ _).1 he) ((h'.mem_iff _ _).1 he')⟩
  mem_iff path c := by rw [List.mem_append, h.mem_iff, h'.mem_iff]

/-- There is one such list at most. -/
theorem unique (h : Enumerates stands entries) (h' : Enumerates stands entries') : entries = entries' := by
  have : Std.Antisymm fun e e' : List Nat × Candidate => e.1 < e'.1 := ⟨fun _ _ hlt hlt' => absurd hlt' (List.lt_asymm hlt)⟩
  have : Std.Irrefl fun e e' : List Nat × Candidate => e.1 < e'.1 := ⟨fun e => List.lt_irrefl e.1⟩
  exact h.ordered.eq_of_mem_iff h'.ordered fun e => (h.mem_iff e.1 e.2).trans (h'.mem_iff e.1 e.2).symm

end Enumerates

mutual

/-- By induction on the tree: what a node lists is what stands below it. -/
theorem exists_enumerates : ∀ (n : Node) (ancestry : List Container) (siblings : List Node) (index : Nat),
    ∃ entries, Enumerates (StandsBelow ancestry siblings index n) entries ∧
      ofNode ancestry siblings index n = entries.map Prod.snd
  | .text _ none => fun _ _ _ => ⟨[], .nil fun _ _ h => (nomatch (standsBelow_text.1 h).2.2), rfl⟩
  | .text t (some p) => fun ancestry siblings index => by
    cases hblank : isBlankText t with
    | true =>
      refine ⟨[], .nil fun path c h => ?_, by rw [ofNode, hblank]; rfl⟩
      rw [(standsBelow_text.1 h).2.1] at hblank
      cases hblank
    | false =>
      refine ⟨[([], ⟨t, siblings, index, ancestry, p⟩)], .single fun path c => standsBelow_text.trans ?_, ?_⟩
      · simp [hblank]
      · rw [ofNode, hblank]
        rfl
  | .tag _ _ => fun _ _ _ => ⟨[], .nil fun _ _ h => not_standsBelow_tag h, rfl⟩
  | .branch role place content => fun ancestry siblings index => by
    cases hlogic : role.isLogic with
    | true =>
      refine ⟨[], .nil fun path c h => ?_, ofNode_logic _ _ _ _ _ hlogic⟩
      rw [(standsBelow_branch.1 h).1] at hlogic
      cases hlogic
    | false =>
      obtain ⟨entries, henumerates, heq⟩ := exists_enumerates_children content (ancestry ++ role.opens?.toList) content 0
      refine ⟨entries, henumerates.congr fun path c => ?_, (ofNode_below _ _ _ _ _ hlogic).trans heq⟩
      rw [standsBelow_branch, hlogic]
      simp

/-- The children from a number on, each with the paths through it. -/
theorem exists_enumerates_children : ∀ (ns : List Node) (ancestry : List Container) (siblings : List Node) (index : Nat),
    ∃ entries, Enumerates (fun path c => ∃ i rest child, path = (index + i) :: rest ∧ ns[i]? = some child ∧
        StandsBelow ancestry siblings (index + i) child rest c) entries ∧
      ofNodes ancestry siblings index ns = entries.map Prod.snd
  | [] => fun _ _ _ => ⟨[], .nil fun _ _ ⟨_, _, _, _, h, _⟩ => (nomatch h), rfl⟩
  | n :: ns => fun ancestry siblings index => by
    obtain ⟨entries, hfirst, heq⟩ := exists_enumerates n ancestry siblings index
    obtain ⟨entries', hothers, heq'⟩ := exists_enumerates_children ns ancestry siblings (index + 1)
    refine ⟨_, ((hfirst.child index).append hothers ?_).congr ?_, ?_⟩
    · -- a path through this child comes before those through later ones
      rintro _ c _ c' ⟨rest, rfl, -⟩ ⟨i, rest', child, rfl, -⟩
      exact List.Lex.rel (by omega)
    · intro path c
      constructor
      · rintro (⟨rest, rfl, hstands⟩ | ⟨i, rest, child, rfl, hchild, hstands⟩)
        · exact ⟨0, rest, n, rfl, rfl, hstands⟩
        · rw [Nat.add_assoc, Nat.add_comm 1 i] at hstands
          exact ⟨i + 1, rest, child, by rw [Nat.add_assoc, Nat.add_comm 1 i], hchild, hstands⟩
      · rintro ⟨i, rest, child, rfl, hchild, hstands⟩
        cases i with
        | zero =>
          obtain rfl := Option.some.inj hchild
          exact .inl ⟨rest, rfl, hstands⟩
        | succ i =>
          rw [Nat.add_comm i 1, ← Nat.add_assoc] at hstands ⊢
          exact .inr ⟨i, rest, child, rfl, hchild, hstands⟩
    · rw [ofNodes, heq, heq', List.map_append, List.map_map]
      rfl

end

/-- A walk from the root lists just the candidates at the ends of paths, in the order of their paths, and no other list is that. Behind every node that it visits, wherever that is, the containers are open that were open before it. -/
theorem enumerates_ofTree (root : Node) :
    (∀ cs, (∃ entries, Enumerates (StandsAt root) entries ∧ cs = entries.map Prod.snd) ↔ cs = ofTree root) ∧
      ∀ siblings index depth n (w : Walk), (w.visit siblings index depth n).opened = w.opened := by
  obtain ⟨entries, henumerates, heq⟩ := exists_enumerates root [] [root] 0
  rw [← ofTree_eq] at heq
  refine ⟨fun cs => ⟨?_, fun hcs => ⟨entries, henumerates, hcs.trans heq⟩⟩, Walk.opened_visit⟩
  rintro ⟨entries', henumerates', rfl⟩
  rw [heq, henumerates.unique henumerates']

/-- Neither the logic nor the knot is felt behind them. -/
example :
    let text (t : String) : Node := .text t.toList (some ⟨none, 1⟩)
    let cave : Container := ⟨.knot, "Cave".toList⟩
    let knot : Node := .branch (.container cave) none [.branch .interpolation none [text "hidden"], text "In."]
    (ofTree (.branch .story none [knot, text "Out."])).map (fun c => (c.raw, c.index, c.ancestry)) =
      [("In.".toList, 1, [cave]), ("Out.".toList, 1, [])] := by decide

end Candidate

end LineTags
