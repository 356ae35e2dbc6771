import LineTags.Story.Node
import LineTags.Tag.Basic

/-!
# Narrative text

Only text that a reader of the story sees needs an identifier: nonblank text whose place is known and that stands in no logic. This module lists it in the order of the script, each piece with what surrounds it, and finds the tags that a line already has.
-/

namespace LineTags

open Text

/-- A piece of narrative text: what is written, the knot and stitch around it, the place, and where it stands among its siblings. -/
structure Candidate where
  raw : Text
  siblings : List Node
  index : Nat
  ancestry : List Container
  place : Place

/-- What a walk through a tree carries along: the candidates that it found, and the containers that are open where it stands, the innermost last. -/
structure Walk where
  found : List Candidate := []
  opened : List Container := []

namespace Walk

def enter (c : Container) (w : Walk) : Walk := { w with opened := w.opened ++ [c] }

def leave (w : Walk) : Walk := { w with opened := w.opened.dropLast }

mutual

/-- Visits a node that stands at `index` among `siblings`, with so many nodes of logic above it. Nothing below logic is a candidate. -/
def visit (siblings : List Node) (index depth : Nat) : Node → Walk → Walk
  | .text t place, w =>
    match place with
    | some p =>
      if depth = 0 ∧ !isBlankText t then { w with found := w.found ++ [⟨t, siblings, index, w.opened, p⟩] } else w
    | none => w
  | .tag _ _, w => w
  | .branch role _ content, w =>
    let depth := if role.isLogic then depth + 1 else depth
    match role.opens? with
    | some c => (visitAll content 0 depth content (w.enter c)).leave
    | none => visitAll content 0 depth content w

/-- Visits the siblings from `index` on. -/
def visitAll (siblings : List Node) (index depth : Nat) : List Node → Walk → Walk
  | [], w => w
  | n :: r, w => visitAll siblings (index + 1) depth r (visit siblings index depth n w)

end

end Walk

namespace Candidate

/-- The candidates of a tree, in the order of a walk through it. -/
def ofTree (root : Node) : List Candidate := (Walk.visit [root] 0 0 root {}).found

def text (c : Candidate) : Text := strip c.raw

/-- The identifier that the text of a tag node holds. -/
def identifierOfTag? (t : Text) : Option Text := (firstTag? ('#' :: t)).map TagMatch.identifier

/-- The first identifier among the nodes behind a text, up to the next text that is not blank or ends the line. -/
def attachedIn? : List Node → Option Text
  | [] => none
  | .tag t _ :: r => (identifierOfTag? t).or (attachedIn? r)
  | .text t _ :: r => if '\n' ∈ t ∨ !isBlankText t then none else attachedIn? r
  | .branch _ _ _ :: r => attachedIn? r

/-- The identifier attached to a candidate. -/
def attached? (c : Candidate) : Option Text := attachedIn? (c.siblings.drop (c.index + 1))

/-- The identifiers of all tags among the siblings of a candidate that were written on its line. -/
def lineIdentifiers (c : Candidate) : List Text :=
  c.siblings.filterMap fun
    | .tag t (some p) => if p.line = c.place.line then identifierOfTag? t else none
    | _ => none

end Candidate

/-- What an identifier starts with: the names of the knot and stitch around its line, each with an underscore behind it. -/
def identifierStem (ancestry : List Container) : Text :=
  (ancestry.filter (!·.name.isEmpty)).flatMap fun c => c.name ++ ['_']

end LineTags
