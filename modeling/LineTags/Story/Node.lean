import LineTags.Text.Basic

/-!
# Stories

A parsed script is a tree. Its leaves are pieces of text and tags; its branches are the knots and stitches that structure the script, the logic that no reader sees, and the lines, choices, gathers, diverts and included files that hold the rest together.
-/

namespace LineTags

/-- Where something was written: the file, if it is known, and the line. -/
structure Place where
  file : Option Text
  line : Int
  deriving DecidableEq

inductive ContainerKind
  | knot
  | stitch
  deriving DecidableEq

/-- A knot or stitch as its lines see it. -/
structure Container where
  kind : ContainerKind
  name : Text
  deriving DecidableEq

/-- What a branch of the tree stands for. The text below an assignment, an interpolation or any other logic is not narrative. -/
inductive Role
  | container (c : Container)
  | assignment (name : Text)
  | interpolation
  | logic
  | story
  | inclusion (target : Text)
  | divert (target : Text)
  | choice
  | gather
  | line
  | group
  deriving DecidableEq

inductive Node
  | text (text : Text) (place : Option Place)
  | tag (text : Text) (place : Option Place)
  | branch (role : Role) (place : Option Place) (content : List Node)

instance : Inhabited Node := ⟨.branch .group none []⟩

def Role.isLogic : Role → Bool
  | assignment _ | interpolation | logic => true
  | _ => false

/-- The container that a branch puts around its content. One without a name does not count. -/
def Role.opens? : Role → Option Container
  | container c => if c.name.isEmpty then none else some c
  | _ => none

namespace Node

def place : Node → Option Place
  | text _ place | tag _ place | branch _ place _ => place

def content : Node → List Node
  | branch _ _ content => content
  | _ => []

/-- The name of the knot or stitch that a node is. -/
def containerName? : Node → Option Text
  | branch (.container c) _ _ => some c.name
  | _ => none

end Node

/-- A parsed script: its tree, the files it was read from in the order of reading, and its knots with their places in the order of reading. -/
structure Story where
  root : Node
  fileNames : List Text
  knots : List (Text × Place)

end LineTags
