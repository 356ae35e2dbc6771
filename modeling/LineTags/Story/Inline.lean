import LineTags.Story.Node
import LineTags.Text.Brace
import LineTags.Text.WordChar

/-!
# The inside of a line

The narrative part of a line mixes text with interpolations in braces, tags, diverts and, in a choice, one bracketed part that only the choice shows. It is read as a list of pieces first; then neighbouring characters are put together into text nodes, and the brackets vanish, having kept the text before and behind them apart.
-/

namespace LineTags

open Text

/-- What a line is made of. A tag or a divert is one piece, and so is each plain character. -/
inductive Piece
  | char (c : Char)
  | bracket
  | interpolation (body : Text)
  | tag (body : Text)
  | divert (target : Text)
  deriving DecidableEq

/-- How far the bracketed part of a choice has been read. -/
inductive BracketState
  | notAllowed
  | awaited
  | opened
  | closed
  deriving DecidableEq

/-- What can be wrong inside a line. -/
inductive InlineFault
  | openBrace
  | openBracket
  deriving DecidableEq

def isTargetChar (c : Char) : Bool := isWordChar c || c == '.'

/-- The target behind a divert arrow and what follows it. Without a target the arrow stands alone. -/
def cutAtTarget (t : Text) : Text × Text :=
  let r := stripStart t
  if (r.takeWhile isTargetChar).isEmpty then ([], t) else (r.takeWhile isTargetChar, r.dropWhile isTargetChar)

/-- Whether a character goes on with the text of a tag. -/
def goesOnTag (state : BracketState) (c : Char) : Bool :=
  c != '#' && !(state == .opened && c == ']')

theorem length_dropWhile_le (p : Char → Bool) (t : Text) : (t.dropWhile p).length ≤ t.length := by
  induction t with
  | nil => simp
  | cons c r ih =>
    rw [List.dropWhile_cons]
    split
    · exact Nat.le_succ_of_le ih
    · exact Nat.le_refl _

theorem length_cutAtTarget_le (t : Text) : (cutAtTarget t).2.length ≤ t.length := by
  unfold cutAtTarget
  dsimp only
  split
  · exact Nat.le_refl _
  · exact Nat.le_trans (length_dropWhile_le _ _) (length_dropWhile_le _ _)

/-- The pieces of a line. A backslash makes the next character plain. -/
def piecesOf (state : BracketState) (t : Text) : Except InlineFault (List Piece) :=
  match t with
  | [] => if state = .opened then .error .openBracket else .ok []
  | '\\' :: c :: r => (piecesOf state r).map (.char c :: ·)
  | '\x7b' :: r =>
    match _h : cutAtBrace? 0 r with
    | none => .error .openBrace
    | some (body, rest) => (piecesOf state rest).map (.interpolation body :: ·)
  | '#' :: r =>
    (piecesOf state (r.dropWhile (goesOnTag state))).map (.tag (strip (r.takeWhile (goesOnTag state))) :: ·)
  | '-' :: '>' :: r => (piecesOf state (cutAtTarget r).2).map (.divert (cutAtTarget r).1 :: ·)
  | c :: r =>
    if c = '[' ∧ state = .awaited then (piecesOf .opened r).map (.bracket :: ·)
    else if c = ']' ∧ state = .opened then (piecesOf .closed r).map (.bracket :: ·)
    else (piecesOf state r).map (.char c :: ·)
termination_by t.length
decreasing_by
  all_goals simp only [List.length_cons]
  · omega
  · have := length_of_cutAtBrace? ‹_›
    omega
  · have := length_dropWhile_le (goesOnTag state) r
    omega
  · have := length_cutAtTarget_le r
    omega
  all_goals omega

/-- A text node, unless there is no text. -/
def textNode (place : Place) (t : Text) : List Node := if t.isEmpty then [] else [.text t (some place)]

/-- The text that the pieces start with, and the nodes behind it. -/
def nodesFrom (place : Place) : List Piece → Text × List Node
  | [] => ([], [.text ['\n'] (some place)])
  | .char c :: ps => let (t, nodes) := nodesFrom place ps; (c :: t, nodes)
  | .bracket :: ps => let (t, nodes) := nodesFrom place ps; ([], textNode place t ++ nodes)
  | .interpolation body :: ps =>
    let (t, nodes) := nodesFrom place ps
    ([], .branch .interpolation (some place) [.text body (some place)] :: textNode place t ++ nodes)
  | .tag body :: ps => let (t, nodes) := nodesFrom place ps; ([], .tag body (some place) :: textNode place t ++ nodes)
  | .divert target :: ps =>
    let (t, nodes) := nodesFrom place ps
    ([], .branch (.divert target) (some place) [] :: textNode place t ++ nodes)

/-- The nodes of a line. The last one is its line break. -/
def nodesOf (place : Place) (pieces : List Piece) : List Node :=
  let (t, nodes) := nodesFrom place pieces
  textNode place t ++ nodes

def readInline (state : BracketState) (place : Place) (body : Text) : Except InlineFault (List Node) :=
  (piecesOf state body).map (nodesOf place)

end LineTags
