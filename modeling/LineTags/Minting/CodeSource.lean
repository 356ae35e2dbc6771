import LineTags.Tag.Basic

/-!
# Random codes

Codes are drawn letter by letter from an alphabet of 36. Where the numbers come from is a parameter of everything that draws: a list that is gone through over and over, or a linear congruential generator, of whose state the low bits are dropped.
-/

namespace LineTags

inductive CodeSource.Stream
  | cycle (draws : List Int)
  | congruential (state : Int)
  deriving DecidableEq

/-- A source of numbers, with the count of those drawn so far. -/
structure CodeSource where
  stream : CodeSource.Stream
  drawn : Nat := 0
  deriving DecidableEq

namespace CodeSource

/-- The number of states of the congruential generator. -/
def states : Int := 2147483648

/-- Draws a number below `n`. -/
def next (n : Nat) (s : CodeSource) : Nat × CodeSource :=
  match s.stream with
  | .cycle draws => (((draws[s.drawn % draws.length]?.getD 0) % (n : Int)).toNat, { s with drawn := s.drawn + 1 })
  | .congruential state =>
    let state : Int := (state * 1103515245 + 12345) % states
    ((state / 65536 % (n : Int)).toNat, ⟨.congruential state, s.drawn + 1⟩)

/-- The letters of codes. -/
def alphabet : Text := "ABCDEFGHIJKLMNOPQRSTUVWXYZ0123456789".toList

def drawLetter (s : CodeSource) : Char × CodeSource :=
  let (i, s) := s.next alphabet.length
  (alphabet[i]?.getD 'A', s)

def drawCode : Nat → CodeSource → Text × CodeSource
  | 0, s => ([], s)
  | length + 1, s =>
    let (c, s) := s.drawLetter
    let (code, s) := drawCode length s
    (c :: code, s)

/-- Draws codes behind a stem until an identifier turns up that is not in use, at most `attempts` times. -/
def drawIdentifier (stem : Text) (length : Nat) (used : List Text) : Nat → CodeSource → Option Text × CodeSource
  | 0, s => (none, s)
  | attempts + 1, s =>
    let (code, s) := s.drawCode length
    if used.contains (stem ++ code) then drawIdentifier stem length used attempts s else (some (stem ++ code), s)

end CodeSource

end LineTags
