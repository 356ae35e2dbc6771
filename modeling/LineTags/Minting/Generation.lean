import LineTags.Minting.Candidate
import LineTags.Minting.CodeSource
import LineTags.Keyed

/-!
# Minting identifiers

Every line with narrative text gets one identifier, however many pieces the line is in. A line that carries identifiers keeps them, and all of these are reserved before the first new one is drawn, so no new identifier meets one that stands later in the script. A line for which every draw was taken is left alone and reported.
-/

namespace LineTags

open Text

/-- A new identifier for a line. -/
structure IdEdit where
  file : Option Text
  line : Int
  text : Text
  identifier : Text
  deriving DecidableEq

def IdEdit.tag (e : IdEdit) : Text := formatTag e.identifier

/-- A line for which every draw gave an identifier that is in use. -/
structure Exhaustion where
  file : Option Text
  line : Int
  text : Text
  attempts : Int
  deriving DecidableEq

/-- What minting came to: the new identifiers, the lines without one, the identifiers found in the script, and all that are in use now. -/
structure Generation where
  edits : List IdEdit := []
  failures : List Exhaustion := []
  found : List Text := []
  used : List Text := []
  deriving DecidableEq

/-- How identifiers are drawn. A number of attempts or letters below zero counts as zero. -/
structure Generator where
  maxAttempts : Int := 100
  length : Int := codeLength
  source : CodeSource
  deriving DecidableEq

/-- The pieces of one line, the first apart. -/
structure LineGroup where
  first : Candidate
  more : List Candidate

namespace LineGroup

def members (g : LineGroup) : List Candidate := g.first :: g.more

def text (g : LineGroup) : Text := join [' '] (g.members.map Candidate.text)

/-- The identifiers that a line carries: those attached to its pieces, or else any written on it. -/
def identifiers (g : LineGroup) : List Text :=
  match g.members.filterMap Candidate.attached? with
  | [] => g.first.lineIdentifiers
  | ids => ids

/-- Adds a candidate to the group of its line, or opens a new group at the end. -/
def insert (c : Candidate) : List LineGroup → List LineGroup
  | [] => [⟨c, []⟩]
  | g :: r => if g.first.place = c.place then { g with more := g.more ++ [c] } :: r else g :: insert c r

/-- The lines of the candidates, in the order of their first pieces. -/
def ofCandidates (cs : List Candidate) : List LineGroup := cs.foldl (fun groups c => insert c groups) []

end LineGroup

namespace Generation

/-- The edits for the lines of one file. -/
def editsFor (g : Generation) (file : Option Text) : List IdEdit := g.edits.filter (·.file == file)

/-- Adds identifiers to those in use, each once. -/
def reserve (ids used : List Text) : List Text := ids.foldl (fun r i => r.insert i) used

/-- What minting comes to where there is no story. -/
def ofNoStory (existing : List Text) : Generation := { used := reserve existing [] }

end Generation

namespace Generator

/-- Draws an identifier and reserves it. -/
def mint (g : Generator) (stem : Text) (used : List Text) : Option Text × List Text × Generator :=
  let (id?, source) := g.source.drawIdentifier stem g.length.toNat used g.maxAttempts.toNat
  (id?, (id?.map (used.insert ·)).getD used, { g with source })

/-- Draws an identifier for one line. -/
def mintFor (line : LineGroup) : Generation × Generator → Generation × Generator
  | (result, g) =>
    let place := line.first.place
    match g.mint (identifierStem line.first.ancestry) result.used with
    | (some id, used, g) =>
      ({ result with used, edits := result.edits ++ [⟨place.file, place.line, line.text, id⟩] }, g)
    | (none, _, g) =>
      ({ result with failures := result.failures ++ [⟨place.file, place.line, line.text, g.maxAttempts⟩] }, g)

/-- Mints an identifier for each line of a tree that carries none. -/
def run (g : Generator) (existing : List Text) (root : Node) : Generation × Generator :=
  let groups := LineGroup.ofCandidates (Candidate.ofTree root)
  let found := Generation.reserve (groups.flatMap LineGroup.identifiers) []
  let start : Generation := { found, used := Generation.reserve found (Generation.reserve existing []) }
  (groups.filter (·.identifiers.isEmpty)).foldl (fun r line => mintFor line r) (start, g)

end Generator

end LineTags
