import LineTags.Minting.Generation

/-!
# What can go wrong with tags

None of these stops an editing session. Most are only reported; a second tag on a line is refused, and only where strict checking was asked for.
-/

namespace LineTags

inductive TaggingError
  | parseUnavailable (file reason : Text)
  | exhausted (e : Exhaustion)
  | staleResult (file : Text) (line : Int) (expected : Text) (actual : Option Text)
  | anchorMissing (identifier : Text)
  | multipleTags (e : MultipleTags)
  deriving DecidableEq

namespace TaggingError

/-- A file as messages name it; there is a word for the lack of one. -/
def fileWord (file : Option Text) : Text := file.getD "None".toList

def message : TaggingError → Text
  | parseUnavailable file reason => if reason.isEmpty then file else file ++ ": ".toList ++ reason
  | exhausted e =>
    "Failed to generate unique ID after ".toList ++ Text.ofInt e.attempts ++ " attempts for ".toList
      ++ fileWord e.file ++ ':' :: Text.ofInt e.line ++ ": ".toList ++ e.text
  | staleResult file line _ _ => file ++ ':' :: Text.ofInt line ++ " changed since it was parsed".toList
  | anchorMissing identifier => identifier
  | multipleTags e => e.message

end TaggingError

end LineTags
