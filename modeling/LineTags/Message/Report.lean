import LineTags.Message.Catalogue
import LineTags.TaggingError

/-!
# Lines of a report

Both programs tell about the same two troubles in the same words: a line that got no identifier, and an identifier that stands on more than one line.
-/

namespace LineTags

open Text

/-- Places as a message lists them. -/
def showPlaces (places : List (Text × Int)) : Text :=
  join [',', ' '] (places.map fun (file, line) => file ++ ':' :: ofInt line)

def tellDuplicate (language identifier : Text) (places : List (Text × Int)) : Text :=
  tell language "duplicate_id" [("id", identifier), ("places", showPlaces places)]

def tellExhaustion (language : Text) (e : Exhaustion) : Text :=
  tell language "untagged_failure"
    [("file", TaggingError.fileWord e.file), ("line", ofInt e.line), ("text", e.text)]

end LineTags
