import LineTags.Json.Decimal
import LineTags.Text.Quoted

/-!
# Data values

Settings files hold data of any shape: JSON values. Whole numbers are exact, other numbers are floating-point. The fields of an object keep the order in which their names first appeared, and each name occurs once.
-/

namespace LineTags

inductive Json
  | null
  | bool (b : Bool)
  | int (n : Int)
  | float (x : Float)
  | string (t : Text)
  | array (items : List Json)
  | object (fields : List (Text × Json))
  deriving BEq, Inhabited

namespace Json

def get? (name : Text) : Json → Option Json
  | object fields => fields.lookup name
  | _ => none

/-- What counts as yes: everything but null, false, zero and what is empty. -/
def isTruthy : Json → Bool
  | null => false
  | bool b => b
  | int n => n != 0
  | float x => x != 0.0
  | string t => !t.isEmpty
  | array items => !items.isEmpty
  | object fields => !fields.isEmpty

/-- A value as messages show it inside another value: texts are quoted, brackets and commas as in a list, words with a capital letter. -/
def shown : Json → Text
  | null => "None".toList
  | bool true => "True".toList
  | bool false => "False".toList
  | int n => Text.ofInt n
  | float x => Decimal.ofFloat x
  | string t => Text.quoted t
  | array items => '[' :: Text.join ", ".toList (items.attach.map fun ⟨item, _⟩ => shown item) ++ [']']
  | object fields =>
    '\x7b' :: Text.join ", ".toList (fields.attach.map fun ⟨(name, value), _⟩ =>
      Text.quoted name ++ ": ".toList ++ shown value) ++ ['\x7d']
decreasing_by
  all_goals simp_wf
  · rename_i h
    have := List.sizeOf_lt_of_mem h
    omega
  · rename_i h
    have := List.sizeOf_lt_of_mem h
    simp at this
    omega

/-- A value as a message shows it on its own: a text stands for itself. -/
def display : Json → Text
  | string t => t
  | value => shown value

end Json

end LineTags
