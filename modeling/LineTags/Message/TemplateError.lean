import LineTags.Text.Quoted

/-!
# What can be wrong with a template

A template fails by its own form, by a field that asks for something its values do not have, or by a layout that does not suit the value it is for.
-/

namespace LineTags

inductive TemplateError
  -- The form of the template.
  | loneOpening
  | loneClosing
  | unclosed
  | nested
  | unclosedLayout
  | noConversion
  | noColon
  | tooDeep
  | tooManyDigits
  | unknownConversion (c : Char)
  -- What a field refers to.
  | noPosition (index : Nat)
  | noValue (name : Text)
  | noEntry (index : Nat)
  | emptyPart
  | noPartSign
  | beyondText
  | beyondList
  | noItems
  | noPart
  -- The layout of a value.
  | twoSeparators
  | noPrecision
  | malformed (layout kind : Text)
  | separatorNotAllowed (separator form : Char)
  | unknownForm (form : Char) (kind : Text)
  | noLayout
  | textSign
  | textSpace
  | textZero
  | textAlternate
  | textInner
  | wholePrecision
  | wholeZero
  | characterSign
  | characterAlternate
  | noCharacter
  | farFromCharacter
  | beyondFloat
  | precisionTooBig
  | tooWide
  deriving DecidableEq

namespace TemplateError

/-- A character as an error shows it: itself if it is visible and its code point is below a bound, its code point otherwise. -/
def spelled (bound : Nat) (c : Char) : Text :=
  if 32 < c.toNat ∧ c.toNat < bound then [c] else '\\' :: 'x' :: Nat.toDigits 16 c.toNat

/-- The message of an error. That a value has no parts, no items or no layout goes without one, and so does a lack of room. -/
def message : TemplateError → Text
  | loneOpening => "Single '\x7b' encountered in format string".toList
  | loneClosing => "Single '\x7d' encountered in format string".toList
  | unclosed => "expected '\x7d' before end of string".toList
  | nested => "unexpected '\x7b' in field name".toList
  | unclosedLayout => "unmatched '\x7b' in format spec".toList
  | noConversion => "end of string while looking for conversion specifier".toList
  | noColon => "expected ':' after conversion specifier".toList
  | tooDeep => "Max string recursion exceeded".toList
  | tooManyDigits => "Too many decimal digits in format string".toList
  | unknownConversion c => "Unknown conversion specifier ".toList ++ spelled 127 c
  | noPosition index =>
    "Replacement index ".toList ++ Text.ofInt index ++ " out of range for positional args tuple".toList
  | noValue name => Text.quoted name
  | noEntry index => Text.ofInt index
  | emptyPart => "Empty attribute in format string".toList
  | noPartSign => "Only '.' or '[' may follow ']' in format field specifier".toList
  | beyondText => "string index out of range".toList
  | beyondList => "list index out of range".toList
  | noItems | noPart | noLayout | tooWide => []
  | twoSeparators => "Cannot specify both ',' and '_'.".toList
  | noPrecision => "Format specifier missing precision".toList
  | malformed layout kind =>
    "Invalid format specifier '".toList ++ layout ++ "' for object of type '".toList ++ kind ++ ['\'']
  | separatorNotAllowed separator form =>
    "Cannot specify '".toList ++ separator :: "' with '".toList ++ spelled 128 form ++ ['\'', '.']
  | unknownForm form kind =>
    "Unknown format code '".toList ++ spelled 128 form ++ "' for object of type '".toList ++ kind ++ ['\'']
  | textSign => "Sign not allowed in string format specifier".toList
  | textSpace => "Space not allowed in string format specifier".toList
  | textZero => "Negative zero coercion (z) not allowed in string format specifier".toList
  | textAlternate => "Alternate form (#) not allowed in string format specifier".toList
  | textInner => "'=' alignment not allowed in string format specifier".toList
  | wholePrecision => "Precision not allowed in integer format specifier".toList
  | wholeZero => "Negative zero coercion (z) not allowed in integer format specifier".toList
  | characterSign => "Sign not allowed with integer format specifier 'c'".toList
  | characterAlternate => "Alternate form (#) not allowed with integer format specifier 'c'".toList
  | noCharacter => "%c arg not in range(0x110000)".toList
  | farFromCharacter => "Python int too large to convert to C long".toList
  | beyondFloat => "int too large to convert to float".toList
  | precisionTooBig => "precision too big".toList

end TemplateError

end LineTags
