import LineTags.Message.Field
import LineTags.Message.Referent

/-!
# Message templates

A template is a text with fields in braces, for which the values of a message stand in. A doubled brace is a brace. Fields are filled from left to right, so a missing value is reported before a fault of the template behind it. A layout may be a template itself, but not one whose layouts are templates again.
-/

namespace LineTags.Template

/-- Fills a template; the layouts in it may be templates down to a depth. -/
def fillTo (depth : Nat) (values : List (Text × Json)) (t : Text) : Except TemplateError Text :=
  match t with
  | [] => .ok []
  | '\x7b' :: '\x7b' :: r => (fillTo depth values r).map ('\x7b' :: ·)
  | '\x7d' :: '\x7d' :: r => (fillTo depth values r).map ('\x7d' :: ·)
  | ['\x7b'] => .error .loneOpening
  | '\x7d' :: _ => .error .loneClosing
  | '\x7b' :: r =>
    match _h : Field.cut r with
    | .error e => .error e
    | .ok (field, rest) => do
      let found ← Referent.ofName values field.name
      let converted ← field.conversion?.elim (.ok found) found.convert
      let layout ←
        if field.layout.any (· == '\x7b') then
          match depth with
          | 0 => throw .tooDeep
          | d + 1 => fillTo d values field.layout
        else pure field.layout
      return (← converted.layOut layout) ++ (← fillTo depth values rest)
  | c :: r => (fillTo depth values r).map (c :: ·)
termination_by (depth, t.length)
decreasing_by
  · exact Prod.Lex.right _ (by simp only [List.length_cons]; omega)
  · exact Prod.Lex.right _ (by simp only [List.length_cons]; omega)
  · exact Prod.Lex.right _ (Nat.lt_trans (Field.length_of_cut ‹_›) (Nat.lt_succ_self _))
  · exact Prod.Lex.left _ _ (Nat.lt_succ_self _)
  · exact Prod.Lex.right _ (Nat.lt_succ_self _)

/-- Fills a template. -/
def fill (values : List (Text × Json)) (t : Text) : Except TemplateError Text := fillTo 1 values t

end LineTags.Template
