import LineTags.Message.TemplateError
import LineTags.Text.Brace

/-!
# Fields of a template

A field stands between braces. It has a name, and may have a conversion behind `!` and a layout behind `:`. Fields inside a layout keep their braces here, so a layout ends where its braces are balanced.
-/

namespace LineTags

/-- A field, before it is known what its parts mean. -/
structure Field where
  name : Text
  conversion? : Option Char
  layout : Text

namespace Field

/-- The name of a field, the character that ends it, and what follows. Inside brackets every character belongs to the name. -/
def cutName (inBrackets : Bool) : Text → Except TemplateError (Text × Char × Text)
  | [] => .error .unclosed
  | c :: r =>
    if inBrackets then (cutName (c != ']') r).map fun (name, stop) => (c :: name, stop)
    else if c = '\x7b' then .error .nested
    else if c = '\x7d' ∨ c = '!' ∨ c = ':' then .ok ([], c, r)
    else (cutName (c == '[') r).map fun (name, stop) => (c :: name, stop)

/-- A field with a layout, which ends at the brace that closes the field. -/
def cutLayout (name : Text) (conversion? : Option Char) (t : Text) : Except TemplateError (Field × Text) :=
  match Text.cutAtBrace? 0 t with
  | some (layout, r) => .ok (⟨name, conversion?, layout⟩, r)
  | none => .error .unclosedLayout

/-- The field behind an opened brace, and what follows its closing brace. -/
def cut (t : Text) : Except TemplateError (Field × Text) :=
  match cutName false t with
  | .error e => .error e
  | .ok (name, stop, r) =>
    if stop = ':' then cutLayout name none r
    else if stop = '!' then
      match r with
      | [] => .error .noConversion
      | [_] => .error .unclosedLayout
      | c :: '\x7d' :: r => .ok (⟨name, some c, []⟩, r)
      | c :: ':' :: r => cutLayout name (some c) r
      | _ => .error .noColon
    else .ok (⟨name, none, []⟩, r)

theorem length_of_cutName {inBrackets : Bool} {t name r : Text} {stop : Char}
    (h : cutName inBrackets t = .ok (name, stop, r)) : r.length < t.length := by
  induction t generalizing inBrackets name with
  | nil => simp [cutName] at h
  | cons c t ih =>
    have longer {b : Bool} (h : (cutName b t).map (fun (name, stop) => (c :: name, stop)) = .ok (name, stop, r)) :
        r.length < (c :: t).length := by
      cases hr : cutName b t with
      | error e => simp [hr, Except.map] at h
      | ok p =>
        obtain ⟨x, y, z⟩ := p
        simp only [hr, Except.map, Except.ok.injEq, Prod.mk.injEq] at h
        obtain ⟨_, rfl, rfl⟩ := h
        exact Nat.lt_succ_of_lt (ih hr)
    rw [cutName] at h
    split at h
    · exact longer h
    · split at h
      · exact nomatch h
      · split at h
        · simp only [Except.ok.injEq, Prod.mk.injEq] at h
          simp [← h.2.2]
        · exact longer h

theorem length_of_cutLayout {name t r : Text} {conversion? : Option Char} {field : Field}
    (h : cutLayout name conversion? t = .ok (field, r)) : r.length < t.length := by
  unfold cutLayout at h
  split at h
  · next hc =>
    simp only [Except.ok.injEq, Prod.mk.injEq] at h
    exact h.2 ▸ Text.length_of_cutAtBrace? hc
  · exact nomatch h

theorem length_of_cut {t r : Text} {field : Field} (h : cut t = .ok (field, r)) : r.length < t.length := by
  unfold cut at h
  split at h
  · exact nomatch h
  next name stop s hn =>
    have := length_of_cutName hn
    split at h
    · have := length_of_cutLayout h
      omega
    · split at h
      · split at h
        · exact nomatch h
        · exact nomatch h
        · simp only [Except.ok.injEq, Prod.mk.injEq] at h
          simp only [List.length_cons, h.2] at this
          omega
        · have := length_of_cutLayout h
          simp only [List.length_cons] at *
          omega
        · exact nomatch h
      · simp only [Except.ok.injEq, Prod.mk.injEq] at h
        exact h.2 ▸ this

end Field

end LineTags
