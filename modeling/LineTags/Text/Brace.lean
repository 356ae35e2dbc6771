import LineTags.Text.Basic

/-!
# Braces

Both scripts and templates nest braces. What a brace encloses ends at the brace that closes it, with whatever is opened in between closed before.
-/

namespace LineTags.Text

/-- Cuts a text behind the brace that closes `depth + 1` opened ones: the part before that brace and the part behind it. -/
def cutAtBrace? (depth : Nat) : Text → Option (Text × Text)
  | [] => none
  | '\x7b' :: r => (cutAtBrace? (depth + 1) r).map fun (a, b) => ('\x7b' :: a, b)
  | '\x7d' :: r =>
    match depth with
    | 0 => some ([], r)
    | d + 1 => (cutAtBrace? d r).map fun (a, b) => ('\x7d' :: a, b)
  | c :: r => (cutAtBrace? depth r).map fun (a, b) => (c :: a, b)

theorem length_of_cutAtBrace? {depth : Nat} {t a b : Text} (h : cutAtBrace? depth t = some (a, b)) :
    b.length < t.length := by
  fun_induction cutAtBrace? depth t generalizing a b with
  | case1 => simp at h
  | case2 depth r ih =>
    obtain ⟨p, hp, he⟩ := Option.map_eq_some_iff.1 h
    have := ih hp
    simp_all
    omega
  | case3 r => simp_all
  | case4 r d ih =>
    obtain ⟨p, hp, he⟩ := Option.map_eq_some_iff.1 h
    have := ih hp
    simp_all
    omega
  | case5 depth c r _ _ ih =>
    obtain ⟨p, hp, he⟩ := Option.map_eq_some_iff.1 h
    have := ih hp
    simp_all
    omega

end LineTags.Text
