/-!
# Replacing parts of a text

`replacePair a b by` puts a text in the place of each occurrence of the two characters `a`
and `b`, going from left to right.
-/

namespace MathTemplate.Text

/-- A text with each pair of the characters `a` and `b` replaced. -/
def replacePair (a b : Char) (replacement : List Char) : List Char → List Char
  | c :: d :: rest =>
    if c = a ∧ d = b then replacement ++ replacePair a b replacement rest
    else c :: replacePair a b replacement (d :: rest)
  | cs => cs

end MathTemplate.Text
