/-!
# Joining texts

`joined` writes texts one after another with a separator between each two of them.
-/

namespace MathTemplate.Text

/-- Texts with a separator between each two of them. -/
def joined (separator : String) : List String → String
  | [] => ""
  | [s] => s
  | s :: rest => s ++ separator ++ joined separator rest

/-- A text in parentheses when they are needed. -/
def parenthesized (needed : Bool) (s : String) : String :=
  if needed then "(" ++ s ++ ")" else s

end MathTemplate.Text
