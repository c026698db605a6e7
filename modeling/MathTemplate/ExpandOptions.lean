/-!
# Options of an expansion

The text for a student is held to more rules than that of a teacher, and each expansion may
forbid words of its own.
-/

namespace MathTemplate

/-- For whom a template is written. -/
inductive Mode where
  | teacher | student
  deriving DecidableEq, Repr, Inhabited

/-- The name of a mode. -/
def Mode.name : Mode → String
  | teacher => "teacher"
  | student => "student"

/-- The mode with a name. -/
def Mode.ofName? (s : String) : Option Mode :=
  [teacher, student].find? fun mode => mode.name == s

/-- The options of one expansion. -/
structure ExpandOptions where
  mode : Mode := .teacher
  forbiddenWords : List String := []
  deriving DecidableEq, Repr, Inhabited

end MathTemplate
