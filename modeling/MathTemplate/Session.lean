import Std.Data.TreeMap
import MathTemplate.Check.Assignment
import MathTemplate.Text.Distinct
import MathTemplate.Value

/-!
# Sessions

A session is the log of everything that was evaluated, in order.  Each entry is bound to a
key, given by the author or generated; a look-up finds the latest value bound to a key.  An
entry whose evaluation fails, or whose expression is rejected before, has no value and hides
none.

The numbers of generated keys have 64 bits, and the greatest one is followed by 0: so they are
counted without overflow checks.  Compiled with them, the program stops instead of counting past
the greatest number.

A block is left by returning to a mark: the keys of what was appended since leave the list of
keys, and the numbers of generated keys go on from where they stood, but the entries stay in
the log and their values stay in force.
-/

namespace MathTemplate

open Text (distinct trimmed)

/-- What became of an expression. -/
inductive Outcome where
  | bound (value : Value) (display : String)
  /-- the evaluator refused it -/
  | failed (message : String)
  /-- it was refused before it came to the evaluator -/
  | rejected (message : String)
  deriving Repr

namespace Outcome

/-- The value an expression has. -/
def value? : Outcome → Option Value
  | bound value _ => some value
  | _ => none

/-- The display form an expression has. -/
def display? : Outcome → Option String
  | bound _ display => some display
  | _ => none

/-- What went wrong with an expression. -/
def error? : Outcome → Option String
  | bound _ _ => none
  | failed message => some message
  | rejected message => some message

end Outcome

/-- An entry of the log. -/
structure Binding where
  key : String
  /-- the text as it was written, with the name it is bound to -/
  raw : String
  /-- the expression to evaluate -/
  expression : String
  outcome : Outcome
  /-- whether the block it was appended in has been left -/
  hidden : Bool := false
  deriving Repr

/-- A point of a session to return to. -/
structure Mark where
  length : Nat
  counter : UInt64
  deriving DecidableEq, Repr

/-- The places an empty map keeps, which are none, are those of bindings of an empty log. -/
theorem latest_lt_of_empty (key : String) (place : Nat)
    (h : (∅ : Std.TreeMap String Nat)[key]? = some place) :
  place < ([] : List Binding).length
  := by
  rw [Std.TreeMap.getElem?_emptyc] at h
  cases h

/-- A log of bindings. -/
structure Session where
  /-- the bindings, the latest first -/
  log : List Binding := []
  /-- the place of the latest binding of each key that has a value, counted from the earliest
  binding on -/
  latest : Std.TreeMap String Nat := ∅
  /-- the number the search for the next generated key begins at -/
  counter : UInt64 := 0
  options : RenderOptions := {}
  /-- the places are those of bindings -/
  latest_lt : ∀ (key : String) (place : Nat), latest[key]? = some place → place < log.length := by
    exact latest_lt_of_empty

/-- What appending an expression to a session came to. -/
structure Appended where
  key : String
  result : Except EvalError Evaluation

namespace Session

/-! ### Looking things up -/

/-- The bindings, the earliest first. -/
def bindings (s : Session) : List Binding := s.log.reverse

/-- The number of bindings. -/
def length (s : Session) : Nat := s.log.length

/-- The latest binding of a key that has a value. -/
def binding? (s : Session) (key : String) : Option Binding :=
  s.latest[key]?.bind fun place => s.bindings[place]?

/-- The latest value bound to a key. -/
def valueOf? (s : Session) (key : String) : Option Value :=
  (s.binding? key).bind fun b => b.outcome.value?

/-- The display form of the latest value bound to a key. -/
def displayOf? (s : Session) (key : String) : Option String :=
  (s.binding? key).bind fun b => b.outcome.display?

/-- The distinct keys of the bindings outside the blocks that have been left, in the order in
which they first appear. -/
def keys (s : Session) : List String :=
  distinct ((s.bindings.filter fun b => !b.hidden).map Binding.key)

/-- Whether no expression has gone wrong. -/
def isValid (s : Session) : Bool := s.log.all fun b => b.outcome.error?.isNone

/-- What has gone wrong, with the keys. -/
def errors (s : Session) : List (String × String) :=
  s.bindings.filterMap fun b => b.outcome.error?.map fun message => (b.key, message)

/-- The texts of the bindings as they were written. -/
def rawExpressions (s : Session) : List String := s.bindings.map Binding.raw

/-! ### Generated keys -/

/-- The generated key with a number. -/
def generatedKey (n : Nat) : String := "autogen" ++ toString n

/-- The number behind the word of a generated key. -/
def generatedNumber? (key : String) : Option UInt64 :=
  match key.toList with
  | 'a' :: 'u' :: 't' :: 'o' :: 'g' :: 'e' :: 'n' :: digits =>
    if digits.isEmpty || !digits.all Char.isDigit then none
    else
      let n := digits.foldl (fun n c => 10 * n + (c.toNat - '0'.toNat)) 0
      if n < UInt64.size then some (.ofNat n) else none
  | _ => none

/-- Whether a key is in the list of keys. -/
def isVisible (s : Session) (key : String) : Bool := s.log.any fun b => !b.hidden && b.key == key

/-- Whether the generated key with a number is in the list of keys. -/
def isTaken (s : Session) (n : UInt64) : Bool := s.isVisible (generatedKey n.toNat)

/-- The first number from `n` on that is not taken, looking at no more than `fuel` numbers
that are. -/
def firstFree (taken : UInt64 → Bool) : (fuel : Nat) → (n : UInt64) → UInt64
  | 0, n => n
  | fuel + 1, n => if taken n then firstFree taken fuel (n + 1) else n

/-- The number of the next generated key.  There are no more taken numbers than bindings outside
the blocks that have been left. -/
def freshNumber (s : Session) : UInt64 :=
  firstFree s.isTaken (s.log.countP fun b => !b.hidden) s.counter

/-- The key given, or the next generated one. -/
def keyOr (s : Session) (key : Option String) : String :=
  key.getD (generatedKey s.freshNumber.toNat)

/-- The counter behind the search for a generated key, if no key is given. -/
def counterBehind (s : Session) : Option String → UInt64
  | some _ => s.counter
  | none => s.freshNumber + 1

/-- A session that has been asked for a key. -/
def asked (s : Session) (key : Option String) : Session :=
  { s with counter := s.counterBehind key }

/-- The counter once a key is used. -/
def counterPast (s : Session) (key : String) : UInt64 :=
  match generatedNumber? key with
  | some n => max s.counter (n + 1)
  | none => s.counter

/-! ### Appending -/

/-- A binding is appended to the log. -/
def record (s : Session) (b : Binding) : Session where
  log := b :: s.log
  latest := if b.outcome.value?.isSome then s.latest.insert b.key s.length else s.latest
  counter := s.counterPast b.key
  options := s.options
  latest_lt := by
    intro key place h
    rw [List.length_cons]
    split at h
    · rw [Std.TreeMap.getElem?_insert] at h
      split at h
      · exact Nat.lt_succ_of_le (Nat.le_of_eq (Option.some.inj h).symm)
      · exact Nat.lt_succ_of_lt (s.latest_lt key place h)
    · exact Nat.lt_succ_of_lt (s.latest_lt key place h)

theorem log_record (s : Session) (b : Binding) :
  (s.record b).log = b :: s.log
  := rfl

/-- The place kept for a key is that of a binding that is appended, if it gives the key a
value. -/
theorem getElem?_latest_record (s : Session) (b : Binding) (key : String) :
  (s.record b).latest[key]? =
    if b.key = key ∧ b.outcome.value?.isSome = true then some s.length else s.latest[key]?
  := by
  have hlatest : (s.record b).latest =
      if b.outcome.value?.isSome then s.latest.insert b.key s.length else s.latest := rfl
  rw [hlatest]
  by_cases hvalue : b.outcome.value?.isSome = true
  · rw [if_pos hvalue, Std.TreeMap.getElem?_insert]
    by_cases hkey : b.key = key
    · rw [if_pos (Std.compare_eq_iff_eq.mpr hkey), if_pos ⟨hkey, hvalue⟩]
    · rw [if_neg (mt Std.compare_eq_iff_eq.mp hkey), if_neg fun h => hkey h.1]
  · rw [if_neg hvalue, if_neg fun h => hvalue h.2]

theorem bindings_record (s : Session) (b : Binding) :
  (s.record b).bindings = s.bindings ++ [b]
  := List.reverse_cons

/-- What is appended to the log changes nothing about the places that are kept. -/
theorem getElem?_bindings_append (s : Session) (b : Binding) (key : String) :
  (s.latest[key]?.bind fun place => (s.bindings ++ [b])[place]?) = s.binding? key
  := by
  rw [binding?]
  cases h : s.latest[key]? with
  | none => rfl
  | some place =>
    have hplace : place < s.bindings.length := by
      rw [bindings, List.length_reverse]
      exact s.latest_lt key place h
    exact List.getElem?_append_left hplace

/-- A binding that is appended is what its key stands for, if it has a value, and otherwise
changes no look-up. -/
theorem binding?_record (s : Session) (b : Binding) (key : String) :
  (s.record b).binding? key =
    if b.key = key ∧ b.outcome.value?.isSome = true then some b else s.binding? key
  := by
  rw [binding?, bindings_record, getElem?_latest_record]
  split
  · rw [Option.bind_some, length, ← List.length_reverse]
    exact List.getElem?_concat_length
  · apply getElem?_bindings_append

/-- The outcome of an evaluation. -/
def outcomeOf : Except EvalError Evaluation → Outcome
  | .ok e => .bound e.value e.display
  | .error e => .failed e.message

/-- An expression is evaluated and bound to a key. -/
def push (evaluator : Evaluator) (s : Session) (key raw expression : String) :
    Session × Appended :=
  let result := evaluator expression s.valueOf? s.options
  (s.record ⟨key, raw, expression, outcomeOf result, false⟩, ⟨key, result⟩)

/-- An expression is evaluated and bound to a key, written as an assignment. -/
def assign (evaluator : Evaluator) (s : Session) (key expression : String) :
    Session × Appended :=
  s.push evaluator key (key ++ ":" ++ trimmed expression) (trimmed expression)

/-- An expression is evaluated and bound to the key given or to the next generated one. -/
def append (evaluator : Evaluator) (s : Session) (key : Option String) (expression : String) :
    Session × Appended :=
  (s.asked key).push evaluator (s.keyOr key) (trimmed expression) (trimmed expression)

/-- A text is taken for an assignment, an element assignment or an expression without a name,
and its expression is evaluated and bound. -/
def addAssignment (evaluator : Evaluator) (s : Session) (text : String) : Session × Appended :=
  match Check.elementTarget? text with
  | some name => s.push evaluator name (trimmed text) (trimmed text)
  | none =>
    match Check.splitAssignment text with
    | (some key, expression) => s.assign evaluator key expression
    | (none, expression) => s.append evaluator none expression

/-- A text that was rejected is noted under the key given or under the next generated one. -/
def appendInvalid (s : Session) (key : Option String) (raw message : String) :
    Session × String :=
  ((s.asked key).record
      ⟨s.keyOr key, trimmed raw, (Check.splitAssignment raw).2, .rejected message, false⟩,
    s.keyOr key)

/-! ### Leaving a block -/

/-- The point a session is at. -/
def mark (s : Session) : Mark := ⟨s.length, s.counter⟩

/-- A binding of a block that has been left. -/
def hide (b : Binding) : Binding := { b with hidden := true }

/-- A session returned to a mark. -/
def restore (s : Session) (m : Mark) : Session :=
  let later := s.length - m.length
  { s with
    log := (s.log.take later).map hide ++ s.log.drop later
    counter := m.counter
    latest_lt := by
      intro key place h
      rw [List.length_append, List.length_map, ← List.length_append, List.take_append_drop]
      exact s.latest_lt key place h }

theorem log_restore (s : Session) (m : Mark) :
  (s.restore m).log =
    (s.log.take (s.length - m.length)).map hide ++ s.log.drop (s.length - m.length)
  := rfl

end Session

end MathTemplate
