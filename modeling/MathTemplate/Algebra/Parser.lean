import MathTemplate.Algebra.Expr
import MathTemplate.Algebra.Token

/-!
# Reading expressions

An expression is an operand followed by operators with their right operands.  `expression`
takes a limit and reads on as long as the next operator binds more tightly than it; the
right operand of an operator is read at the limit of the operator's own strength, so that
operators of one strength group to the left, and that of a power one below it, so that
powers group to the right.

Each reader returns what it read with the tokens that are left and a proof that they are
fewer than it was given (`Parsed`); the readers call each other on what is left, and
therefore end.
-/

namespace MathTemplate.Algebra

/-! ### Operators -/

/-- An operator between two operands. -/
inductive Operator where
  | or | and
  | rel (relation : Relation)
  | plus | minus | times | dividedBy | power
  deriving DecidableEq, Repr

namespace Operator

/-- The relation a symbol writes. -/
def relation? : Symbol → Option Relation
  | .eq => some .eq
  | .hash => some .ne
  | .lt => some .lt
  | .gt => some .gt
  | .le => some .le
  | .ge => some .ge
  | _ => none

/-- The operator a symbol writes. -/
def ofSymbol? : Symbol → Option Operator
  | .plus => some plus
  | .minus => some minus
  | .star => some times
  | .slash => some dividedBy
  | .caret => some power
  | s => (relation? s).map rel

/-- The operator a token writes. -/
def ofToken? : Token → Option Operator
  | .ident name => if name = "or" then some or else if name = "and" then some and else none
  | .symbol s => ofSymbol? s
  | _ => none

/-- How tightly an operator binds. -/
def strength : Operator → Nat
  | or => Strength.disjunction
  | and => Strength.conjunction
  | rel _ => Strength.relation
  | plus => Strength.sum
  | minus => Strength.sum
  | times => Strength.product
  | dividedBy => Strength.product
  | power => Strength.power

/-- The limit at which the right operand is read. -/
def rightLimit : Operator → Nat
  | power => Strength.power - 1
  | op => op.strength

/-- Two operands joined by an operator. -/
def join : Operator → Expr → Expr → Expr
  | or, a, b => .or [a, b]
  | and, a, b => .and [a, b]
  | rel r, a, b => .rel r a b
  | plus, a, b => .add [a, b]
  | minus, a, b => .add [a, .neg b]
  | times, a, b => .mul [a, b]
  | dividedBy, a, b => .div a b
  | power, a, b => .pow a b

end Operator

/-! ### The readers -/

/-- What was read, and the tokens that are left, fewer than `bound`. -/
structure Parsed (α : Type) (bound : Nat) where
  value : α
  rest : List Token
  shorter : rest.length < bound

namespace Parser

/-- The tokens behind the symbol `close`, which must come next. -/
def expect (close : Symbol) : (ts : List Token) → Except SyntaxFault (Parsed Unit ts.length)
  | [] => .error (.expectedAtEnd close.text)
  | t :: rest =>
    match t with
    | .symbol s =>
      if s = close then .ok ⟨(), rest, by simp⟩ else .error (.expected close.text s.text)
    | t => .error (.expected close.text t.describe)

mutual

/-- An operand: a literal, a name, a call, a signed or negated expression, or an expression
or a sequence in brackets. -/
def operand (ts : List Token) : Except SyntaxFault (Parsed Expr ts.length) :=
  match ts with
  | [] => .error .missingOperand
  | .int n :: rest => .ok ⟨.int n, rest, by simp⟩
  | .real r :: rest => .ok ⟨.real r, rest, by simp⟩
  | .str text :: rest => .ok ⟨.str text, rest, by simp⟩
  | .symbol .minus :: rest => do
    let ⟨e, left, h⟩ ← expression Strength.unary rest
    return ⟨.neg e, left, by simp only [List.length_cons]; omega⟩
  | .symbol .plus :: rest => do
    let ⟨e, left, h⟩ ← expression Strength.unary rest
    return ⟨e, left, by simp only [List.length_cons]; omega⟩
  | .symbol .openParen :: rest => do
    let ⟨e, left, h⟩ ← expression 0 rest
    let ⟨_, left', h'⟩ ← expect .closeParen left
    return ⟨e, left', by simp only [List.length_cons]; omega⟩
  | .symbol .openBracket :: rest => do
    let ⟨items, left, h⟩ ← sequence .closeBracket rest
    return ⟨.list items, left, by simp only [List.length_cons]; omega⟩
  | .symbol .openBrace :: rest => do
    let ⟨items, left, h⟩ ← sequence .closeBrace rest
    return ⟨.set items, left, by simp only [List.length_cons]; omega⟩
  | .symbol s :: _ => .error (.strayToken s.text)
  | .ident name :: rest =>
    if name = "true" then .ok ⟨.bool true, rest, by simp⟩
    else if name = "false" then .ok ⟨.bool false, rest, by simp⟩
    else if name = "not" then do
      let ⟨e, left, h⟩ ← expression Strength.negation rest
      return ⟨.not e, left, by simp only [List.length_cons]; omega⟩
    else if name = "and" ∨ name = "or" then .error (.missingLeft name)
    else
      match rest with
      | .symbol .openParen :: inner => do
        let ⟨args, left, h⟩ ← sequence .closeParen inner
        return ⟨.call name args, left, by simp only [List.length_cons]; omega⟩
      | rest => .ok ⟨.sym name, rest, by simp⟩
  termination_by 4 * ts.length
  decreasing_by all_goals (simp only [List.length_cons]; omega)

/-- An expression whose outer operators bind more tightly than `limit`. -/
def expression (limit : Nat) (ts : List Token) : Except SyntaxFault (Parsed Expr ts.length) := do
  let ⟨lhs, rest, h⟩ ← operand ts
  let ⟨e, left, h'⟩ ← operators limit lhs rest
  return ⟨e, left, by omega⟩
  termination_by 4 * ts.length + 1
  decreasing_by all_goals omega

/-- The operators behind the left operand `lhs` that bind more tightly than `limit`, with
their right operands.  There may be none, and then every token is left. -/
def operators (limit : Nat) (lhs : Expr) (ts : List Token) :
    Except SyntaxFault (Parsed Expr (ts.length + 1)) :=
  match ts with
  | [] => .ok ⟨lhs, [], by simp⟩
  | t :: rest =>
    match Operator.ofToken? t with
    | none => .ok ⟨lhs, t :: rest, by simp⟩
    | some op =>
      if op.strength ≤ limit then .ok ⟨lhs, t :: rest, by simp⟩
      else do
        let ⟨rhs, left, h⟩ ← expression op.rightLimit rest
        let ⟨e, left', h'⟩ ← operators limit (op.join lhs rhs) left
        return ⟨e, left', by simp only [List.length_cons]; omega⟩
  termination_by 4 * ts.length
  decreasing_by all_goals (simp only [List.length_cons]; omega)

/-- The items of a sequence up to and including its closing bracket. -/
def sequence (close : Symbol) (ts : List Token) : Except SyntaxFault (Parsed (List Expr) ts.length) :=
  match ts with
  | .symbol s :: rest =>
    if s = close then .ok ⟨[], rest, by simp⟩ else items close (.symbol s :: rest)
  | ts => items close ts
  termination_by 4 * ts.length + 3
  decreasing_by all_goals omega

/-- One item or more, separated by commas, up to and including the closing bracket. -/
def items (close : Symbol) (ts : List Token) : Except SyntaxFault (Parsed (List Expr) ts.length) := do
  let ⟨e, rest, h⟩ ← expression 0 ts
  match rest, h with
  | [], _ => .error (.expectedAtEnd close.text)
  | t :: left, h =>
    match t with
    | .symbol s =>
      if s = .comma then do
        let ⟨es, left', h'⟩ ← items close left
        return ⟨e :: es, left', by simp only [List.length_cons] at h; omega⟩
      else if s = close then .ok ⟨[e], left, by simp only [List.length_cons] at h; omega⟩
      else .error (.expectedSeparator close.text s.text)
    | t => .error (.expectedSeparator close.text t.describe)
  termination_by 4 * ts.length + 2
  decreasing_by
    all_goals
      try simp only [List.length_cons] at *
      omega

end

/-- Whether the tokens behind a complete expression allow it to end there. -/
def finish : List Token → Except SyntaxFault Unit
  | [] => .ok ()
  | .symbol .colon :: _ => .error .innerAssignment
  | t :: _ => .error (.trailing t.describe)

/-- The expression a list of tokens writes. -/
def whole (ts : List Token) : Except SyntaxFault Expr :=
  if ts.isEmpty then .error .empty
  else do
    let ⟨e, rest, _⟩ ← expression 0 ts
    finish rest
    return e

end Parser

/-! ### Expressions and statements -/

/-- What may be evaluated: an expression, or an assignment to one element of the matrix or
the list bound to a name. -/
inductive Statement where
  | expr (e : Expr)
  | setElement (name : String) (indices : List Expr) (value : Expr)
  deriving Repr

namespace Parser

/-- The statement that begins with `name[`, given the tokens behind the bracket; `none` when
no colon follows the indices, so that it is no assignment. -/
def elementAssignment (name : String) (ts : List Token) :
    Except SyntaxFault (Option Statement) := do
  let ⟨indices, rest, _⟩ ← sequence .closeBracket ts
  match rest with
  | .symbol .colon :: value =>
    if indices.isEmpty then .error (.missingIndex name)
    else do
      let ⟨e, left, _⟩ ← expression 0 value
      finish left
      return some (.setElement name indices e)
  | _ => return none

/-- The statement a list of tokens writes. -/
def statement (ts : List Token) : Except SyntaxFault Statement :=
  match ts with
  | .ident name :: .symbol .openBracket :: rest => do
    match ← elementAssignment name rest with
    | some s => return s
    | none => return .expr (← whole ts)
  | _ => return .expr (← whole ts)

end Parser

/-- The expression a text writes. -/
def parse (s : String) : Except SyntaxFault Expr := do
  Parser.whole (← tokenize s)

/-- The statement a text writes. -/
def parseStatement (s : String) : Except SyntaxFault Statement := do
  Parser.statement (← tokenize s)

end MathTemplate.Algebra
