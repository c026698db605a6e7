import MathTemplate.Proofs.Reading.Grammar

/-!
# The tokens an expression is spelled with

What there is to know about the tokens an expression is spelled with is told by the expression: no
colon is among them, a string among them is a part of the expression, and a closing bracket `]`
among them closes a list that is part of it.  So a property that only strings and closing brackets
may lack (`IsTypical`) holds of all tokens if the expression has it everywhere (`Expr.Spells`), and
not otherwise (`Derives.spelling`).
-/

namespace MathTemplate.Algebra

open MathTemplate.Algebra.Parser

/-- Whether a property holds of all tokens, except perhaps for strings and closing brackets. -/
def IsTypical (P : Token → Prop) : Prop :=
  ∀ t, P t ∨ t = .symbol .closeBracket ∨ ∃ text, t = .str text

/-- Whether the tokens an expression adds to those of its parts have a property, if the property
is typical. -/
def Expr.Spells (P : Token → Prop) : Expr → Prop
  | .str text => P (.str text)
  | .list _ => P (.symbol .closeBracket)
  | _ => True

/-- Whether a token makes no difference to a spelling. -/
def Neutral (P : Token → Prop) (t : Token) : Prop := P t ∧ t ≠ .symbol .colon

variable {P : Token → Prop}

/-- Whether some tokens may spell some expressions: there is no colon among them, and they have a
typical property just if the expressions have it everywhere. -/
structure Spelling (P : Token → Prop) (used : List Token) (es : List Expr) : Prop where
  colon : .symbol .colon ∉ used
  spells : (∀ t ∈ used, P t) ↔ ∀ e ∈ es, e.Everywhere (Expr.Spells P)

/-! ### Spellings -/

theorem Expr.everywhere_iff {Q : Expr → Prop} {e : Expr} :
  e.Everywhere Q ↔ Q e ∧ ∀ part ∈ e.parts, part.Everywhere Q
  := ⟨fun h => ⟨h.self, h.parts⟩, fun h => ⟨h.1, h.2⟩⟩

namespace IsTypical

theorem int (hP : IsTypical P) (n : Int64) :
  Neutral P (.int n)
  := by
  rcases hP (.int n) with h | ⟨⟨⟩⟩ | ⟨text, ⟨⟩⟩
  exact ⟨h, by rintro ⟨⟩⟩

theorem real (hP : IsTypical P) (x : Float) :
  Neutral P (.real x)
  := by
  rcases hP (.real x) with h | ⟨⟨⟩⟩ | ⟨text, ⟨⟩⟩
  exact ⟨h, by rintro ⟨⟩⟩

theorem ident (hP : IsTypical P) (name : String) :
  Neutral P (.ident name)
  := by
  rcases hP (.ident name) with h | ⟨⟨⟩⟩ | ⟨text, ⟨⟩⟩
  exact ⟨h, by rintro ⟨⟩⟩

theorem symbol (hP : IsTypical P) {s : Symbol} (hs : s ∉ [.closeBracket, .colon]) :
  Neutral P (.symbol s)
  := by
  rcases hP (.symbol s) with h | ⟨⟨⟩⟩ | ⟨text, ⟨⟩⟩
  · refine ⟨h, ?_⟩
    rintro ⟨⟩
    exact hs (by decide)
  · exact absurd (by decide) hs

theorem operator (hP : IsTypical P) {t : Token} {op : Operator}
    (h : Operator.ofToken? t = some op) :
  Neutral P t
  := by
  constructor
  · rcases hP t with ht | rfl | ⟨text, rfl⟩
    · exact ht
    · cases h
    · cases h
  · rintro rfl
    cases h

end IsTypical

namespace Spelling

variable {used more : List Token} {es fs : List Expr} {t : Token} {e : Expr}

theorem nil :
  Spelling P [] []
  := ⟨by simp, by simp⟩

theorem append (h : Spelling P used es) (h' : Spelling P more fs) :
  Spelling P (used ++ more) (es ++ fs)
  := by
  constructor
  · rw [List.mem_append, not_or]
    exact ⟨h.colon, h'.colon⟩
  · rw [List.forall_mem_append, List.forall_mem_append, h.spells, h'.spells]

theorem cons (ht : Neutral P t) (h : Spelling P used es) :
  Spelling P (t :: used) es
  := by
  constructor
  · rw [List.mem_cons, not_or]
    exact ⟨ht.2.symm, h.colon⟩
  · rw [List.forall_mem_cons, h.spells]
    exact and_iff_right ht.1

theorem single (ht : Neutral P t) :
  Spelling P [t] []
  := nil.cons ht

theorem enclosed {last : Token} (ht : Neutral P t) (hlast : Neutral P last)
    (h : Spelling P used es) :
  Spelling P (t :: (used ++ [last])) es
  := by
  have happend := h.append (single hlast)
  rw [List.append_nil] at happend
  exact happend.cons ht

/-- The parts of an expression that adds nothing spell the expression. -/
theorem node (h : Spelling P used e.parts) (he : e.Spells P) :
  Spelling P used [e]
  := by
  constructor
  · exact h.colon
  · rw [h.spells, List.forall_mem_singleton, Expr.everywhere_iff]
    exact (and_iff_right he).symm

theorem str (text : String) :
  Spelling P [.str text] [.str text]
  := by
  constructor
  · simp
  · rw [List.forall_mem_singleton, List.forall_mem_singleton, Expr.everywhere_iff]
    exact (and_iff_left (by rintro part ⟨⟩)).symm

/-- The brackets of a list add the closing one. -/
theorem list (hP : IsTypical P) (h : Spelling P used es) :
  Spelling P (.symbol .openBracket :: (used ++ [.symbol .closeBracket])) [.list es]
  := by
  refine cons (hP.symbol (by decide)) ⟨?_, ?_⟩
  · rw [List.mem_append, not_or]
    exact ⟨h.colon, by simp⟩
  · rw [List.forall_mem_append, List.forall_mem_singleton, List.forall_mem_singleton,
      Expr.everywhere_iff, h.spells]
    exact and_comm

theorem join (op : Operator) {lhs rhs : Expr} (hP : IsTypical P)
    (ht : Operator.ofToken? t = some op) (h : Spelling P used [lhs])
    (h' : Spelling P more [rhs]) :
  Spelling P (used ++ t :: more) [op.join lhs rhs]
  := by
  have hneutral := hP.operator ht
  have hright := h.append (h'.cons hneutral)
  cases op with
  | minus =>
    have hneg : Spelling P more [.neg rhs] := node h' trivial
    exact node (h.append (hneg.cons hneutral)) trivial
  | _ => exact node hright trivial

end Spelling

/-- What the rules of the grammar derive is a spelling. -/
theorem Derives.spelling {ts : List Token} {es : List Expr} (hP : IsTypical P)
    (h : Derives ts es) :
  Spelling P ts es
  := by
  induction h with
  | nil => exact Spelling.nil
  | int n => exact .node (.single (hP.int n)) trivial
  | real r => exact .node (.single (hP.real r)) trivial
  | str text => exact Spelling.str text
  | bool b => exact .node (.single (hP.ident _)) trivial
  | sym _ => exact .node (.single (hP.ident _)) trivial
  | neg _ ih => exact Spelling.cons (hP.symbol (by decide)) (.node ih trivial)
  | plus _ ih => exact ih.cons (hP.symbol (by decide))
  | not _ ih => exact Spelling.cons (hP.ident _) (.node ih trivial)
  | paren _ ih => exact ih.enclosed (hP.symbol (by decide)) (hP.symbol (by decide))
  | list _ ih => exact ih.list hP
  | set _ ih => exact .node (ih.enclosed (hP.symbol (by decide)) (hP.symbol (by decide))) trivial
  | call _ _ ih =>
    have hargs := ih.enclosed (hP.symbol (s := .openParen) (by decide))
      (hP.symbol (s := .closeParen) (by decide))
    exact .node (Spelling.cons (hP.ident _) hargs) trivial
  | @join t op _ _ _ _ ht _ _ ih ih' => exact ih.join op hP ht ih'
  | cons _ _ ih ih' => exact ih.append (ih'.cons (hP.symbol (by decide)))

end MathTemplate.Algebra
