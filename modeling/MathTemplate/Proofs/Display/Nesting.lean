import Mathlib.Combinatorics.Enumerative.DyckWord
import MathTemplate.Algebra.Latex
import MathTemplate.Proofs.Reading.Written
import MathTemplate.Proofs.Simplification.Sets

/-!
# Brackets in the display form

The display form of an expression groups by braces, and by the commands `\left` and `\right`.  Each
of the two kinds is nested like the brackets of a Dyck word (`latex_nested`), for every choice of
options, if no strings are shown.

A text that is nested on its own stays so next to any other, because no command is cut by its end
(`IsClosed`): a part of a command at its end might otherwise become `\left` with what follows.
-/

namespace MathTemplate.Algebra

open DyckStep (U D)
open Text (joined)

/-! ### Brackets of a text -/

/-- Whether opening and closing brackets are properly nested. -/
def IsNested (steps : List DyckStep) : Prop := ∃ w : DyckWord, w.toList = steps

/-- What a character does as a brace. -/
def braceStep? (c : Char) : Option DyckStep :=
  if c = '\x7b' then some U else if c = '\x7d' then some D else none

/-- The braces of a text, in order. -/
def braces (cs : List Char) : List DyckStep := cs.filterMap braceStep?

/-- The command that opens a pair of delimiters. -/
def leftCommand : List Char := ['\\', 'l', 'e', 'f', 't']

/-- The command that closes a pair of delimiters. -/
def rightCommand : List Char := ['\\', 'r', 'i', 'g', 'h', 't']

/-- What the command does that a text begins with. -/
def fenceStep? (cs : List Char) : Option DyckStep :=
  if leftCommand <+: cs then some U else if rightCommand <+: cs then some D else none

/-- The commands `\left` and `\right` of a text, in order. -/
def fences (cs : List Char) : List DyckStep := cs.tails.filterMap fenceStep?

/-! ### Nested brackets -/

namespace IsNested

variable {v w : List DyckStep}

theorem nil :
  IsNested []
  := ⟨0, rfl⟩

theorem append (h : IsNested v) (h' : IsNested w) :
  IsNested (v ++ w)
  := by
  obtain ⟨p, rfl⟩ := h
  obtain ⟨q, rfl⟩ := h'
  exact ⟨p + q, rfl⟩

theorem enclosed (h : IsNested w) :
  IsNested (U :: (w ++ [D]))
  := by
  obtain ⟨p, rfl⟩ := h
  exact ⟨p.nest, rfl⟩

end IsNested

/-! ### Texts put together -/

variable {c : Char} {cs ds : List Char} {s t : String}

theorem braces_append :
  braces (cs ++ ds) = braces cs ++ braces ds
  := List.filterMap_append

theorem fences_cons :
  fences (c :: cs) = (fenceStep? (c :: cs)).toList ++ fences cs
  := by
  rw [fences, List.tails_cons, List.filterMap_cons]
  cases fenceStep? (c :: cs) <;> rfl

/-- Whether no command of a text goes on behind its end. -/
def IsClosed (cs : List Char) : Prop := ∀ more, fences (cs ++ more) = fences cs ++ fences more

/-- Whether no part of a text up to its end is the beginning of a longer command. -/
def IsWhole (cs : List Char) : Prop :=
  ∀ part ∈ cs.tails, ∀ command ∈ [leftCommand, rightCommand],
    part <+: command → part = [] ∨ part = command

instance (cs : List Char) : Decidable (IsWhole cs) :=
  inferInstanceAs (Decidable (∀ part ∈ cs.tails, ∀ command ∈ _, _))

theorem isClosed_of_isWhole (h : IsWhole cs) :
  IsClosed cs
  := by
  intro more
  induction cs with
  | nil => rfl
  | cons c cs ih =>
    rw [IsWhole, List.tails_cons, List.forall_mem_cons] at h
    obtain ⟨hparts, hcs⟩ := h
    have hcommand : ∀ command ∈ [leftCommand, rightCommand],
        command <+: c :: (cs ++ more) ↔ command <+: c :: cs := by
      intro command hmem
      have hbegins : c :: cs <+: c :: (cs ++ more) := List.prefix_append (c :: cs) more
      refine ⟨fun hprefix => ?_, fun hprefix => hprefix.trans hbegins⟩
      rcases List.prefix_or_prefix_of_prefix hprefix hbegins with hwithin | hpart
      · exact hwithin
      · rcases hparts command hmem hpart with hnil | heq
        · cases hnil
        · rw [heq]
    have hstep : fenceStep? (c :: (cs ++ more)) = fenceStep? (c :: cs) := by
      simp only [fenceStep?, hcommand _ List.mem_cons_self,
        hcommand _ (List.mem_cons_of_mem _ List.mem_cons_self)]
    rw [List.cons_append, fences_cons, fences_cons, hstep, ih hcs, List.append_assoc]

/-- In a text without backslashes there is no command, and none is cut by its end. -/
theorem fences_append_of_no_backslash (h : ∀ c ∈ cs, c ≠ '\\') (more : List Char) :
  fences (cs ++ more) = fences more
  := by
  induction cs with
  | nil => rfl
  | cons c cs ih =>
    obtain ⟨hc, hcs⟩ := List.forall_mem_cons.mp h
    have hstep : fenceStep? (c :: (cs ++ more)) = none := by
      have hcommand : ∀ tail : List Char, ¬ '\\' :: tail <+: c :: (cs ++ more) :=
        fun tail hprefix => hc (List.cons_prefix_cons.mp hprefix).1.symm
      rw [fenceStep?, leftCommand, rightCommand, if_neg (hcommand _), if_neg (hcommand _)]
    rw [List.cons_append, fences_cons, hstep, ih hcs]
    rfl

/-- No brace and no command is part of a word. -/
theorem IsWord.ne_bracket (h : IsWord s) :
  ∀ c ∈ s.toList, c ≠ '\x7b' ∧ c ≠ '\x7d' ∧ c ≠ '\\'
  := fun c hc => ⟨h.ne (by decide +kernel) c hc, h.ne (by decide +kernel) c hc,
    h.ne (by decide +kernel) c hc⟩

/-! ### Texts with nested brackets -/

/-- Whether the braces and the commands of a text are nested, and no command goes on behind its
end. -/
structure IsBracketed (s : String) : Prop where
  nestedBraces : IsNested (braces s.toList)
  nestedFences : IsNested (fences s.toList)
  closed : IsClosed s.toList

/-- Whether two texts have no bracket, or one opens and the other closes one. -/
def IsPair (opening closing : List DyckStep) : Prop :=
  opening = [] ∧ closing = [] ∨ opening = [U] ∧ closing = [D]

instance (opening closing : List DyckStep) : Decidable (IsPair opening closing) :=
  inferInstanceAs (Decidable (_ ∨ _))

/-- Whether what stands between two texts is enclosed by brackets of each kind, or by none. -/
def Encloses (opening closing : String) : Prop :=
  IsPair (braces opening.toList) (braces closing.toList) ∧
    IsPair (fences opening.toList) (fences closing.toList) ∧
    IsWhole opening.toList ∧ IsWhole closing.toList

instance (opening closing : String) : Decidable (Encloses opening closing) :=
  inferInstanceAs (Decidable (_ ∧ _ ∧ _ ∧ _))

theorem IsNested.between {opening closing w : List DyckStep} (hpair : IsPair opening closing)
    (h : IsNested w) :
  IsNested (opening ++ (w ++ closing))
  := by
  rcases hpair with ⟨rfl, rfl⟩ | ⟨rfl, rfl⟩
  · rw [List.append_nil]
    exact h
  · exact h.enclosed

namespace IsBracketed

theorem empty :
  IsBracketed ""
  := ⟨.nil, .nil, fun _ => rfl⟩

theorem append (h : IsBracketed s) (h' : IsBracketed t) :
  IsBracketed (s ++ t)
  := by
  constructor
  · rw [String.toList_append, braces_append]
    exact h.nestedBraces.append h'.nestedBraces
  · rw [String.toList_append, h.closed]
    exact h.nestedFences.append h'.nestedFences
  · intro more
    rw [String.toList_append, List.append_assoc, h.closed, h'.closed, h.closed, List.append_assoc]

/-- A text between two others that enclose it. -/
theorem enclosed {opening closing : String} (hpair : Encloses opening closing)
    (h : IsBracketed s) :
  IsBracketed (opening ++ s ++ closing)
  := by
  obtain ⟨hbraces, hfences, hopening, hclosing⟩ := hpair
  have hopening := isClosed_of_isWhole hopening
  have hclosing := isClosed_of_isWhole hclosing
  have htext : (opening ++ s ++ closing).toList =
      opening.toList ++ (s.toList ++ closing.toList) := by
    rw [String.append_assoc, String.toList_append, String.toList_append]
  constructor
  · rw [htext, braces_append, braces_append]
    exact h.nestedBraces.between hbraces
  · rw [htext, hopening, h.closed]
    exact h.nestedFences.between hfences
  · intro more
    rw [htext, List.append_assoc, List.append_assoc, hopening, h.closed, hclosing, hopening,
      h.closed, List.append_assoc, List.append_assoc]

/-- A constant text without brackets. -/
theorem constant (s : String) (h : Encloses s "" := by decide +kernel) :
  IsBracketed s
  := by
  have hs := empty.enclosed h
  rwa [String.append_empty, String.append_empty] at hs

/-- A text without braces and commands. -/
theorem plain (h : ∀ c ∈ s.toList, c ≠ '\x7b' ∧ c ≠ '\x7d' ∧ c ≠ '\\') :
  IsBracketed s
  := by
  have hbackslash : ∀ c ∈ s.toList, c ≠ '\\' := fun c hc => (h c hc).2.2
  have hnone : fences s.toList = [] := by
    have hnil := fences_append_of_no_backslash hbackslash []
    rwa [List.append_nil] at hnil
  constructor
  · have hbraces : braces s.toList = [] := by
      apply List.filterMap_eq_nil_iff.mpr
      intro c hc
      rw [braceStep?, if_neg (h c hc).1, if_neg (h c hc).2.1]
    rw [hbraces]
    exact .nil
  · rw [hnone]
    exact .nil
  · intro more
    rw [hnone, fences_append_of_no_backslash hbackslash]
    rfl

theorem word (h : IsWord s) :
  IsBracketed s
  := plain h.ne_bracket

theorem braced (h : IsBracketed s) :
  IsBracketed (braced s)
  := h.enclosed (by decide +kernel)

theorem growing (h : IsBracketed s) (needed : Bool) :
  IsBracketed (growing needed s)
  := by
  cases needed with
  | false => exact h
  | true => exact h.enclosed (by decide +kernel)

/-- Texts with a separator between each two of them. -/
theorem joined {sep : String} (hsep : IsBracketed sep) {ss : List String}
    (h : ∀ s ∈ ss, IsBracketed s) :
  IsBracketed (joined sep ss)
  := by
  induction ss with
  | nil => exact empty
  | cons s ss ih =>
    obtain ⟨hs, hss⟩ := List.forall_mem_cons.mp h
    cases ss with
    | nil => exact hs
    | cons s' ss => exact (hs.append hsep).append (ih hss)

end IsBracketed

/-! ### Names -/

/-- A name without subscript, the characters of which are neither braces nor backslashes. -/
theorem plainName_bracketed (h : ∀ c ∈ cs, c ≠ '\x7b' ∧ c ≠ '\x7d' ∧ c ≠ '\\') :
  IsBracketed (plainName cs)
  := by
  have hgreek : ∀ name ∈ greekLetters, Encloses ("\\" ++ name) "" := by decide +kernel
  have hname : IsBracketed (String.ofList cs) := by
    apply IsBracketed.plain
    rwa [String.toList_ofList]
  unfold plainName
  dsimp only
  split
  · rename_i hmem
    exact IsBracketed.constant _ (hgreek _ hmem)
  · split
    · exact IsBracketed.constant "\\pi"
    · split
      · exact IsBracketed.constant "e"
      · split
        · exact (IsBracketed.constant "\\mathrm").append (IsBracketed.constant "i").braced
        · split
          · exact IsBracketed.constant "\\infty"
          · split
            · exact hname
            · exact ((IsBracketed.constant "\\it ").append hname).braced

theorem nameLatex_bracketed (h : ∀ c ∈ cs, c ≠ '\x7b' ∧ c ≠ '\x7d' ∧ c ≠ '\\') :
  IsBracketed (nameLatex cs)
  := by
  fun_induction nameLatex cs with
  | case1 cs base separator sub hrest hempty => exact plainName_bracketed h
  | case2 cs base separator sub hrest hfull ih =>
    have hbase : ∀ c ∈ base, c ∈ cs := fun c hc => (List.takeWhile_prefix _).subset hc
    have hsub : ∀ c ∈ sub, c ∈ cs := by
      intro c hc
      apply (List.dropWhile_suffix (· ≠ '_')).subset
      rw [hrest]
      exact List.mem_cons_of_mem _ hc
    have hname := (plainName_bracketed fun c hc => h c (hbase c hc)).braced
    exact (hname.append (IsBracketed.constant "_")).append (ih fun c hc => h c (hsub c hc)).braced
  | case3 cs hrest => exact plainName_bracketed h

theorem IsName.nameLatex_bracketed {name : String} (h : IsName name) :
  IsBracketed (nameLatex name.toList)
  := Algebra.nameLatex_bracketed h.isWord.ne_bracket

/-! ### Expressions -/

namespace Expr

variable {options : RenderOptions} {es : List Expr}

theorem latexAll_bracketed (h : ∀ e ∈ es, IsBracketed (e.latex options)) :
  ∀ s ∈ latexAll options es, IsBracketed s
  := by
  induction es with
  | nil => rintro s ⟨⟩
  | cons e es ih =>
    obtain ⟨he, hes⟩ := List.forall_mem_cons.mp h
    exact List.forall_mem_cons.mpr ⟨he, ih hes⟩

theorem latexTerms_bracketed (h : ∀ e ∈ es, IsBracketed (e.latex options)) :
  IsBracketed (latexTerms options es)
  := by
  induction es with
  | nil => exact IsBracketed.empty
  | cons e es ih =>
    obtain ⟨he, hes⟩ := List.forall_mem_cons.mp h
    have hsign : IsBracketed (if e.isSigned then "" else "+") := by
      split
      · exact IsBracketed.empty
      · exact IsBracketed.constant "+"
    exact (hsign.append he).append (ih hes)

theorem latexFactors_bracketed (first : Bool) (h : ∀ e ∈ es, IsBracketed (e.latex options)) :
  ∀ s ∈ latexFactors options first es, IsBracketed s
  := by
  induction es generalizing first with
  | nil => rintro s ⟨⟩
  | cons e es ih =>
    obtain ⟨he, hes⟩ := List.forall_mem_cons.mp h
    exact List.forall_mem_cons.mpr ⟨he.growing _, ih false hes⟩

theorem latexOperands_bracketed (strength : Nat) (h : ∀ e ∈ es, IsBracketed (e.latex options)) :
  ∀ s ∈ latexOperands options strength es, IsBracketed s
  := by
  induction es with
  | nil => rintro s ⟨⟩
  | cons e es ih =>
    obtain ⟨he, hes⟩ := List.forall_mem_cons.mp h
    exact List.forall_mem_cons.mpr ⟨he.growing _, ih hes⟩

/-- A row of a matrix is shown by its cells, if it is a list of them. -/
theorem latexRows_bracketed (h : ∀ e ∈ es, IsBracketed (e.latex options))
    (hparts : ∀ e ∈ es, ∀ part ∈ e.parts, IsBracketed (part.latex options)) :
  ∀ s ∈ latexRows options es, IsBracketed s
  := by
  induction es with
  | nil => rintro s ⟨⟩
  | cons e es ih =>
    obtain ⟨he, hes⟩ := List.forall_mem_cons.mp h
    obtain ⟨hcells, hrows⟩ := List.forall_mem_cons.mp hparts
    have hrow := ih hes hrows
    unfold latexRows
    split
    · rename_i hnil
      cases hnil
    · rename_i cells rows heq
      cases heq
      refine List.forall_mem_cons.mpr ⟨?_, hrow⟩
      exact IsBracketed.joined (IsBracketed.constant " & ") (latexAll_bracketed hcells)
    · rename_i heq
      cases heq
      exact List.forall_mem_cons.mpr ⟨he, hrow⟩

/-- The display form of a matrix with the given rows. -/
theorem matrix_bracketed {rows : List String} (h : ∀ s ∈ rows, IsBracketed s) (columns : Nat)
    (parens : MatrixParens) :
  IsBracketed (
    let array := "\\begin\x7barray\x7d" ++ braced (String.ofList (List.replicate columns 'c'))
      ++ " " ++ joined " \\\\ " rows ++ " \\end\x7barray\x7d"
    match parens.delimiters with
    | some (opening, closing) => opening ++ array ++ closing
    | none => array)
  := by
  have hcolumns : IsBracketed (String.ofList (List.replicate columns 'c')) := by
    apply IsBracketed.plain
    rw [String.toList_ofList]
    intro c hc
    rw [List.eq_of_mem_replicate hc]
    decide
  have hbegin : IsBracketed "\\begin\x7barray\x7d" :=
    (IsBracketed.constant "\\begin").append (IsBracketed.constant "array").braced
  have hend : IsBracketed " \\end\x7barray\x7d" :=
    (IsBracketed.constant " \\end").append (IsBracketed.constant "array").braced
  have harray := (((hbegin.append hcolumns.braced).append (IsBracketed.constant " ")).append
    (IsBracketed.joined (IsBracketed.constant " \\\\ ") h)).append hend
  cases parens with
  | brackets => exact harray.enclosed (by decide +kernel)
  | parentheses => exact harray.enclosed (by decide +kernel)
  | none => exact harray

/-- A call is shown by its function, which may have a command or a form of its own, and its
arguments. -/
theorem latex_call_bracketed {function : String} (hname : IsName function)
    (h : ∀ e ∈ es, IsBracketed (e.latex options))
    (hparts : ∀ e ∈ es, ∀ part ∈ e.parts, IsBracketed (part.latex options)) :
  IsBracketed ((call function es).latex options)
  := by
  by_cases hsqrt : ∃ e, function = "sqrt" ∧ es = [e]
  · obtain ⟨e, rfl, rfl⟩ := hsqrt
    rw [latex]
    exact (IsBracketed.constant "\\sqrt").append (List.forall_mem_singleton.mp h).braced
  · by_cases habs : ∃ e, function = "abs" ∧ es = [e]
    · obtain ⟨e, rfl, rfl⟩ := habs
      rw [latex]
      exact (List.forall_mem_singleton.mp h).enclosed (by decide +kernel)
    · by_cases hmatrix : function = "matrix"
      · rw [hmatrix, latex]
        exact matrix_bracketed (latexRows_bracketed h hparts) _ _
      · have hinner := IsBracketed.joined (IsBracketed.constant " , ") (latexAll_bracketed h)
        rw [latex]
        · split
          · rename_i hnamed
            have hcommand : ∀ name ∈ namedFunctions,
                Encloses ("\\" ++ name ++ " \\left( ") " \\right)" := by decide +kernel
            exact hinner.enclosed (hcommand function hnamed)
          · exact hname.nameLatex_bracketed.append (hinner.growing true)
        · exact fun e hfunction hes => hsqrt ⟨e, hfunction, hes⟩
        · exact fun e hfunction hes => habs ⟨e, hfunction, hes⟩
        · exact hmatrix

/-- Without doubles and strings, each expression is shown with nested brackets. -/
theorem latex_bracketed {e : Expr}
    (h : e.Everywhere fun part => part.isReal = false ∧ (∀ text, part ≠ .str text) ∧ part.Worded)
    (options : RenderOptions) :
  IsBracketed (e.latex options) ∧ ∀ part ∈ e.parts, IsBracketed (part.latex options)
  := by
  induction h with
  | @intro e hself parts ih =>
    obtain ⟨hreal, hstr, hword⟩ := hself
    have hparts : ∀ part ∈ e.parts, IsBracketed (part.latex options) :=
      fun part hpart => (ih part hpart).1
    refine ⟨?_, hparts⟩
    cases e with
    | int n => exact IsBracketed.word (isWord_int _)
    | real r => cases hreal
    | bool b =>
      have hname := isName_of_mem_keywords _ (boolName_mem_keywords b)
      exact (IsBracketed.constant "\\mathbf").append (IsBracketed.word hname.isWord).braced
    | str text => exact absurd rfl (hstr text)
    | sym name => exact hword.nameLatex_bracketed
    | neg e =>
      exact (IsBracketed.constant "-").append ((hparts e List.mem_cons_self).growing _)
    | add terms =>
      cases terms with
      | nil => exact IsBracketed.empty
      | cons t ts =>
        obtain ⟨ht, hts⟩ := List.forall_mem_cons.mp hparts
        exact ht.append (latexTerms_bracketed hts)
    | mul factors =>
      have hsign : IsBracketed options.multiplicationSign.latex := by
        cases options.multiplicationSign <;> exact IsBracketed.constant _
      exact IsBracketed.joined hsign (latexFactors_bracketed true hparts)
    | div num den =>
      obtain ⟨hnum, hden⟩ := forall_mem_pair.mp hparts
      exact ((IsBracketed.constant "\\frac").append hnum.braced).append hden.braced
    | pow base exponent =>
      obtain ⟨hbase, hexponent⟩ := forall_mem_pair.mp hparts
      rw [latex]
      apply ((hbase.growing _).append (IsBracketed.constant "^")).append
      -- an exponent of one character stands without braces
      split
      · exact hexponent
      · exact hexponent.braced
    | call function args =>
      exact latex_call_bracketed hword hparts fun arg harg => (ih arg harg).2
    | list items =>
      cases items with
      | nil =>
        have hpair : Encloses "\\left[" " \\right]" := by decide +kernel
        exact IsBracketed.empty.enclosed hpair
      | cons e es =>
        exact (IsBracketed.joined (IsBracketed.constant " , ") (latexAll_bracketed hparts)).enclosed
          (by decide +kernel)
    | set items =>
      cases items with
      | nil =>
        have hpair : Encloses "\\left \\\x7b" " \\right \\\x7d" := by decide +kernel
        exact IsBracketed.empty.enclosed hpair
      | cons e es =>
        exact (IsBracketed.joined (IsBracketed.constant " , ") (latexAll_bracketed hparts)).enclosed
          (by decide +kernel)
    | rel r lhs rhs =>
      obtain ⟨hlhs, hrhs⟩ := forall_mem_pair.mp hparts
      have hsign : IsBracketed r.latex := by
        cases r <;> exact IsBracketed.constant _
      exact (hlhs.append hsign).append hrhs
    | not e =>
      exact (IsBracketed.constant "\\neg ").append ((hparts e List.mem_cons_self).growing _)
    | and items =>
      exact IsBracketed.joined (IsBracketed.constant " \\land ")
        (latexOperands_bracketed Strength.conjunction hparts)
    | or items =>
      exact IsBracketed.joined (IsBracketed.constant " \\lor ")
        (latexOperands_bracketed Strength.disjunction hparts)

/-- In the display form of an expression without doubles and strings the braces are properly nested,
and so are the commands `\left` and `\right`. -/
theorem latex_nested {e : Expr}
    (h : e.Everywhere fun part => part.isReal = false ∧ (∀ text, part ≠ .str text) ∧ part.Worded)
    (options : RenderOptions) :
  IsNested (braces (e.latex options).toList) ∧ IsNested (fences (e.latex options).toList)
  := by
  obtain ⟨⟨hbraces, hfences, -⟩, -⟩ := latex_bracketed h options
  exact ⟨hbraces, hfences⟩

/-- A matrix with a set in it, and a power with a sum in its base and a subscript in its
exponent. -/
theorem latex_nested_matrix :
  let e : Expr := .call "matrix" [.list [.set [], .pow (.add [.sym "x", .int 1]) (.sym "a_1")]]
  e.latex {} = "\\left[\\begin\x7barray\x7d\x7bcc\x7d \\left \\\x7b \\right \\\x7d & " ++
      "\\left(x+1\\right)^\x7b\x7ba\x7d_\x7b1\x7d\x7d \\end\x7barray\x7d\\right]" ∧
    IsNested (braces (e.latex {}).toList) ∧ IsNested (fences (e.latex {}).toList)
  := by
  intro e
  have hname : ∀ name ∈ ["matrix", "x", "a_1"], IsName name := by
    rintro name hmem
    simp only [List.mem_cons, List.not_mem_nil, or_false] at hmem
    rcases hmem with rfl | rfl | rfl <;> exact ⟨_, _, rfl, by decide +kernel, by decide +kernel⟩
  have hsym : ∀ name ∈ ["matrix", "x", "a_1"], (Expr.sym name).Everywhere fun part =>
      part.isReal = false ∧ (∀ text, part ≠ .str text) ∧ part.Worded :=
    fun name hmem => ⟨⟨rfl, fun _ => nofun, hname name hmem⟩, nofun⟩
  have h : e.Everywhere fun part =>
      part.isReal = false ∧ (∀ text, part ≠ .str text) ∧ part.Worded := by
    refine ⟨⟨rfl, fun _ => nofun, hname _ (by simp)⟩, List.forall_mem_singleton.mpr ?_⟩
    refine ⟨⟨rfl, fun _ => nofun, trivial⟩, forall_mem_pair.mpr ⟨?_, ?_⟩⟩
    · exact ⟨⟨rfl, fun _ => nofun, trivial⟩, nofun⟩
    · refine ⟨⟨rfl, fun _ => nofun, trivial⟩, forall_mem_pair.mpr ⟨?_, hsym _ (by simp)⟩⟩
      refine ⟨⟨rfl, fun _ => nofun, trivial⟩, forall_mem_pair.mpr ⟨hsym _ (by simp), ?_⟩⟩
      exact ⟨⟨rfl, fun _ => nofun, trivial⟩, nofun⟩
  exact ⟨by decide +kernel, latex_nested h {}⟩

end Expr

end MathTemplate.Algebra
