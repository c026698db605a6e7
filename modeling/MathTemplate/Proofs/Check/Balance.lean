import MathTemplate.Check.Brackets
import MathTemplate.Proofs.Text.Literals

/-!
# The brackets of an expression are balanced

A word of brackets is balanced if it is empty, or begins with a balanced word in a pair of
brackets and goes on with a balanced word (`IsBalanced`).  The check of an expression finds no
fault exactly if its string literals are closed and its brackets outside them form a balanced
word (`bracketFault_none_iff`).

The check keeps the closing brackets it waits for.  What these demand of the rest of a word is
that each of them comes, in this order, with balanced words between them (`Closes`), and the
check reads a word to its end exactly if the word meets the demand (`readBrackets_iff`).
-/

namespace MathTemplate.Check

open Text (Zone Strips strips_iff)

/-! ### Balanced words -/

/-- The pairs of an opening and a closing bracket. -/
def bracketPairs : List (Char × Char) := [('(', ')'), ('[', ']'), ('\x7b', '\x7d')]

/-- The characters that are brackets. -/
def bracketChars : List Char := ['(', ')', '[', ']', '\x7b', '\x7d']

/-- Whether a character is a bracket. -/
def isBracket (c : Char) : Bool := bracketChars.contains c

/-- The words in which each bracket has its partner. -/
inductive IsBalanced : List Char → Prop
  | nil : IsBalanced []
  /-- a balanced word in a pair of brackets, and a balanced word behind it -/
  | pair {opening closing : Char} {inner rest : List Char}
    (hpair : (opening, closing) ∈ bracketPairs) (hinner : IsBalanced inner)
    (hrest : IsBalanced rest) :
    IsBalanced (opening :: (inner ++ closing :: rest))

theorem IsBalanced.append {cs ds : List Char} (h : IsBalanced cs) (h' : IsBalanced ds) :
  IsBalanced (cs ++ ds)
  := by
  induction h with
  | nil => exact h'
  | pair hpair hinner _ _ ih =>
    rw [List.cons_append, List.append_assoc]
    exact .pair hpair hinner ih

/-- A balanced word in a pair of brackets is balanced. -/
theorem IsBalanced.enclosed {opening closing : Char} {inner : List Char}
    (hpair : (opening, closing) ∈ bracketPairs) (h : IsBalanced inner) :
  IsBalanced (opening :: (inner ++ [closing]))
  := .pair hpair h .nil

/-! ### One bracket -/

theorem closingOf?_eq_some_iff {opening closing : Char} :
  closingOf? opening = some closing ↔ (opening, closing) ∈ bracketPairs
  := by
  unfold closingOf? bracketPairs
  split <;> simp_all [eq_comm]

theorem isClosing_of_pair {opening closing : Char} (h : (opening, closing) ∈ bracketPairs) :
  isClosing closing = true
  := by
  simp only [bracketPairs, List.mem_cons, List.not_mem_nil, or_false, Prod.mk.injEq] at h
  rcases h with ⟨-, rfl⟩ | ⟨-, rfl⟩ | ⟨-, rfl⟩ <;> rfl

theorem isBracket_of_pair {opening closing : Char} (h : (opening, closing) ∈ bracketPairs) :
  isBracket opening = true
  := by
  simp only [bracketPairs, List.mem_cons, List.not_mem_nil, or_false, Prod.mk.injEq] at h
  rcases h with ⟨rfl, -⟩ | ⟨rfl, -⟩ | ⟨rfl, -⟩ <;> rfl

/-- A closing bracket is a bracket, and opens nothing. -/
theorem closing_spec {c : Char} (h : isClosing c = true) :
  isBracket c = true ∧ closingOf? c = none
  := by
  simp only [isClosing, Bool.or_eq_true, beq_iff_eq, or_assoc] at h
  rcases h with rfl | rfl | rfl <;> exact ⟨rfl, rfl⟩

/-- A character that neither opens nor closes anything is no bracket. -/
theorem isBracket_of_neither {c : Char} (hopens : closingOf? c = none)
    (hcloses : isClosing c = false) :
  isBracket c = false
  := by
  rw [Bool.eq_false_iff]
  intro h
  simp only [isBracket, bracketChars, List.contains_eq_mem, decide_eq_true_eq, List.mem_cons,
    List.not_mem_nil, or_false] at h
  rcases h with rfl | rfl | rfl | rfl | rfl | rfl
  · cases hopens
  · cases hcloses
  · cases hopens
  · cases hcloses
  · cases hopens
  · cases hcloses

variable {waiting : List Awaited} {c : Char} {cs w : List Char}

theorem stepBracket_opening {opening closing : Char} (h : (opening, closing) ∈ bracketPairs) :
  stepBracket waiting opening = .ok (⟨opening, closing⟩ :: waiting)
  := by
  rw [stepBracket.eq_def, closingOf?_eq_some_iff.mpr h]

theorem stepBracket_closing {a : Awaited} (h : isClosing a.closing = true) :
  stepBracket (a :: waiting) a.closing = .ok waiting
  := by
  rw [stepBracket.eq_def, (closing_spec h).2]
  dsimp only
  rw [if_pos h, if_pos rfl]

/-- A closing bracket is read only where it is the first one that is waited for. -/
theorem stepBracket_eq_ok {next : List Awaited} (hc : isClosing c = true)
    (h : stepBracket waiting c = .ok next) :
  ∃ a, a.closing = c ∧ waiting = a :: next
  := by
  rw [stepBracket.eq_def, (closing_spec hc).2] at h
  dsimp only at h
  rw [if_pos hc] at h
  cases waiting with
  | nil => cases h
  | cons a rest =>
    dsimp only at h
    split at h
    · rename_i hclosing
      cases h
      exact ⟨a, hclosing, rfl⟩
    · cases h

theorem stepBracket_other (h : isBracket c = false) :
  stepBracket waiting c = .ok waiting
  := by
  have hopens : closingOf? c = none := by
    rw [Option.eq_none_iff_forall_ne_some]
    intro closing hclosing
    rw [isBracket_of_pair (closingOf?_eq_some_iff.mp hclosing)] at h
    cases h
  have hcloses : ¬ isClosing c = true := by
    intro hclosing
    rw [(closing_spec hclosing).1] at h
    cases h
  rw [stepBracket.eq_def, hopens]
  dsimp only
  rw [if_neg hcloses]

/-! ### The brackets a reader waits for -/

/-- What the brackets a reader waits for demand of the rest of a word: each of them comes, and
the words in front of them and behind the last one are balanced. -/
def Closes : List Awaited → List Char → Prop
  | [], w => IsBalanced w
  | a :: waiting, w =>
    ∃ inner rest, w = inner ++ a.closing :: rest ∧ IsBalanced inner ∧ Closes waiting rest

/-- A balanced word in front of a rest makes no difference to what is demanded of the rest. -/
theorem Closes.append (h : IsBalanced cs) (h' : Closes waiting w) :
  Closes waiting (cs ++ w)
  := by
  cases waiting with
  | nil => exact IsBalanced.append h h'
  | cons a waiting =>
    obtain ⟨inner, rest, rfl, hinner, hrest⟩ := h'
    exact ⟨cs ++ inner, rest, by rw [List.append_assoc], h.append hinner, hrest⟩

/-- The place behind a text: the brackets a reader waits for there, if it has met no fault. -/
def readBrackets (waiting : List Awaited) (cs : List Char) : Except BracketFault (List Awaited) :=
  cs.foldlM stepBracket waiting

theorem readBrackets_cons {next : List Awaited} (h : stepBracket waiting c = .ok next) :
  readBrackets waiting (c :: cs) = readBrackets next cs
  := by
  rw [readBrackets, List.foldlM_cons, h]
  rfl

theorem readBrackets_filter (waiting : List Awaited) (cs : List Char) :
  readBrackets waiting (cs.filter isBracket) = readBrackets waiting cs
  := by
  induction cs generalizing waiting with
  | nil => rfl
  | cons c cs ih =>
    by_cases hc : isBracket c = true
    · rw [List.filter_cons_of_pos hc, readBrackets, readBrackets, List.foldlM_cons,
        List.foldlM_cons]
      congr 1
      funext next
      exact ih next
    · rw [List.filter_cons_of_neg hc, ih,
        readBrackets_cons (stepBracket_other (Bool.eq_false_iff.mpr hc))]

/-- A reader waits for the same brackets in front of a balanced word and behind it. -/
theorem readBrackets_of_isBalanced (h : IsBalanced cs) (waiting : List Awaited) (w : List Char) :
  readBrackets waiting (cs ++ w) = readBrackets waiting w
  := by
  induction h generalizing waiting w with
  | nil => rfl
  | @pair opening closing inner rest hpair _ _ ihinner ihrest =>
    rw [List.cons_append, readBrackets_cons (stepBracket_opening hpair), List.append_assoc,
      ihinner, List.cons_append,
      readBrackets_cons (stepBracket_closing (isClosing_of_pair hpair)), ihrest]

/-- A reader that waits for nothing at the end of a text has met what it waited for. -/
theorem closes_of_readBrackets (h : readBrackets waiting cs = .ok []) :
  Closes waiting (cs.filter isBracket)
  := by
  induction cs generalizing waiting with
  | nil =>
    cases h
    exact IsBalanced.nil
  | cons c cs ih =>
    cases hopens : closingOf? c with
    | some closing =>
      have hpair := closingOf?_eq_some_iff.mp hopens
      rw [readBrackets_cons (stepBracket_opening hpair)] at h
      obtain ⟨inner, rest, hcs, hinner, hrest⟩ := ih h
      rw [List.filter_cons_of_pos (isBracket_of_pair hpair), hcs]
      have hclosed := hrest.append (hinner.enclosed hpair)
      rwa [List.cons_append, List.append_assoc] at hclosed
    | none =>
      cases hcloses : isClosing c with
      | false =>
        have hc := isBracket_of_neither hopens hcloses
        rw [readBrackets_cons (stepBracket_other hc)] at h
        rw [List.filter_cons_of_neg (by simp [hc])]
        exact ih h
      | true =>
        obtain ⟨hbracket, -⟩ := closing_spec hcloses
        rw [List.filter_cons_of_pos hbracket]
        cases hstep : stepBracket waiting c with
        | error fault =>
          rw [readBrackets, List.foldlM_cons, hstep] at h
          cases h
        | ok next =>
          rw [readBrackets_cons hstep] at h
          obtain ⟨a, rfl, rfl⟩ := stepBracket_eq_ok hcloses hstep
          exact ⟨[], _, rfl, .nil, ih h⟩

/-- A reader that waits for closing brackets reads a text to its end and waits for nothing
there exactly if the brackets of the text are what it waits for. -/
theorem readBrackets_iff (hwaiting : ∀ a ∈ waiting, isClosing a.closing = true) :
  readBrackets waiting cs = .ok [] ↔ Closes waiting (cs.filter isBracket)
  := by
  refine ⟨closes_of_readBrackets, fun h => ?_⟩
  rw [← readBrackets_filter]
  generalize cs.filter isBracket = w at h
  induction waiting generalizing w with
  | nil =>
    have hread := readBrackets_of_isBalanced h [] []
    rwa [List.append_nil] at hread
  | cons a waiting ih =>
    obtain ⟨ha, hrest⟩ := List.forall_mem_cons.mp hwaiting
    obtain ⟨inner, rest, rfl, hinner, hcloses⟩ := h
    rw [readBrackets_of_isBalanced hinner, readBrackets_cons (stepBracket_closing ha)]
    exact ih hrest rest hcloses

/-! ### The check of an expression -/

/-- The check finds no fault in a text exactly if its reader ends outside the literals, and
reads the brackets outside them to the end. -/
theorem faultFrom_eq_none_iff {z : Zone} :
  faultFrom z waiting cs = none ↔
    z.after cs = .outside ∧ readBrackets waiting (z.bare cs) = .ok []
  := by
  induction cs generalizing z waiting with
  | nil =>
    cases z with
    | outside =>
      cases waiting with
      | nil => exact iff_of_true rfl ⟨rfl, rfl⟩
      | cons a waiting => exact iff_of_false (by rintro ⟨⟩) (by rintro ⟨-, ⟨⟩⟩)
    | inside => exact iff_of_false (by rintro ⟨⟩) (by rintro ⟨⟨⟩, -⟩)
    | escaped => exact iff_of_false (by rintro ⟨⟩) (by rintro ⟨⟨⟩, -⟩)
  | cons c cs ih =>
    cases z with
    | outside =>
      have hbare : readBrackets waiting (Zone.outside.bare (c :: cs)) =
          readBrackets waiting (c :: (Zone.outside.next c).bare cs) := by
        rw [Zone.bare]
        split
        · rfl
        · rename_i hc
          have hquote : c = '"' := by simpa using hc
          rw [hquote, readBrackets_cons (stepBracket_other rfl)]
      rw [hbare, Zone.after_cons, faultFrom]
      cases hstep : stepBracket waiting c with
      | error fault =>
        refine iff_of_false (by rintro ⟨⟩) ?_
        rintro ⟨-, hread⟩
        rw [readBrackets, List.foldlM_cons, hstep] at hread
        cases hread
      | ok next =>
        rw [readBrackets_cons hstep]
        exact ih
    | inside => exact ih
    | escaped => exact ih

/-- The check of an expression finds no fault exactly if its string literals are closed, and
what is left without them has its brackets balanced. -/
theorem bracketFault_none_iff (expression : String) :
  bracketFault? expression = none ↔
    ∃ bare, Strips expression.toList bare ∧ IsBalanced (bare.filter isBracket)
  := by
  rw [bracketFault?, faultFrom_eq_none_iff, readBrackets_iff (by simp)]
  constructor
  · rintro ⟨hclosed, hbalanced⟩
    exact ⟨_, strips_iff.mpr ⟨hclosed, rfl⟩, hbalanced⟩
  · rintro ⟨bare, hstrips, hbalanced⟩
    obtain ⟨hclosed, rfl⟩ := strips_iff.mp hstrips
    exact ⟨hclosed, hbalanced⟩

/-- A quote behind two backslashes closes the literal, so that the bracket stands outside. -/
example : bracketFault? "\"\\\\\")" = some (.unopened ')') := by decide

end MathTemplate.Check
