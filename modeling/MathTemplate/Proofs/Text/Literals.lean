import Mathlib.Algebra.Ring.Parity
import Mathlib.Data.List.DropRight
import MathTemplate.Text.Quoted

/-!
# Texts with closed literals

A string literal goes from a quote to the next quote that is not escaped, and a quote in a
literal is escaped if an odd number of backslashes stands right in front of it.  `Strips`
relates a text whose literals are all closed to what is left of it without them; a text with a
literal that is not closed is related to nothing.

A reader that goes through a text from the left finds the same literals: it stands outside
them at the end exactly if they are closed, and what it has met outside them is what is left
(`strips_iff`).
-/

namespace MathTemplate.Text

/-! ### Literals -/

/-- The number of backslashes a text ends with. -/
def finalBackslashes (cs : List Char) : Nat := (cs.rtakeWhile (· == '\\')).length

/-- Whether each quote in a text is escaped, if the text stands behind the opening quote of a
literal. -/
def IsProtected (cs : List Char) : Prop :=
  ∀ front rest, cs = front ++ '"' :: rest → Odd (finalBackslashes front)

/-- Whether a text may stand between the quotes of a literal: each quote in it is escaped, and
the quote behind it is not. -/
structure IsLiteralBody (body : List Char) : Prop where
  quotes : IsProtected body
  closes : Even (finalBackslashes body)

/-- Whether the literals of a text are closed, and what is left of the text without them. -/
inductive Strips : List Char → List Char → Prop
  | nil : Strips [] []
  /-- a character outside the literals -/
  | plain {c : Char} {cs bare : List Char} (hc : c ≠ '"') (h : Strips cs bare) :
    Strips (c :: cs) (c :: bare)
  /-- a literal in front of the rest of the text -/
  | literal {body cs bare : List Char} (hbody : IsLiteralBody body) (h : Strips cs bare) :
    Strips ('"' :: (body ++ '"' :: cs)) bare

theorem finalBackslashes_concat (cs : List Char) (c : Char) :
  finalBackslashes (cs ++ [c]) = if c = '\\' then finalBackslashes cs + 1 else 0
  := by
  rw [finalBackslashes, finalBackslashes]
  split
  · rename_i hc
    rw [List.rtakeWhile_concat_pos _ _ _ (by simp [hc]), List.length_append]
    rfl
  · rename_i hc
    rw [List.rtakeWhile_concat_neg _ _ _ (by simp [hc])]
    rfl

theorem IsProtected.nil :
  IsProtected []
  := by
  intro front rest h
  simp at h

theorem IsProtected.of_concat {cs : List Char} {c : Char} (h : IsProtected (cs ++ [c])) :
  IsProtected cs
  := by
  rintro front rest rfl
  exact h front (rest ++ [c]) (by simp)

/-! ### Reading through a text -/

namespace Zone

/-- What is left of a text without its literals, given where its reader stands. -/
def bare : Zone → List Char → List Char
  | _, [] => []
  | z, c :: cs => if z = .outside ∧ c ≠ '"' then c :: bare (z.next c) cs else bare (z.next c) cs

variable {z : Zone} {c : Char} {cs ds : List Char}

theorem after_cons :
  z.after (c :: cs) = (z.next c).after cs
  := rfl

theorem after_append :
  z.after (cs ++ ds) = (z.after cs).after ds
  := List.foldl_append

theorem bare_append :
  z.bare (cs ++ ds) = z.bare cs ++ (z.after cs).bare ds
  := by
  induction cs generalizing z with
  | nil => rfl
  | cons c cs ih =>
    rw [List.cons_append, bare, bare, after_cons, ih]
    split
    · rfl
    · rfl

theorem next_outside (hc : c ≠ '"') :
  Zone.outside.next c = .outside
  := if_neg hc

/-- A text without quotes is read outside the literals. -/
theorem outside_of_noQuote (h : '"' ∉ cs) :
  Zone.outside.after cs = .outside ∧ Zone.outside.bare cs = cs
  := by
  induction cs with
  | nil => exact ⟨rfl, rfl⟩
  | cons c cs ih =>
    rw [List.mem_cons, not_or] at h
    obtain ⟨hafter, hbare⟩ := ih h.2
    rw [after_cons, bare, if_pos ⟨rfl, Ne.symm h.1⟩, next_outside (Ne.symm h.1), hbare]
    exact ⟨hafter, rfl⟩

/-- Where a reader stands in a literal, behind a text whose quotes are escaped. -/
def within (cs : List Char) : Zone := if Even (finalBackslashes cs) then .inside else .escaped

theorem next_within (h : c = '"' → Odd (finalBackslashes cs)) :
  (within cs).next c = within (cs ++ [c])
  := by
  rw [within, within, finalBackslashes_concat]
  by_cases hbackslash : c = '\\'
  · rw [if_pos hbackslash, hbackslash]
    by_cases heven : Even (finalBackslashes cs)
    · rw [if_pos heven, if_neg (Nat.not_even_iff_odd.mpr heven.add_one)]
      rfl
    · rw [if_neg heven, if_pos (Nat.not_even_iff_odd.mp heven).add_one]
      rfl
  · rw [if_neg hbackslash, if_pos Even.zero]
    split
    · rename_i heven
      rw [next, if_neg hbackslash, if_neg fun hquote => Nat.not_even_iff_odd.mpr (h hquote) heven]
    · rfl

theorem within_ne_outside (cs : List Char) :
  within cs ≠ .outside
  := by
  rw [within]
  split <;> decide

/-- In a literal nothing is left of a text whose quotes are escaped. -/
theorem inside_of_isProtected (h : IsProtected cs) :
  Zone.inside.after cs = within cs ∧ Zone.inside.bare cs = []
  := by
  induction cs using List.reverseRecOn with
  | nil => exact ⟨rfl, rfl⟩
  | append_singleton cs c ih =>
    obtain ⟨hafter, hbare⟩ := ih h.of_concat
    have hquote : c = '"' → Odd (finalBackslashes cs) := by
      rintro rfl
      exact h cs [] rfl
    rw [after_append, bare_append, hafter, hbare]
    refine ⟨next_within hquote, ?_⟩
    rw [bare, if_neg fun hout => within_ne_outside cs hout.1]
    rfl

end Zone

/-! ### The literals a reader finds -/

variable {cs bare : List Char}

theorem Strips.read (h : Strips cs bare) :
  Zone.outside.after cs = .outside ∧ Zone.outside.bare cs = bare
  := by
  induction h with
  | nil => exact ⟨rfl, rfl⟩
  | @plain c cs bare hc h ih =>
    rw [Zone.after_cons, Zone.bare, if_pos ⟨rfl, hc⟩, Zone.next_outside hc, ih.2]
    exact ⟨ih.1, rfl⟩
  | @literal body cs bare hbody h ih =>
    obtain ⟨hafter, hbare⟩ := Zone.inside_of_isProtected hbody.quotes
    have hinside : Zone.within body = .inside := if_pos hbody.closes
    rw [Zone.after_cons, Zone.bare, if_neg (by simp)]
    change Zone.inside.after _ = _ ∧ Zone.inside.bare _ = _
    rw [Zone.after_append, Zone.bare_append, hafter, hbare, hinside]
    exact ih

/-- A reader that ends outside the literals has found them closed, and so has one that began
within a literal. -/
theorem strips_of_after (cs : List Char) :
  (Zone.outside.after cs = .outside → Strips cs (Zone.outside.bare cs)) ∧
    ∀ front, IsProtected front → (Zone.within front).after cs = .outside →
      Strips ('"' :: (front ++ cs)) ((Zone.within front).bare cs)
  := by
  induction cs with
  | nil =>
    refine ⟨fun _ => .nil, fun front _ hwithin => ?_⟩
    exact absurd hwithin (Zone.within_ne_outside front)
  | cons c cs ih =>
    obtain ⟨houtside, hinside⟩ := ih
    constructor
    · intro hafter
      rw [Zone.after_cons] at hafter
      rw [Zone.bare]
      by_cases hc : c = '"'
      · rw [if_neg (by simp [hc]), hc]
        rw [hc] at hafter
        exact hinside [] IsProtected.nil hafter
      · rw [Zone.next_outside hc] at hafter
        rw [if_pos ⟨rfl, hc⟩, Zone.next_outside hc]
        exact .plain hc (houtside hafter)
    · intro front hfront hafter
      rw [Zone.after_cons] at hafter
      rw [Zone.bare, if_neg fun hout => Zone.within_ne_outside front hout.1]
      by_cases hcloses : c = '"' ∧ Even (finalBackslashes front)
      · obtain ⟨rfl, heven⟩ := hcloses
        have hnext : (Zone.within front).next '"' = .outside := by
          rw [Zone.within, if_pos heven]
          rfl
        rw [hnext] at hafter ⊢
        exact .literal ⟨hfront, heven⟩ (houtside hafter)
      · rw [not_and, Nat.not_even_iff_odd] at hcloses
        rw [Zone.next_within hcloses] at hafter ⊢
        have hprotected : IsProtected (front ++ [c]) := by
          intro before rest hsplit
          rcases List.eq_nil_or_concat rest with rfl | ⟨more, d, rfl⟩
          · obtain ⟨rfl, hc⟩ := List.append_inj' hsplit rfl
            exact hcloses (List.singleton_inj.mp hc)
          · rw [List.concat_eq_append, ← List.cons_append, ← List.append_assoc] at hsplit
            exact hfront before more (List.append_inj' hsplit rfl).1
        have hstrips := hinside (front ++ [c]) hprotected hafter
        rwa [List.append_assoc] at hstrips

/-- The literals of a text are closed exactly if a reader stands outside them at its end, and
what is left of the text is what the reader has met outside them. -/
theorem strips_iff :
  Strips cs bare ↔ Zone.outside.after cs = .outside ∧ bare = Zone.outside.bare cs
  := by
  constructor
  · intro h
    exact ⟨h.read.1, h.read.2.symm⟩
  · rintro ⟨hafter, rfl⟩
    exact (strips_of_after cs).1 hafter

theorem exists_strips_iff :
  (∃ bare, Strips cs bare) ↔ Zone.outside.after cs = .outside
  := by
  simp [strips_iff]

end MathTemplate.Text
