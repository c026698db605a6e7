import Mathlib.Data.List.DropRight
import MathTemplate.Text.Blank

/-!
# Trimming once is enough

A trimmed text begins and ends with characters that are not blank, so trimming it again
changes nothing (`trimmed_trimmed`).
-/

namespace MathTemplate.Text

theorem trimEnd_eq_rdropWhile (cs : List Char) :
  trimEnd cs = cs.rdropWhile isBlank
  := rfl

/-- Trimming the end leaves a text that begins with no blank beginning so. -/
theorem trimStart_trimEnd {cs : List Char} (h : trimStart cs = cs) :
  trimStart (trimEnd cs) = trimEnd cs
  := by
  cases hcs : trimEnd cs with
  | nil => rfl
  | cons c rest =>
    obtain ⟨more, hmore⟩ : c :: rest <+: cs := by
      rw [← hcs, trimEnd_eq_rdropWhile]
      apply List.rdropWhile_prefix
    have hc : isBlank c = false := by
      rw [Bool.eq_false_iff]
      intro hblank
      rw [← hmore, trimStart, List.cons_append, List.dropWhile_cons, if_pos hblank] at h
      have hlength := (List.dropWhile_suffix isBlank (l := rest ++ more)).length_le
      rw [h, List.length_cons] at hlength
      omega
    rw [trimStart, List.dropWhile_cons, hc]
    rfl

theorem trim_trim (cs : List Char) :
  trim (trim cs) = trim cs
  := by
  have hstart : trimStart (trimStart cs) = trimStart cs := by
    rw [trimStart, trimStart, List.dropWhile_idempotent]
  rw [trim, trim, trimStart_trimEnd hstart]
  simp only [trimEnd_eq_rdropWhile]
  apply List.rdropWhile_idempotent

@[simp]
theorem trimmed_trimmed (s : String) :
  trimmed (trimmed s) = trimmed s
  := by
  rw [trimmed, trimmed, String.toList_ofList, trim_trim]

end MathTemplate.Text
