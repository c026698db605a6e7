import MathTemplate.Proofs.Expansion.Steps

/-!
# Loops

A loop first evaluates the sources of its variables, one behind the other, and goes on only if
each of them has elements (`sources_snd`).  If they are all of one length (`Aligned`), there is
one round for each position: the variables are bound to the elements at the position, one
behind the other, and the body is expanded (`bodyStart` is the progress it begins with).
-/

namespace MathTemplate

open Template (Node Assignment)
open Text (Span trimmed trimmed_trimmed)

namespace Progress

/-! ### Sources -/

/-- The source of a variable, evaluated from the progress `p` on, is accepted and has the
elements `items`. -/
structure HasElements (host : Host) (mode : Mode) (p : Progress) (a : Assignment)
    (answer : Evaluation) (items : List Value) : Prop where
  accepted : Check.issues mode host.forbiddenWords (some a.name) (trimmed a.expression) = []
  answered : host.evaluator (trimmed a.expression) p.session.valueOf? p.session.options =
    .ok answer
  elements : answer.value.elements? = some items

section Sources

variable {host : Host} {mode : Mode} {p : Progress}

/-- A source counts if it has elements. -/
theorem source_snd_eq_some {a : Assignment} {s : Source} (h : (p.source host mode a).2 = some s) :
  s.name = a.name ∧ ∃ answer, HasElements host mode p a answer s.items
  := by
  unfold source at h
  dsimp only at h
  split at h
  · cases h
  · rename_i haccepted
    split at h
    · rename_i answer hanswer
      obtain ⟨hname, hitems⟩ := sourceOf_snd h
      refine ⟨hname, answer, haccepted, ?_, hitems⟩
      rw [← hanswer, Session.append, trimmed_trimmed]
      rfl
    · cases h

/-- The sources count if each of them has elements. -/
theorem sources_snd_eq_some {binders : List Assignment} {found : List Source}
    (h : (p.sources host mode binders).2 = some found) :
  found.length = binders.length ∧
    ∀ before a after, binders = before ++ a :: after → ∃ s answer,
      found[before.length]? = some s ∧ s.name = a.name ∧
        HasElements host mode (p.sources host mode before).1 a answer s.items
  := by
  induction binders generalizing p found with
  | nil =>
    cases h
    refine ⟨rfl, ?_⟩
    intro before a after heq
    cases before with
    | nil => cases heq
    | cons b before => cases heq
  | cons b binders ih =>
    simp only [sources, Option.bind_eq_bind, Option.bind_eq_some_iff, Option.pure_def,
      Option.some.injEq] at h
    obtain ⟨first, hfirst, others, hothers, rfl⟩ := h
    obtain ⟨hname, answer, helements⟩ := source_snd_eq_some hfirst
    obtain ⟨hlength, hrest⟩ := ih hothers
    refine ⟨congrArg Nat.succ hlength, ?_⟩
    intro before a after heq
    cases before with
    | nil =>
      cases heq
      exact ⟨first, answer, rfl, hname, helements⟩
    | cons b' before =>
      cases heq
      exact hrest before a after rfl

end Sources

/-! ### Rounds -/

/-- How often a loop over sources goes round. -/
def rounds (found : List Source) : Nat := (found.head?.map fun s => s.items.length).getD 0

/-- Whether all sources have as many elements as there are rounds. -/
def Aligned (found : List Source) : Prop := ∀ s ∈ found, s.items.length = rounds found

section Rounds

variable (host : Host) (span : Span) (found : List Source) (body : Progress → Progress)

/-- The progress in front of a round. -/
def roundStart (p : Progress) (i : Nat) : Progress :=
  (List.range i).foldl (iterate host span found body) p

/-- The progress when the body of a round begins. -/
def bodyStart (p : Progress) (i : Nat) : Progress :=
  (elementsAt found i).foldl (bindElement host span) (p.roundStart host span found body i)

/-- A round leads from the beginning of its body to the next round. -/
theorem roundStart_succ (p : Progress) (i : Nat) :
  p.roundStart host span found body (i + 1) = body (p.bodyStart host span found body i)
  := by
  rw [roundStart, List.range_succ, List.foldl_append]
  rfl

/-- From each round steps lead to those behind it. -/
theorem roundStart_leads {host : Host} {span : Span} {found : List Source}
    {body : Progress → Progress} (hbody : ∀ q, Leads q (body q)) (p : Progress) {i j : Nat}
    (h : i ≤ j) :
  Leads (p.roundStart host span found body i) (p.roundStart host span found body j)
  := by
  induction j, h using Nat.le_induction with
  | base => exact ⟨[], .done⟩
  | succ j h ih =>
    apply ih.trans
    rw [roundStart, roundStart, List.range_succ, List.foldl_append]
    exact iterate_leads hbody j

theorem unroll_of_aligned (h : Aligned found) (p : Progress) :
  p.unroll host span found body =
    (p.roundStart host span found body (rounds found)).leave p.session.mark
  := by
  have hlengths : (found.any fun s => s.items.length != rounds found) = false := by
    rw [List.any_eq_false]
    intro s hs
    simp [h s hs]
  rw [unroll]
  change (if (found.any fun s => s.items.length != rounds found) = true then _ else _) = _
  rw [hlengths]
  rfl

theorem unroll_of_not_aligned (h : ¬ Aligned found) (p : Progress) :
  p.unroll host span found body = p.report (lengthMismatch found span)
  := by
  have hlengths : (found.any fun s => s.items.length != rounds found) = true := by
    by_contra hnone
    apply h
    intro s hs
    rw [Bool.not_eq_true, List.any_eq_false] at hnone
    simpa using hnone s hs
  rw [unroll]
  change (if (found.any fun s => s.items.length != rounds found) = true then _ else _) = _
  rw [hlengths]
  rfl

end Rounds

/-- The element of each variable can be evaluated in each round. -/
def ElementsBound (host : Host) (span : Span) (found : List Source) (body : Progress → Progress)
    (p : Progress) : Prop :=
  ∀ i < rounds found, ∀ before element after, elementsAt found i = before ++ element :: after →
    ∃ answer, ((before.foldl (bindElement host span)
      (p.roundStart host span found body i)).session.append host.evaluator (some element.1)
        element.2.text).2.result = .ok answer

/-- A loop is unrolled without an error: its sources count and are of one length, and every
element can be evaluated. -/
structure Unrolls (host : Host) (mode : Mode) (p : Progress) (binders : List Assignment)
    (children : List Node) (span : Span) (found : List Source) : Prop where
  found_eq : (p.sources host mode binders).2 = some found
  aligned : Aligned found
  bound : ElementsBound host span found (fun q => nodes host mode q children)
    (p.sources host mode binders).1

/-- A loop whose sources count is unrolled behind them. -/
theorem foreach_of_found {host : Host} {mode : Mode} {p : Progress} {binders : List Assignment}
    {found : List Source} (h : (p.sources host mode binders).2 = some found) (span : Span)
    (body : Progress → Progress) :
  p.foreach host mode binders span body =
    (p.sources host mode binders).1.unroll host span found body
  := by
  cases hsources : p.sources host mode binders with
  | mk q result =>
    rw [hsources] at h
    rw [foreach, hsources, show result = some found from h]

end Progress

end MathTemplate
