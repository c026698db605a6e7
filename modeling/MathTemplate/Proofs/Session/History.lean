import MathTemplate.Algebra.Calculator
import MathTemplate.Proofs.Expansion.Gate

/-!
# What becomes of a session

A session is worked on by a few operations (`Session.Operation`): expressions are evaluated or
rejected, the options of the display form are set, and the session is returned to a mark.  An
operation either appends one binding, or touches neither the places of the values in force nor
any binding but for hiding it (`Session.perform_cases`).  So whatever is done to an empty session,
in whatever order, the place kept for a key is that of the last binding that gives it a value
(`Session.reached_isIndexed`), which is what a look-up finds (`Session.binding?_eq_lastWrite?`).
-/

namespace MathTemplate

open MathTemplate.Algebra (calculator)

namespace Session

/-! ### Operations -/

/-- What can be done to a session.  Each evaluation may ask another evaluator, and the mark
returned to may be any mark at all. -/
inductive Operation where
  | addAssignment (evaluator : Evaluator) (text : String)
  | assign (evaluator : Evaluator) (key expression : String)
  | append (evaluator : Evaluator) (key : Option String) (expression : String)
  | appendInvalid (key : Option String) (raw message : String)
  | setOptions (options : RenderOptions)
  | snapshot
  | restore (m : Mark)

/-- The session behind an operation.  A snapshot gives `Session.mark` and leaves the session as
it is. -/
def perform (s : Session) : Operation → Session
  | .addAssignment evaluator text => (s.addAssignment evaluator text).1
  | .assign evaluator key expression => (s.assign evaluator key expression).1
  | .append evaluator key expression => (s.append evaluator key expression).1
  | .appendInvalid key raw message => (s.appendInvalid key raw message).1
  | .setOptions options => { s with options := options }
  | .snapshot => s
  | .restore m => s.restore m

/-- What becomes of the expression an operation brings, if it brings one. -/
def outcome? (s : Session) : Operation → Option Outcome
  | .addAssignment evaluator text => some (outcomeOf (s.addAssignment evaluator text).2.result)
  | .assign evaluator key expression =>
    some (outcomeOf (s.assign evaluator key expression).2.result)
  | .append evaluator key expression =>
    some (outcomeOf (s.append evaluator key expression).2.result)
  | .appendInvalid _ _ message => some (.rejected message)
  | .setOptions _ => none
  | .snapshot => none
  | .restore _ => none

/-- The session that is reached from an empty one by some operations. -/
def reached (options : RenderOptions) (operations : List Operation) : Session :=
  operations.foldl perform { options := options }

/-- An operation that brings an expression appends a binding with what becomes of it, under the
key it asks for, and any other leaves the bindings, whether or not they are hidden, and the
places of the values in force. -/
theorem perform_cases (s : Session) (operation : Operation) :
  (∃ key raw expression outcome, s.outcome? operation = some outcome ∧
      s.perform operation =
        (s.asked key).record ⟨s.keyOr key, raw, expression, outcome, false⟩) ∨
    (s.outcome? operation = none ∧ (s.perform operation).entries = s.entries ∧
      (s.perform operation).latest = s.latest)
  := by
  cases operation with
  | addAssignment evaluator text =>
    left
    obtain ⟨raw, hpush⟩ := s.addAssignment_eq_push text
    simp only [perform, outcome?, hpush]
    exact ⟨_, raw, _, _, rfl, rfl⟩
  | assign evaluator key expression => exact .inl ⟨some key, _, _, _, rfl, rfl⟩
  | append evaluator key expression => exact .inl ⟨key, _, _, _, rfl, rfl⟩
  | appendInvalid key raw message => exact .inl ⟨key, _, _, _, rfl, rfl⟩
  | setOptions options => exact .inr ⟨rfl, rfl, rfl⟩
  | snapshot => exact .inr ⟨rfl, rfl, rfl⟩
  | restore m => exact .inr ⟨rfl, entries_restore s m, rfl⟩

/-! ### Bindings -/

/-- The bindings there are stay the first ones, and as they are but for being hidden. -/
theorem entries_perform (s : Session) (operation : Operation) :
  ∃ added, (s.perform operation).entries = added ++ s.entries
  := by
  rcases s.perform_cases operation with
    ⟨key, raw, expression, outcome, -, hperform⟩ | ⟨-, hentries, -⟩
  · rw [hperform]
    exact ⟨[hide ⟨s.keyOr key, raw, expression, outcome, false⟩], rfl⟩
  · exact ⟨[], hentries⟩

/-! ### Look-ups -/

/-- Whether a binding gives a key a value. -/
def writes (key : String) (b : Binding) : Bool := b.key == key && b.outcome.value?.isSome

/-- The last binding that gives a key a value, hidden or not. -/
def lastWrite? (s : Session) (key : String) : Option Binding := s.log.find? (writes key)

/-- The place of the last binding that gives a key a value, counted from the earliest binding
on. -/
def lastPlace? (s : Session) (key : String) : Option Nat :=
  (s.log.findIdx? (writes key)).map fun i => s.length - 1 - i

/-- Whether the place kept for each key is that of the last binding that gives it a value. -/
def IsIndexed (s : Session) : Prop := ∀ key, s.latest[key]? = s.lastPlace? key

/-- Where something was written last is the same whether or not the bindings are hidden. -/
theorem lastPlace?_eq_entries (s : Session) (key : String) :
  s.lastPlace? key =
    (s.entries.findIdx? (writes key)).map fun i => s.entries.length - 1 - i
  := by
  rw [entries, List.findIdx?_map, List.length_map]
  rfl

theorem isIndexed_of_entries_eq {s s' : Session} (hentries : s'.entries = s.entries)
    (hlatest : s'.latest = s.latest) (h : s.IsIndexed) :
  s'.IsIndexed
  := by
  intro key
  rw [hlatest, h key, lastPlace?_eq_entries, lastPlace?_eq_entries, hentries]

theorem writes_iff {key : String} {b : Binding} :
  writes key b = true ↔ b.key = key ∧ b.outcome.value?.isSome = true
  := by
  rw [writes, Bool.and_eq_true, beq_iff_eq]

theorem isIndexed_record {s : Session} (b : Binding) (h : s.IsIndexed) :
  (s.record b).IsIndexed
  := by
  intro key
  have hlength : (s.record b).length = s.length + 1 := rfl
  rw [getElem?_latest_record, lastPlace?, log_record, List.findIdx?_cons, hlength]
  by_cases hwrites : writes key b = true
  · rw [if_pos (writes_iff.mp hwrites), if_pos hwrites]
    rfl
  · rw [if_neg (mt writes_iff.mpr hwrites), if_neg hwrites, h key, lastPlace?, Option.map_map]
    congr 1
    funext i
    change s.length - 1 - i = s.length + 1 - 1 - (i + 1)
    omega

theorem isIndexed_perform {s : Session} (operation : Operation) (h : s.IsIndexed) :
  (s.perform operation).IsIndexed
  := by
  rcases s.perform_cases operation with
    ⟨key, raw, expression, outcome, -, hperform⟩ | ⟨-, hentries, hlatest⟩
  · rw [hperform]
    exact isIndexed_record (s := s.asked key) _ h
  · exact isIndexed_of_entries_eq hentries hlatest h

/-- Whatever has been done to an empty session, the place kept for each key is that of the last
binding that gives it a value. -/
theorem reached_isIndexed (options : RenderOptions) (operations : List Operation) :
  (reached options operations).IsIndexed
  := by
  have hrun : ∀ s : Session, s.IsIndexed → (operations.foldl perform s).IsIndexed := by
    induction operations with
    | nil => exact fun s h => h
    | cons operation operations ih => exact fun s h => ih _ (isIndexed_perform operation h)
  apply hrun
  intro key
  exact Std.TreeMap.getElem?_emptyc

/-- A key stands for the last binding that gives it a value. -/
theorem binding?_eq_lastWrite? {s : Session} (h : s.IsIndexed) (key : String) :
  s.binding? key = s.lastWrite? key
  := by
  rw [binding?, h key, lastPlace?, lastWrite?, List.find?_eq_bind_findIdx?_getElem?,
    Option.bind_map]
  cases hfound : s.log.findIdx? (writes key) with
  | none => rfl
  | some i =>
    obtain ⟨hi, -⟩ := List.findIdx?_eq_some_iff_getElem.mp hfound
    change s.log.reverse[s.log.length - 1 - i]? = s.log[i]?
    rw [List.getElem?_reverse (by omega)]
    congr 1
    omega

/-- The binding a key stands for is told, up to whether it is hidden, by the places and by the
bindings, hidden or not. -/
theorem binding?_map_hide (s : Session) (key : String) :
  (s.binding? key).map hide = s.latest[key]?.bind fun place => s.entries.reverse[place]?
  := by
  rw [binding?, Option.map_bind, entries, ← List.map_reverse]
  congr 1
  funext place
  exact List.getElem?_map.symm

/-- Hiding bindings changes no look-up. -/
theorem lookups_of_entries_eq {s s' : Session} (hentries : s'.entries = s.entries)
    (hlatest : s'.latest = s.latest) :
  s'.valueOf? = s.valueOf? ∧ s'.displayOf? = s.displayOf?
  := by
  have hbinding : ∀ key, (s'.binding? key).map hide = (s.binding? key).map hide := by
    intro key
    rw [binding?_map_hide, binding?_map_hide, hentries, hlatest]
  -- a look-up does not see whether the binding it finds is hidden
  have hread : ∀ {α : Type} (read : Outcome → Option α) key,
      ((s'.binding? key).bind fun b => read b.outcome) =
        (s.binding? key).bind fun b => read b.outcome := by
    intro α read key
    have hhide : ∀ found : Option Binding, ((found.map hide).bind fun b => read b.outcome) =
        found.bind fun b => read b.outcome := by
      rintro (_ | b) <;> rfl
    rw [← hhide, hbinding, hhide]
  exact ⟨funext (hread Outcome.value?), funext (hread Outcome.display?)⟩

/-- A session returned to a mark has the values it had before. -/
theorem lookups_restore (s : Session) (m : Mark) :
  (s.restore m).valueOf? = s.valueOf? ∧ (s.restore m).displayOf? = s.displayOf?
  := lookups_of_entries_eq (entries_restore s m) rfl

/-- A binding that is appended changes the look-ups of its own key only, and these only if it
has a value. -/
theorem lookups_record (s : Session) (b : Binding) (key : String) :
  (s.record b).valueOf? key = (if writes key b then b.outcome.value? else s.valueOf? key) ∧
    (s.record b).displayOf? key = (if writes key b then b.outcome.display? else s.displayOf? key)
  := by
  rw [valueOf?, displayOf?, binding?_record]
  by_cases h : writes key b = true
  · rw [if_pos (writes_iff.mp h), if_pos h, if_pos h]
    exact ⟨rfl, rfl⟩
  · rw [if_neg (mt writes_iff.mpr h), if_neg h, if_neg h]
    exact ⟨rfl, rfl⟩

/-- An operation whose expression gets no value changes no look-up. -/
theorem lookups_perform_of_no_value {s : Session} {operation : Operation}
    (h : ∀ outcome, s.outcome? operation = some outcome → outcome.value? = none) (key : String) :
  (s.perform operation).valueOf? key = s.valueOf? key ∧
    (s.perform operation).displayOf? key = s.displayOf? key
  := by
  rcases s.perform_cases operation with
    ⟨key', raw, expression, outcome, houtcome, hperform⟩ | ⟨-, hentries, hlatest⟩
  · have hlookups :=
      (s.asked key').lookups_record ⟨s.keyOr key', raw, expression, outcome, false⟩ key
    have hwrites : writes key ⟨s.keyOr key', raw, expression, outcome, false⟩ = false := by
      simp [writes, h outcome houtcome]
    rw [hwrites, if_neg Bool.false_ne_true, if_neg Bool.false_ne_true] at hlookups
    rw [hperform]
    exact hlookups
  · obtain ⟨hvalue, hdisplay⟩ := lookups_of_entries_eq hentries hlatest
    rw [hvalue, hdisplay]
    exact ⟨rfl, rfl⟩

/-- The bindings there are stay the first ones, and as they are but for being hidden. -/
theorem take_bindings_perform (s : Session) (operation : Operation) :
  ((s.perform operation).bindings.take s.length).map hide = s.bindings.map hide
  := by
  obtain ⟨added, hadded⟩ := s.entries_perform operation
  have hreverse := congrArg (fun log => log.reverse.take s.length) hadded
  have hlength : s.length = s.entries.reverse.length := by
    rw [List.length_reverse, entries, List.length_map, length]
  simp only [List.reverse_append] at hreverse
  rw [hlength, List.take_left, ← hlength] at hreverse
  simpa only [entries, bindings, List.map_take, List.map_reverse] using hreverse

/-- Whatever has been done to an empty session, the value and the display form of a key are
those of the last binding, hidden or not, that gives the key a value, if there is one.  An
operation whose evaluation fails or whose expression is rejected changes neither for any key,
and no operation removes a binding or changes anything about it but whether it is hidden. -/
theorem lookups_are_last_writes (options : RenderOptions) (operations : List Operation) :
  let s := reached options operations
  (∀ key, s.valueOf? key = (s.lastWrite? key).bind (·.outcome.value?) ∧
      s.displayOf? key = (s.lastWrite? key).bind (·.outcome.display?)) ∧
    ∀ operation,
      ((∀ outcome, s.outcome? operation = some outcome → outcome.value? = none) →
        ∀ key, (s.perform operation).valueOf? key = s.valueOf? key ∧
          (s.perform operation).displayOf? key = s.displayOf? key) ∧
      ((s.perform operation).bindings.take s.length).map hide = s.bindings.map hide
  := by
  intro s
  refine ⟨fun key => ?_, fun operation => ⟨?_, ?_⟩⟩
  · rw [valueOf?, displayOf?, binding?_eq_lastWrite? (reached_isIndexed options operations)]
    exact ⟨rfl, rfl⟩
  · exact lookups_perform_of_no_value
  · apply take_bindings_perform

/-- A name that is bound, bound again in a block that is left, and left with a mark that was
taken before. -/
def rebound : List Operation :=
  [.assign calculator "x" "1", .snapshot, .assign calculator "x" "2", .snapshot,
    .append calculator none "x+y", .restore ⟨2, 0⟩, .restore ⟨1, 0⟩]

/-- The value the name has from the block that has been left stays when a division by zero is
bound to it. -/
theorem lookups_are_last_writes_division_by_zero :
  (∀ outcome, (reached {} rebound).outcome? (.assign calculator "x" "1/0") = some outcome →
      outcome.value? = none) ∧
    ((reached {} rebound).valueOf? "x").map Value.text = some "2" ∧
    ((reached {} rebound).perform (.assign calculator "x" "1/0")).valueOf? "x" =
      (reached {} rebound).valueOf? "x"
  := by
  have hfails : ∀ outcome,
      (reached {} rebound).outcome? (.assign calculator "x" "1/0") = some outcome →
        outcome.value? = none := by
    have hnone : (((reached {} rebound).outcome? (.assign calculator "x" "1/0")).bind
        Outcome.value?).isNone = true := by
      decide +kernel
    intro outcome houtcome
    rw [houtcome, Option.bind_some, Option.isNone_iff_eq_none] at hnone
    exact hnone
  refine ⟨hfails, by decide +kernel, ?_⟩
  exact (((lookups_are_last_writes {} rebound).2 _).1 hfails "x").1

end Session

end MathTemplate
