import MathTemplate.Proofs.Expansion.Keys
import MathTemplate.Proofs.Session.History

/-!
# Returning to a mark

What is done inside a block appends bindings, takes marks and returns to them, but to no mark
that was taken before the block was entered (`ReturnsTo`).  So the bindings there were when the
block was entered stay at the bottom of the log, hidden or not as they were (`GrownFrom`), and
the session that is returned to the mark of the block has the keys and the counter it had then
(`restore_scope`).  The bindings made since are hidden and otherwise stay as they are, and their
values stay in force.
-/

namespace MathTemplate

open MathTemplate.Algebra (calculator)

namespace Session

/-! ### Marks at hand -/

/-- The mark an operation returns to, if it returns to one. -/
def Operation.target? : Operation → Option Mark
  | .restore m => some m
  | _ => none

/-- The marks at hand behind an operation.  A snapshot adds the mark it takes. -/
def marksBehind (s : Session) (marks : List Mark) : Operation → List Mark
  | .snapshot => s.mark :: marks
  | _ => marks

/-- Whether operations on a session return only to marks at hand: to one of `marks`, or to one
that a snapshot among the operations has taken before. -/
def ReturnsTo (marks : List Mark) (s : Session) : List Operation → Prop
  | [] => True
  | operation :: rest =>
    (∀ m ∈ operation.target?, m ∈ marks) ∧
      ReturnsTo (s.marksBehind marks operation) (s.perform operation) rest

instance decidableReturnsTo (marks : List Mark) (s : Session) :
    (operations : List Operation) → Decidable (ReturnsTo marks s operations)
  | [] => inferInstanceAs (Decidable True)
  | operation :: rest =>
    have := decidableReturnsTo (s.marksBehind marks operation) (s.perform operation) rest
    inferInstanceAs (Decidable (_ ∧ _))

/-! ### What stays of a session -/

variable {base s : Session}

/-- Whether a log has grown on the log of another session, which stays as it is at its end. -/
def GrownFrom (base s : Session) : Prop := ∃ added, s.log = added ++ base.log

/-- A mark that is taken since is not below what was there. -/
theorem GrownFrom.length_le (h : GrownFrom base s) :
  base.length ≤ s.mark.length
  := by
  obtain ⟨added, hadded⟩ := h
  change base.log.length ≤ s.log.length
  rw [hadded, List.length_append]
  exact Nat.le_add_left _ _

/-- Returning to a mark hides only what is above the mark. -/
theorem GrownFrom.restore {m : Mark} (h : GrownFrom base s) (hm : base.length ≤ m.length) :
  GrownFrom base (s.restore m)
  := by
  obtain ⟨added, hadded⟩ := h
  have hlater : s.length - m.length ≤ added.length := by
    rw [length, hadded, List.length_append]
    change base.log.length ≤ m.length at hm
    omega
  use (added.take (s.length - m.length)).map hide ++ added.drop (s.length - m.length)
  rw [log_restore, hadded, List.take_append_of_le_length hlater,
    List.drop_append_of_le_length hlater, List.append_assoc]

/-- An operation that returns to no mark below the log of a session leaves this log as it is. -/
theorem GrownFrom.perform {operation : Operation} (h : GrownFrom base s)
    (hm : ∀ m ∈ operation.target?, base.length ≤ m.length) :
  GrownFrom base (s.perform operation)
  := by
  obtain ⟨added, hadded⟩ := h
  have hrecord : ∀ key b, GrownFrom base ((s.asked key).record b) := by
    intro key b
    use b :: added
    change b :: s.log = _
    rw [hadded]
    rfl
  cases operation with
  | addAssignment evaluator text =>
    obtain ⟨raw, hpush⟩ := s.addAssignment_eq_push text
    rw [Session.perform, hpush]
    apply hrecord
  | assign evaluator key expression => exact hrecord (some key) _
  | append evaluator key expression => apply hrecord
  | appendInvalid key raw message => apply hrecord
  | setOptions options => exact ⟨added, hadded⟩
  | snapshot => exact ⟨added, hadded⟩
  | restore m => exact GrownFrom.restore ⟨added, hadded⟩ (hm m rfl)

/-- Operations that return only to marks taken since leave the log of a session as it is. -/
theorem GrownFrom.run {marks : List Mark} {operations : List Operation} (h : GrownFrom base s)
    (hmarks : ∀ m ∈ marks, base.length ≤ m.length) (hreturns : ReturnsTo marks s operations) :
  GrownFrom base (operations.foldl Session.perform s)
  := by
  induction operations generalizing s marks with
  | nil => exact h
  | cons operation rest ih =>
    obtain ⟨htarget, hrest⟩ := hreturns
    apply ih (h.perform fun m hm => hmarks m (htarget m hm)) _ hrest
    cases operation with
    | snapshot => exact List.forall_mem_cons.mpr ⟨h.length_le, hmarks⟩
    | _ => exact hmarks

/-- A session that has grown on another and is returned to its mark has its keys. -/
theorem GrownFrom.keyState_restore (h : GrownFrom base s) :
  (s.restore base.mark).keyState = base.keyState
  := by
  obtain ⟨added, hadded⟩ := h
  have hlog := Progress.Runs.log_leave hadded
  change KeyState.mk (visibleKeys (s.restore base.mark).log) base.counter = _
  rw [hlog, visibleKeys_append, visibleKeys_hide]
  rfl

/-! ### Leaving a block -/

/-- Whatever is done since a mark was taken, as long as no return goes to an earlier mark, the
return to the mark brings back the list of keys and the number the next generated key begins
at.  It changes nothing about any binding but whether it is hidden, and no value in force. -/
theorem restore_scope (s : Session) (operations : List Operation)
    (h : ReturnsTo [s.mark] s operations) :
  let inner := operations.foldl perform s
  (inner.restore s.mark).keys = s.keys ∧
    (inner.restore s.mark).counter = s.counter ∧
    (inner.restore s.mark).bindings.map hide = inner.bindings.map hide ∧
    ∀ key, (inner.restore s.mark).valueOf? key = inner.valueOf? key ∧
      (inner.restore s.mark).displayOf? key = inner.displayOf? key
  := by
  intro inner
  have hgrown : GrownFrom s inner := by
    apply GrownFrom.run ⟨[], rfl⟩ _ h
    exact List.forall_mem_singleton.mpr (Nat.le_refl _)
  have hkeys : (inner.restore s.mark).keyState = s.keyState := hgrown.keyState_restore
  obtain ⟨hvalues, hdisplays⟩ := inner.lookups_restore s.mark
  refine ⟨?_, rfl, ?_, fun key => ⟨congrFun hvalues key, congrFun hdisplays key⟩⟩
  · rw [keys_eq_keyState, hkeys, keys_eq_keyState]
  · have hentries := congrArg List.reverse (entries_restore inner s.mark)
    simpa only [entries, bindings, List.map_reverse] using hentries

/-- A session with a name and a generated key. -/
def beforeBlock : Session :=
  reached {} [.assign calculator "x" "1", .append calculator none "x+1"]

/-- A block that binds the name again and a key of the generated form, with a block inside it
that is left, and a rejected expression behind that. -/
def insideBlock : List Operation :=
  [.assign calculator "x" "2", .append calculator (some "autogen7") "x", .snapshot,
    .append calculator none "x+y", .restore ⟨4, 8⟩, .appendInvalid none "system(x)" "no"]

/-- The name keeps the value it was given in the block, and the keys are those there were. -/
theorem restore_scope_nested :
  ReturnsTo [beforeBlock.mark] beforeBlock insideBlock ∧
    (insideBlock.foldl perform beforeBlock).keys = ["x", "autogen0", "autogen7", "autogen8"] ∧
    ((insideBlock.foldl perform beforeBlock).restore beforeBlock.mark).keys = beforeBlock.keys ∧
    ((insideBlock.foldl perform beforeBlock).restore beforeBlock.mark).counter = 1 ∧
    (((insideBlock.foldl perform beforeBlock).restore beforeBlock.mark).valueOf? "x").map
      Value.text = some "2"
  := by
  have hreturns : ReturnsTo [beforeBlock.mark] beforeBlock insideBlock := by decide +kernel
  obtain ⟨hkeys, hcounter, -, hvalues⟩ := restore_scope beforeBlock insideBlock hreturns
  refine ⟨hreturns, by decide +kernel, hkeys, ?_, ?_⟩
  · rw [hcounter]
    decide +kernel
  · rw [(hvalues "x").1]
    decide +kernel

end Session

end MathTemplate
