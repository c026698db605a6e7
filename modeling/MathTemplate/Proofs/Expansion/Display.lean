import Mathlib.Data.List.Forall2
import MathTemplate.Proofs.Expansion.Keys
import MathTemplate.Proofs.Session.History

/-!
# What the options of the display form can change

The options of the display form come to nothing but the display forms of values.  Two sessions
are alike (`Session.Alike`) if they differ in their options and in the display forms of their
bindings only.  Expansions of a template that begin with such sessions run side by side: what is
evaluated, which blocks are gone into and how often, and what is reported are the same
(`Progress.nodes_alike`).  The display forms show in the text that is put out, but in no place
where a value itself is asked for.

The evaluator enters by one property only: its values, its plots and its errors do not depend on
the options (`Evaluator.DisplaysOnly`), as is the case for the calculator
(`Algebra.calculator_displaysOnly`).
-/

namespace MathTemplate

open Template (Node Assignment)
open Text (Span trimmed)

/-! ### Evaluations -/

/-- Two answers are the same but for the display form of the value. -/
inductive SameAnswer : Except EvalError Evaluation → Except EvalError Evaluation → Prop
  | ok {e e' : Evaluation} (value : e.value = e'.value) (plot : e.plot = e'.plot) :
      SameAnswer (.ok e) (.ok e')
  | error (e : EvalError) : SameAnswer (.error e) (.error e)

/-- Whether the options of the display form change nothing but display forms. -/
def Evaluator.DisplaysOnly (evaluator : Evaluator) : Prop :=
  ∀ text env options options',
    SameAnswer (evaluator text env options) (evaluator text env options')

theorem Algebra.calculator_displaysOnly :
  Evaluator.DisplaysOnly calculator
  := by
  intro text env options options'
  unfold calculator
  split
  · exact .error _
  · split
    · exact .error _
    · exact .ok rfl rfl

/-! ### Sessions -/

/-- Two bindings are the same but for the display forms of their values. -/
structure Binding.Alike (b b' : Binding) : Prop where
  key : b.key = b'.key
  raw : b.raw = b'.raw
  expression : b.expression = b'.expression
  value : b.outcome.value? = b'.outcome.value?
  error : b.outcome.error? = b'.outcome.error?
  hidden : b.hidden = b'.hidden

/-- Two sessions are the same but for their options and the display forms of values. -/
structure Session.Alike (s s' : Session) : Prop where
  log : List.Forall₂ Binding.Alike s.log s'.log
  values : s.valueOf? = s'.valueOf?
  counter : s.counter = s'.counter

namespace Session

variable {s s' : Session}

theorem visibleKeys_of_alike {log log' : List Binding} (h : List.Forall₂ Binding.Alike log log') :
  visibleKeys log = visibleKeys log'
  := by
  induction h with
  | nil => rfl
  | cons hb _ ih =>
    rw [visibleKeys, visibleKeys, List.filter_cons, List.filter_cons, hb.hidden]
    split
    · rw [List.map_cons, List.map_cons, hb.key]
      exact congrArg _ ih
    · exact ih

theorem Alike.keyState (h : s.Alike s') :
  s.keyState = s'.keyState
  := by
  rw [Session.keyState, Session.keyState, visibleKeys_of_alike h.log, h.counter]

theorem Alike.keyOr (h : s.Alike s') (key : Option String) :
  s.keyOr key = s'.keyOr key
  := by
  rw [keyOr_eq_keyState, keyOr_eq_keyState, h.keyState]

theorem Alike.asked (h : s.Alike s') (key : Option String) :
  (s.asked key).Alike (s'.asked key)
  := by
  constructor
  · exact h.log
  · exact h.values
  · change s.counterBehind key = s'.counterBehind key
    rw [counterBehind_eq_keyState, counterBehind_eq_keyState, h.keyState]

theorem Alike.mark (h : s.Alike s') :
  s.mark = s'.mark
  := by
  rw [Session.mark, Session.mark, length, length, h.log.length_eq, h.counter]

theorem Alike.record (h : s.Alike s') {b b' : Binding} (hb : b.Alike b') :
  (s.record b).Alike (s'.record b')
  := by
  constructor
  · exact h.log.cons hb
  · funext key
    rw [(lookups_record s b key).1, (lookups_record s' b' key).1, writes, writes, hb.value, hb.key,
      h.values]
  · change s.counterPast b.key = s'.counterPast b'.key
    rw [counterPast, counterPast, hb.key, h.counter]

/-- What a binding is evaluated to is the same but for its display form. -/
theorem outcomeOf_alike {r r' : Except EvalError Evaluation} (h : SameAnswer r r') :
  (outcomeOf r).value? = (outcomeOf r').value? ∧ (outcomeOf r).error? = (outcomeOf r').error?
  := by
  cases h with
  | ok value plot => exact ⟨congrArg some value, rfl⟩
  | error e => exact ⟨rfl, rfl⟩

section Push

variable {evaluator : Evaluator}

theorem Alike.push (h : s.Alike s') (hevaluator : evaluator.DisplaysOnly)
    (key raw expression : String) :
  (s.push evaluator key raw expression).1.Alike (s'.push evaluator key raw expression).1 ∧
    SameAnswer (s.push evaluator key raw expression).2.result
      (s'.push evaluator key raw expression).2.result
  := by
  have hanswer : SameAnswer (evaluator expression s.valueOf? s.options)
      (evaluator expression s'.valueOf? s'.options) := by
    rw [h.values]
    apply hevaluator
  obtain ⟨hvalue, herror⟩ := outcomeOf_alike hanswer
  exact ⟨h.record ⟨rfl, rfl, rfl, hvalue, herror, rfl⟩, hanswer⟩

theorem Alike.append (h : s.Alike s') (hevaluator : evaluator.DisplaysOnly)
    (key : Option String) (expression : String) :
  (s.append evaluator key expression).1.Alike (s'.append evaluator key expression).1 ∧
    SameAnswer (s.append evaluator key expression).2.result
      (s'.append evaluator key expression).2.result
  := by
  rw [Session.append, Session.append, h.keyOr]
  apply (h.asked key).push hevaluator

theorem Alike.addAssignment (h : s.Alike s') (hevaluator : evaluator.DisplaysOnly)
    (text : String) :
  (s.addAssignment evaluator text).1.Alike (s'.addAssignment evaluator text).1 ∧
    SameAnswer (s.addAssignment evaluator text).2.result
      (s'.addAssignment evaluator text).2.result
  := by
  unfold Session.addAssignment
  split
  · apply h.push hevaluator
  · split
    · apply h.push hevaluator
    · apply h.append hevaluator

theorem Alike.appendInvalid (h : s.Alike s') (key : Option String) (raw message : String) :
  (s.appendInvalid key raw message).1.Alike (s'.appendInvalid key raw message).1
  := by
  rw [Session.appendInvalid, Session.appendInvalid, h.keyOr]
  exact (h.asked key).record ⟨rfl, rfl, rfl, rfl, rfl, rfl⟩

end Push

theorem Alike.restore (h : s.Alike s') (m : Mark) :
  (s.restore m).Alike (s'.restore m)
  := by
  constructor
  · rw [log_restore, log_restore, length, length, h.log.length_eq]
    apply List.rel_append
    · rw [List.forall₂_map_left_iff, List.forall₂_map_right_iff]
      apply (List.forall₂_take _ h.log).imp
      intro b b' hb
      exact ⟨hb.key, hb.raw, hb.expression, hb.value, hb.error, rfl⟩
    · apply List.forall₂_drop _ h.log
  · rw [(lookups_restore s m).1, (lookups_restore s' m).1]
    exact h.values
  · rfl

end Session

/-! ### The parts of an expansion -/

namespace Progress

/-- Two expansions have come to sessions that are alike and have reported the same; if `shown`
holds, they have put out the same text. -/
structure Alike (shown : Prop) (p p' : Progress) : Prop where
  session : p.session.Alike p'.session
  diagnostics : p.diagnostics = p'.diagnostics
  output : shown → p.output = p'.output

section Parts

variable {shown : Prop} {p p' : Progress}

theorem Alike.write (h : Alike shown p p') {text text' : String} (htext : shown → text = text') :
  Alike shown (p.write text) (p'.write text')
  := by
  refine ⟨h.session, h.diagnostics, ?_⟩
  intro hshown
  change p.output ++ text = p'.output ++ text'
  rw [h.output hshown, htext hshown]

theorem Alike.report (h : Alike shown p p') (d : Diagnostic) :
  Alike shown (p.report d) (p'.report d)
  := ⟨h.session, congrArg (d :: ·) h.diagnostics, h.output⟩

theorem Alike.withSession (h : Alike shown p p') {s s' : Session} (hs : s.Alike s') :
  Alike shown { p with session := s } { p' with session := s' }
  := ⟨hs, h.diagnostics, h.output⟩

theorem Alike.leave (h : Alike shown p p') (m : Mark) :
  Alike shown (p.leave m) (p'.leave m)
  := h.withSession (h.session.restore m)

theorem Alike.reportIssues (h : Alike shown p p') (span : Span) (issues : List Check.Issue) :
  Alike shown (p.reportIssues span issues) (p'.reportIssues span issues)
  := by
  rw [reportIssues_eq, reportIssues_eq, h.diagnostics]
  exact ⟨h.session, rfl, h.output⟩

theorem Alike.foldl (h : Alike shown p p') {α : Type} {step : Progress → α → Progress}
    {as : List α}
    (hstep : ∀ a ∈ as, ∀ q q', Alike shown q q' → Alike shown (step q a) (step q' a)) :
  Alike shown (as.foldl step p) (as.foldl step p')
  := by
  induction as generalizing p p' with
  | nil => exact h
  | cons a as ih =>
    obtain ⟨ha, has⟩ := List.forall_mem_cons.mp hstep
    exact ih (ha p p' h) has

variable {host : Host} {mode : Mode}

theorem Alike.checked (h : Alike shown p p') {key name : Option String} {raw expression : String}
    {span : Span} {next : Progress → Progress} (hnext : Alike shown (next p) (next p')) :
  Alike shown (p.checked host mode key name raw expression span next)
    (p'.checked host mode key name raw expression span next)
  := by
  unfold Progress.checked
  split
  · exact hnext
  · apply Alike.reportIssues
    apply h.withSession
    apply h.session.appendInvalid

theorem Alike.settle (h : Alike shown p p') {done done' : Session × Appended}
    (hdone : done.1.Alike done'.1 ∧ SameAnswer done.2.result done'.2.result) {text : String}
    {span : Span} {next : Progress → Evaluation → Progress}
    (hnext : ∀ q q' e e', Alike shown q q' → e.value = e'.value → e.plot = e'.plot →
      Alike shown (next q e) (next q' e')) :
  Alike shown (p.settle done text span next) (p'.settle done' text span next)
  := by
  obtain ⟨hsession, hanswer⟩ := hdone
  unfold Progress.settle
  generalize done.2.result = r, done'.2.result = r' at hanswer
  cases hanswer with
  | ok value plot => exact hnext _ _ _ _ (h.withSession hsession) value plot
  | error e => exact (h.withSession hsession).report _

theorem Alike.plot (h : Alike shown p p') (request : PlotRequest) (span : Span) :
  Alike shown (p.plot host request span) (p'.plot host request span)
  := by
  unfold Progress.plot
  split
  · exact h.write fun _ => rfl
  · apply h.report

/-- The display form of a value shows only where the value itself is not asked for. -/
theorem delimited_eq {delimiter : Delimiter} (hdelimiter : delimiter = .value)
    {e e' : Evaluation} (h : e.value = e'.value) :
  delimited delimiter e = delimited delimiter e'
  := by
  rw [hdelimiter]
  exact congrArg Value.text h

variable (hevaluator : host.evaluator.DisplaysOnly)

include hevaluator

theorem Alike.math (h : Alike shown p p') {delimiter : Delimiter}
    (hdelimiter : shown → delimiter = .value) (raw : String) (span : Span) :
  Alike shown (p.math host mode delimiter raw span) (p'.math host mode delimiter raw span)
  := by
  unfold Progress.math
  apply h.checked
  apply h.settle (h.session.addAssignment hevaluator _)
  intro q q' e e' hq hvalue hplot
  rw [hplot]
  split
  · apply hq.plot
  · exact hq.write fun hshown => delimited_eq (hdelimiter hshown) hvalue

theorem Alike.bind (h : Alike shown p p') (a : Assignment) :
  Alike shown (p.bind host mode a) (p'.bind host mode a)
  := by
  unfold Progress.bind
  apply h.checked
  apply h.settle (h.session.push hevaluator _ _ _)
  intro q q' e e' hq _ _
  exact hq

theorem Alike.conditional (h : Alike shown p p') {test : String} {span : Span}
    {body : Progress → Progress}
    (hbody : ∀ q q', Alike shown q q' → Alike shown (body q) (body q')) :
  Alike shown (p.conditional host mode test span body) (p'.conditional host mode test span body)
  := by
  unfold Progress.conditional
  apply h.checked
  apply h.settle (h.session.append hevaluator _ _)
  intro q q' e e' hq hvalue _
  dsimp only
  rw [hvalue, hq.session.mark]
  split
  · exact (hbody q q' hq).leave _
  · exact hq
  · apply hq.report

theorem Alike.source (h : Alike shown p p') (a : Assignment) :
  Alike shown (p.source host mode a).1 (p'.source host mode a).1 ∧
    (p.source host mode a).2 = (p'.source host mode a).2
  := by
  have happend := h.session.append hevaluator none (trimmed a.expression)
  have hprogress := h.withSession happend.1
  unfold Progress.source
  dsimp only
  split
  · constructor
    · apply Alike.reportIssues
      apply h.withSession
      apply h.session.appendInvalid
    · rfl
  · generalize (p.session.append host.evaluator none (trimmed a.expression)).2.result = r,
      (p'.session.append host.evaluator none (trimmed a.expression)).2.result = r' at happend
    cases happend.2 with
    | ok value plot =>
      dsimp only
      unfold sourceOf
      rw [value]
      split
      · exact ⟨hprogress, rfl⟩
      · exact ⟨hprogress.report _, rfl⟩
    | error e => exact ⟨hprogress.report _, rfl⟩

theorem Alike.sources (h : Alike shown p p') (binders : List Assignment) :
  Alike shown (p.sources host mode binders).1 (p'.sources host mode binders).1 ∧
    (p.sources host mode binders).2 = (p'.sources host mode binders).2
  := by
  induction binders generalizing p p' with
  | nil => exact ⟨h, rfl⟩
  | cons a binders ih =>
    obtain ⟨hfirst, hfound⟩ : Alike shown (p.source host mode a).1 (p'.source host mode a).1 ∧
        (p.source host mode a).2 = (p'.source host mode a).2 := h.source hevaluator a
    obtain ⟨hothers, hmore⟩ := ih hfirst
    refine ⟨hothers, ?_⟩
    rw [Progress.sources, Progress.sources, hfound, hmore]

theorem Alike.iterate (h : Alike shown p p') {span : Span} {found : List Source}
    {body : Progress → Progress} (hbody : ∀ q q', Alike shown q q' → Alike shown (body q) (body q'))
    (i : Nat) :
  Alike shown (p.iterate host span found body i) (p'.iterate host span found body i)
  := by
  apply hbody
  apply h.foldl
  intro element _ q q' hq
  apply hq.settle (hq.session.append hevaluator _ _)
  intro r r' e e' hr _ _
  exact hr

theorem Alike.unroll (h : Alike shown p p') {span : Span} {found : List Source}
    {body : Progress → Progress}
    (hbody : ∀ q q', Alike shown q q' → Alike shown (body q) (body q')) :
  Alike shown (p.unroll host span found body) (p'.unroll host span found body)
  := by
  unfold Progress.unroll
  dsimp only
  split
  · apply h.report
  · rw [h.session.mark]
    apply Alike.leave
    apply h.foldl
    intro i _ q q' hq
    exact hq.iterate hevaluator hbody i

theorem Alike.foreach (h : Alike shown p p') {binders : List Assignment} {span : Span}
    {body : Progress → Progress}
    (hbody : ∀ q q', Alike shown q q' → Alike shown (body q) (body q')) :
  Alike shown (p.foreach host mode binders span body) (p'.foreach host mode binders span body)
  := by
  obtain ⟨hsources, hfound⟩ :
      Alike shown (p.sources host mode binders).1 (p'.sources host mode binders).1 ∧
        (p.sources host mode binders).2 = (p'.sources host mode binders).2 :=
    h.sources hevaluator binders
  unfold Progress.foreach
  generalize p.sources host mode binders = done, p'.sources host mode binders = done'
    at hsources hfound
  obtain ⟨q, found⟩ := done
  obtain ⟨q', found'⟩ := done'
  cases hfound
  cases found with
  | none => exact hsources
  | some found => exact hsources.unroll hevaluator hbody

omit hevaluator

theorem Alike.factSheet (h : Alike shown p p') (key : String) (span : Span) :
  Alike shown (p.factSheet host key span) (p'.factSheet host key span)
  := by
  unfold Progress.factSheet
  split
  · exact h.write fun _ => rfl
  · apply h.report

end Parts

end Progress

/-! ### Nodes -/

/-- The ways in which the math segments of a node itself are put into the text. -/
def Template.Node.delimiters : Node → List Delimiter
  | .math delimiter _ _ => [delimiter]
  | _ => []

namespace Progress

section Nodes

variable {shown : Prop} {host : Host} {mode : Mode}

mutual

/-- The expansions of a node from progresses that are alike are alike. -/
theorem node_alike (hevaluator : host.evaluator.DisplaysOnly) {p p' : Progress}
    (h : Alike shown p p') (n : Node)
    (hn : shown → ∀ delimiter ∈ n.walk Node.delimiters, delimiter = .value) :
  Alike shown (p.node host mode n) (p'.node host mode n)
  := by
  cases n with
  | text text span => exact h.write fun _ => rfl
  | math delimiter raw span =>
    apply h.math hevaluator
    intro hshown
    exact hn hshown delimiter (List.mem_singleton_self delimiter)
  | conditional test children span =>
    apply h.conditional hevaluator
    intro q q' hq
    exact nodes_alike hevaluator hq children hn
  | define assignments span =>
    apply h.foldl
    intro a _ q q' hq
    exact hq.bind hevaluator a
  | foreach binders children span =>
    apply h.foreach hevaluator
    intro q q' hq
    exact nodes_alike hevaluator hq children hn
  | facts key span => apply h.factSheet
  | error marker => exact h

theorem nodes_alike (hevaluator : host.evaluator.DisplaysOnly) {p p' : Progress}
    (h : Alike shown p p') (ns : List Node)
    (hns : shown → ∀ delimiter ∈ Node.walkAll Node.delimiters ns, delimiter = .value) :
  Alike shown (p.nodes host mode ns) (p'.nodes host mode ns)
  := by
  cases ns with
  | nil => exact h
  | cons n rest =>
    have hboth : shown → (∀ delimiter ∈ n.walk Node.delimiters, delimiter = .value) ∧
        ∀ delimiter ∈ Node.walkAll Node.delimiters rest, delimiter = .value := by
      intro hshown
      rw [← List.forall_mem_append]
      exact hns hshown
    exact nodes_alike hevaluator (node_alike hevaluator h n fun hshown => (hboth hshown).1) rest
      fun hshown => (hboth hshown).2

end

end Nodes

end Progress

/-! ### Whole templates -/

namespace Template

/-- Whether every math segment of a template asks for the value itself. -/
def AsksForValues (t : Template) : Prop :=
  ∀ delimiter ∈ Node.walkAll Node.delimiters t.nodes, delimiter = .value

/-- Expansions of a template from sessions that are the same but for their options and the
display forms of values report the same, and leave sessions that are the same but for these.
If every math segment asks for the value itself, the texts are the same as well. -/
theorem expand_alike (t : Template) (host : Host) {s s' : Session} (h : s.Alike s') :
  let e := t.expand (host.asking Algebra.calculator) s
  let e' := t.expand (host.asking Algebra.calculator) s'
  e.2.isValid = e'.2.isValid ∧ e.2.diagnostics = e'.2.diagnostics ∧ e.1.Alike e'.1 ∧
    (t.AsksForValues → e.2.display = e'.2.display)
  := by
  intro e e'
  have hrest : e.2.diagnostics = e'.2.diagnostics ∧ e.1.Alike e'.1 ∧
      (t.AsksForValues → e.2.display = e'.2.display) := by
    simp only [e, e', expand]
    cases t.fatal with
    | some fault => exact ⟨rfl, h, fun _ => rfl⟩
    | none =>
      have hstart : Progress.Alike t.AsksForValues { session := s } { session := s' } :=
        ⟨h, rfl, fun _ => rfl⟩
      have hnodes : Progress.Alike t.AsksForValues
          (Progress.nodes (host.asking Algebra.calculator) t.mode { session := s } t.nodes)
          (Progress.nodes (host.asking Algebra.calculator) t.mode { session := s' } t.nodes) :=
        Progress.nodes_alike Algebra.calculator_displaysOnly hstart t.nodes id
      dsimp only
      rw [hnodes.diagnostics]
      exact ⟨rfl, hnodes.session, hnodes.output⟩
  refine ⟨?_, hrest⟩
  rw [Expansion.isValid, Expansion.isValid, hrest.1]

/-- A session with a product in it that is displayed with the given sign. -/
def productSession (sign : MultiplicationSign) : Session :=
  (({ options := { multiplicationSign := sign } } : Session).assign Algebra.calculator "x" "2*y").1

/-- A loop over the product, which asks for its value. -/
def productLoop : Template :=
  { source := ""
    mode := .teacher
    nodes := [.foreach [⟨"i", "[x,1/0]", nowhere⟩] [.math .value "i" nowhere] nowhere,
      .conditional "is(2*y=x)" [.math .value "i:x" nowhere] nowhere]
    markers := []
    fatal := none }

/-- The signs of the two products show in neither expansion, and the same error is
reported. -/
theorem expand_alike_two_signs :
  let e := productLoop.expand (refusing.asking Algebra.calculator) (productSession .dot)
  let e' := productLoop.expand (refusing.asking Algebra.calculator) (productSession .cross)
  (productSession .dot).Alike (productSession .cross) ∧
    (productSession .dot).displayOf? "x" ≠ (productSession .cross).displayOf? "x" ∧
    productLoop.AsksForValues ∧
    e.2.isValid = e'.2.isValid ∧ e.2.diagnostics = e'.2.diagnostics ∧ e.1.Alike e'.1 ∧
    e.2.display = e'.2.display
  := by
  have hempty : Session.Alike { options := { multiplicationSign := .dot } }
      { options := { multiplicationSign := .cross } } := ⟨.nil, rfl, rfl⟩
  have halike : (productSession .dot).Alike (productSession .cross) :=
    (hempty.push Algebra.calculator_displaysOnly _ _ _).1
  have hvalues : productLoop.AsksForValues := by
    unfold AsksForValues
    decide
  obtain ⟨hvalid, hdiagnostics, hsessions, hdisplay⟩ :=
    expand_alike productLoop refusing halike
  exact ⟨halike, by decide +kernel, hvalues, hvalid, hdiagnostics, hsessions, hdisplay hvalues⟩

end Template

end MathTemplate
