import MathTemplate.Proofs.Expansion.Keys
import MathTemplate.Proofs.Expansion.Loops
import MathTemplate.Proofs.Text.Sort

/-!
# Nothing goes wrong unreported

What goes wrong in an expansion is noted in two places: an entry of the session without a value
says what is wrong with it, and an error is reported.  No step notes the first without the
second (`Runs.failures_le`), and no step takes an error back, so that there are at least as
many errors in the end as there are failed entries.

An expansion that is valid has reported no error at all.  `Reaches` says which nodes an
expansion comes to, and with which progress.  What a node reports is there in the end
(`Reaches.errors_le`), and a node that reports no error is `Flawless`: every expression it has
evaluated has a value of the kind it needs.
-/

namespace MathTemplate

open Template (Node Assignment)
open Text (Span trimmed)

/-! ### Counting -/

/-- The number of the entries of a session without a value. -/
def Session.failures (s : Session) : Nat := s.log.countP fun b => b.outcome.error?.isSome

theorem Session.failures_restore (s : Session) (m : Mark) :
  (s.restore m).failures = s.failures
  := by
  rw [failures, log_restore, List.countP_append, List.countP_map]
  change List.countP (fun b : Binding => b.outcome.error?.isSome) _ + _ = _
  rw [← List.countP_append, List.take_append_drop]
  rfl

namespace Progress

/-- The number of the errors that have been reported. -/
def errors (p : Progress) : Nat := p.diagnostics.countP Diagnostic.isError

/-- A reported error counts. -/
theorem not_errors_report_le {d : Diagnostic} (h : d.isError = true) (p : Progress) :
  ¬ (p.report d).errors ≤ p.errors
  := by
  have hcount : (p.report d).errors = p.errors + 1 := List.countP_cons_of_pos h
  rw [hcount]
  exact Nat.not_succ_le_self _

namespace Runs

variable {p q : Progress} {keys : List (Option String)}

/-- No step takes an error back. -/
theorem errors_le (h : Runs p keys q) :
  p.errors ≤ q.errors
  := by
  induction h with
  | done => exact Nat.le_refl _
  | write text => exact Nat.le_refl _
  | @report p d =>
    change p.errors ≤ List.countP _ (d :: p.diagnostics)
    rw [List.countP_cons]
    exact Nat.le_add_right _ _
  | @append p key raw expression outcome reported told =>
    change p.errors ≤ List.countP _ (reported ++ p.diagnostics)
    rw [List.countP_append]
    exact Nat.le_add_left _ _
  | trans h h' ih ih' => exact Nat.le_trans ih ih'
  | block h ih => exact ih

/-- For every entry without a value an error is reported. -/
theorem failures_le (h : Runs p keys q) :
  q.session.failures + p.errors ≤ p.session.failures + q.errors
  := by
  induction h with
  | done => exact Nat.le_refl _
  | write text => exact Nat.le_refl _
  | @report p d => exact Nat.add_le_add_left (Runs.report d).errors_le _
  | @append p key raw expression outcome reported told =>
    change List.countP _ (_ :: p.session.log) + p.errors ≤
      p.session.failures + List.countP _ (reported ++ p.diagnostics)
    rw [List.countP_cons, List.countP_append]
    have hreported : (if outcome.error?.isSome = true then 1 else 0) ≤
        reported.countP Diagnostic.isError := by
      split
      · rename_i herror
        exact List.countP_pos_iff.mpr (told herror)
      · exact Nat.zero_le _
    change p.session.failures + (if outcome.error?.isSome = true then 1 else 0) + p.errors ≤
      p.session.failures + (reported.countP Diagnostic.isError + p.errors)
    omega
  | trans h h' ih ih' => omega
  | block h ih =>
    change (Session.restore _ _).failures + _ ≤ _
    rw [Session.failures_restore]
    exact ih

end Runs

theorem Leads.errors_le {p q : Progress} (h : Leads p q) :
  p.errors ≤ q.errors
  := by
  obtain ⟨keys, hkeys⟩ := h
  exact hkeys.errors_le

/-! ### Runs that report no error -/

section Quiet

variable {host : Host} {mode : Mode} {p : Progress}

/-- If a row of steps reports no error, none of them does. -/
theorem foldl_quiet {α : Type} {step : Progress → α → Progress} {as : List α}
    (hstep : ∀ a q, Leads q (step q a)) (h : (as.foldl step p).errors ≤ p.errors) :
  ∀ before a after, as = before ++ a :: after →
    (step (before.foldl step p) a).errors ≤ (before.foldl step p).errors
  := by
  rintro before a after rfl
  have hleads : ∀ (as : List α) (q : Progress), Leads q (as.foldl step q) :=
    fun as q => Leads.foldl fun a _ q => hstep a q
  have hbefore := (hleads before p).errors_le
  rw [List.foldl_append, List.foldl_cons] at h
  have hafter := (hleads after (step (before.foldl step p) a)).errors_le
  omega

theorem errors_rejected (key : Option String) (raw : String) (span : Span) (first : Check.Issue)
    (more : List Check.Issue) :
  p.errors <
    (reportIssues { p with session := (p.session.appendInvalid key raw first.message).1 } span
      (first :: more)).errors
  := by
  rw [reportIssues_eq]
  change p.errors < List.countP _ (_ ++ p.diagnostics)
  rw [List.countP_append]
  have hpos : 0 < ((first :: more).map (issueDiagnostic span)).reverse.countP Diagnostic.isError := by
    rw [List.countP_pos_iff]
    refine ⟨issueDiagnostic span first, ?_, isError_issueDiagnostic span first⟩
    rw [List.mem_reverse]
    apply List.mem_cons_self
  change p.errors < _ + p.errors
  omega

theorem checked_quiet {key name : Option String} {raw expression : String} {span : Span}
    {next : Progress → Progress}
    (h : (p.checked host mode key name raw expression span next).errors ≤ p.errors) :
  Check.issues mode host.forbiddenWords name expression = [] ∧ (next p).errors ≤ p.errors
  := by
  unfold checked at h
  split at h
  · rename_i haccepted
    exact ⟨haccepted, h⟩
  · exact absurd (errors_rejected key raw span _ _) (Nat.not_lt.mpr h)

theorem settle_quiet {done : Session × Appended} {text : String} {span : Span}
    {next : Progress → Evaluation → Progress}
    (h : (p.settle done text span next).errors ≤ p.errors) :
  ∃ answer, done.2.result = .ok answer ∧
    (next { p with session := done.1 } answer).errors ≤ p.errors
  := by
  unfold settle at h
  split at h
  · rename_i answer hanswer
    exact ⟨answer, hanswer, h⟩
  · rename_i e _
    exact absurd h (not_errors_report_le (isError_evalDiagnostic text span e) _)

theorem math_quiet {delimiter : Delimiter} {raw : String} {span : Span}
    (h : (p.math host mode delimiter raw span).errors ≤ p.errors) :
  ∃ answer, (p.session.addAssignment host.evaluator (trimmed raw)).2.result = .ok answer
  := by
  unfold math at h
  obtain ⟨answer, hanswer, -⟩ := settle_quiet (checked_quiet h).2
  exact ⟨answer, hanswer⟩

theorem bind_quiet {a : Assignment} (h : (p.bind host mode a).errors ≤ p.errors) :
  ∃ answer, (p.session.assign host.evaluator a.name (trimmed a.expression)).2.result = .ok answer
  := by
  unfold bind at h
  obtain ⟨answer, hanswer, -⟩ := settle_quiet (checked_quiet h).2
  exact ⟨answer, hanswer⟩

theorem conditional_quiet {test : String} {span : Span} {body : Progress → Progress}
    (h : (p.conditional host mode test span body).errors ≤ p.errors) :
  ∃ answer holds, (p.session.append host.evaluator none (trimmed test)).2.result = .ok answer ∧
    answer.value.truth? = some holds
  := by
  unfold conditional at h
  obtain ⟨answer, hanswer, hnext⟩ := settle_quiet (checked_quiet h).2
  refine ⟨answer, ?_⟩
  cases htruth : answer.value.truth? with
  | some holds => exact ⟨holds, hanswer, rfl⟩
  | none =>
    rw [htruth] at hnext
    dsimp only at hnext
    exact absurd hnext (not_errors_report_le (isError_error _ _ _) _)

theorem source_quiet {a : Assignment} (h : (p.source host mode a).1.errors ≤ p.errors) :
  ∃ s, (p.source host mode a).2 = some s
  := by
  rw [source_fst] at h
  obtain ⟨haccepted, h⟩ := checked_quiet h
  obtain ⟨answer, hanswer, hnext⟩ := settle_quiet h
  simp only [source, haccepted, hanswer]
  unfold sourceOf at hnext ⊢
  split
  · exact ⟨_, rfl⟩
  · rename_i hnone
    rw [hnone] at hnext
    dsimp only at hnext
    exact absurd hnext (not_errors_report_le (isError_error _ _ _) _)

theorem sources_quiet {binders : List Assignment}
    (h : (p.sources host mode binders).1.errors ≤ p.errors) :
  ∃ found, (p.sources host mode binders).2 = some found
  := by
  induction binders generalizing p with
  | nil => exact ⟨[], rfl⟩
  | cons a binders ih =>
    change ((p.source host mode a).1.sources host mode binders).1.errors ≤ p.errors at h
    have hfirst : p.errors ≤ (p.source host mode a).1.errors := (source_runs a).errors_le
    have hothers : (p.source host mode a).1.errors ≤
        ((p.source host mode a).1.sources host mode binders).1.errors :=
      (sources_runs binders).errors_le
    obtain ⟨s, hs⟩ : ∃ s, (p.source host mode a).2 = some s := source_quiet (by omega)
    obtain ⟨found, hfound⟩ : ∃ found, ((p.source host mode a).1.sources host mode binders).2 =
        some found := ih (by omega)
    use s :: found
    simp only [sources, hs, hfound]
    rfl

theorem bindElement_quiet {span : Span} {element : String × Value}
    (h : (p.bindElement host span element).errors ≤ p.errors) :
  ∃ answer, (p.session.append host.evaluator (some element.1) element.2.text).2.result =
    .ok answer
  := by
  unfold bindElement at h
  obtain ⟨answer, hanswer, -⟩ := settle_quiet h
  exact ⟨answer, hanswer⟩

theorem unroll_quiet {span : Span} {found : List Source} {body : Progress → Progress}
    (hbody : ∀ q, Leads q (body q)) (h : (p.unroll host span found body).errors ≤ p.errors) :
  Aligned found ∧ ElementsBound host span found body p
  := by
  by_cases haligned : Aligned found
  · refine ⟨haligned, ?_⟩
    rw [unroll_of_aligned host span found body haligned] at h
    intro i hi before element after helements
    have hround : p.errors ≤ (p.roundStart host span found body i).errors :=
      (roundStart_leads hbody p (Nat.zero_le i)).errors_le
    have hrest : (p.roundStart host span found body (i + 1)).errors ≤ p.errors :=
      Nat.le_trans (roundStart_leads hbody p hi).errors_le h
    rw [roundStart_succ] at hrest
    have hinner := (hbody (p.bodyStart host span found body i)).errors_le
    have hbegin : (p.bodyStart host span found body i).errors ≤
        (p.roundStart host span found body i).errors := by
      omega
    apply bindElement_quiet
    exact foldl_quiet (fun element q => ⟨_, bindElement_runs span element⟩) hbegin before element
      after helements
  · have hmismatch : (lengthMismatch found span).isError = true := rfl
    rw [unroll_of_not_aligned host span found body haligned] at h
    exact absurd h (not_errors_report_le hmismatch p)

/-- A loop reports what its sources report. -/
theorem sources_errors_le_foreach {binders : List Assignment} {span : Span}
    {body : Progress → Progress} (hbody : ∀ q, Leads q (body q)) :
  (p.sources host mode binders).1.errors ≤ (p.foreach host mode binders span body).errors
  := by
  unfold foreach
  split
  · rename_i q found hfound
    rw [hfound]
    exact (unroll_runs hbody).errors_le
  · rename_i q hnone
    rw [hnone]

theorem factSheet_quiet {key : String} {span : Span}
    (h : (p.factSheet host key span).errors ≤ p.errors) :
  ∃ sheet, host.facts key = some sheet
  := by
  unfold factSheet at h
  split at h
  · rename_i sheet hsheet
    exact ⟨sheet, hsheet⟩
  · exact absurd h (not_errors_report_le (isError_error _ _ _) _)

end Quiet

/-! ### Nodes -/

/-- Whatever the expansion of a node from the progress `p` on asks the evaluator has an answer,
and the answer is of the kind the node needs: a truth value for the test of a condition, a list
or a set for each source of a loop, all of one length, and a sheet for a reference to one. -/
def Flawless (host : Host) (mode : Mode) (p : Progress) : Node → Prop
  | .text .. => True
  | .math _ raw _ =>
    ∃ answer, (p.session.addAssignment host.evaluator (trimmed raw)).2.result = .ok answer
  | .conditional test _ _ =>
    ∃ answer holds, (p.session.append host.evaluator none (trimmed test)).2.result = .ok answer ∧
      answer.value.truth? = some holds
  | .define assignments _ =>
    ∀ before a after, assignments = before ++ a :: after →
      ∃ answer, ((before.foldl (bind host mode) p).session.assign host.evaluator a.name
        (trimmed a.expression)).2.result = .ok answer
  | .foreach binders children span =>
    (∀ before a after, binders = before ++ a :: after →
      ∃ answer items, HasElements host mode (p.sources host mode before).1 a answer items) ∧
    ∃ found, Unrolls host mode p binders children span found
  | .facts key _ => ∃ sheet, host.facts key = some sheet
  | .error _ => True

theorem nodes_leads (host : Host) (mode : Mode) (p : Progress) (ns : List Node) :
  Leads p (p.nodes host mode ns)
  := ⟨_, nodes_runs host mode p ns⟩

theorem foreach_quiet {host : Host} {mode : Mode} {p : Progress} {binders : List Assignment}
    {children : List Node} {span : Span}
    (h : (p.foreach host mode binders span fun q => nodes host mode q children).errors ≤
      p.errors) :
  Flawless host mode p (.foreach binders children span)
  := by
  have hbody : ∀ q, Leads q (nodes host mode q children) :=
    fun q => nodes_leads host mode q children
  have hsources : p.errors ≤ (p.sources host mode binders).1.errors :=
    (sources_runs binders).errors_le
  obtain ⟨found, hfound⟩ : ∃ found, (p.sources host mode binders).2 = some found := by
    apply sources_quiet
    exact Nat.le_trans (sources_errors_le_foreach hbody) h
  rw [foreach_of_found hfound] at h
  obtain ⟨haligned, hbound⟩ := unroll_quiet hbody (Nat.le_trans h hsources)
  refine ⟨?_, found, ⟨hfound, haligned, hbound⟩⟩
  intro before a after heq
  obtain ⟨s, answer, -, -, helements⟩ := (sources_snd_eq_some hfound).2 before a after heq
  exact ⟨answer, s.items, helements⟩

/-- A node whose expansion reports no error is flawless. -/
theorem flawless_of_quiet {host : Host} {mode : Mode} {p : Progress} {n : Node}
    (h : (p.node host mode n).errors ≤ p.errors) :
  Flawless host mode p n
  := by
  cases n with
  | text text span => trivial
  | math delimiter raw span => exact math_quiet h
  | conditional test children span => exact conditional_quiet h
  | define assignments span =>
    intro before a after heq
    apply bind_quiet
    exact foldl_quiet (fun a q => ⟨_, bind_runs a⟩) h before a after heq
  | foreach binders children span => exact foreach_quiet h
  | facts key span => exact factSheet_quiet h
  | error marker => trivial

/-! ### Where an expansion comes to -/

/-- The expansion of some nodes from the progress `p` on comes to the node `n` with the progress
`q`: past the nodes in front of it, into the body of a condition that holds, or into a round of
a loop. -/
inductive Reaches (host : Host) (mode : Mode) : Progress → List Node → Progress → Node → Prop
  | here {p : Progress} {n : Node} {rest : List Node} : Reaches host mode p (n :: rest) p n
  | behind {p q : Progress} {m n : Node} {rest : List Node}
      (h : Reaches host mode (p.node host mode m) rest q n) :
      Reaches host mode p (m :: rest) q n
  | inConditional {p q : Progress} {test : String} {children rest : List Node} {span : Span}
      {answer : Evaluation} {n : Node}
      (accepted : Check.issues mode host.forbiddenWords none (trimmed test) = [])
      (answered : (p.session.append host.evaluator none (trimmed test)).2.result = .ok answer)
      (holds : answer.value.truth? = some true)
      (h : Reaches host mode
        { p with session := (p.session.append host.evaluator none (trimmed test)).1 } children
        q n) :
      Reaches host mode p (.conditional test children span :: rest) q n
  | inLoop {p q : Progress} {binders : List Assignment} {children rest : List Node} {span : Span}
      {found : List Source} {i : Nat} {n : Node}
      (found_eq : (p.sources host mode binders).2 = some found) (aligned : Aligned found)
      (round : i < rounds found)
      (h : Reaches host mode
        ((p.sources host mode binders).1.bodyStart host span found
          (fun q => nodes host mode q children) i) children q n) :
      Reaches host mode p (.foreach binders children span :: rest) q n

section Reaches

variable {host : Host} {mode : Mode} {p q : Progress} {n : Node}

theorem errors_le_behind (m : Node) (rest : List Node) :
  p.errors ≤ (p.node host mode m).errors ∧
    (p.node host mode m).errors ≤ (p.nodes host mode (m :: rest)).errors
  := ⟨(node_runs host mode p m).errors_le, (nodes_runs host mode _ rest).errors_le⟩

/-- A condition that holds reports what its body reports. -/
theorem errors_conditional_of_holds {test : String} {span : Span} {answer : Evaluation}
    {body : Progress → Progress}
    (accepted : Check.issues mode host.forbiddenWords none (trimmed test) = [])
    (answered : (p.session.append host.evaluator none (trimmed test)).2.result = .ok answer)
    (holds : answer.value.truth? = some true) :
  (p.conditional host mode test span body).errors =
    (body { p with
      session := (p.session.append host.evaluator none (trimmed test)).1 }).errors
  := by
  simp only [conditional, checked, settle, accepted, answered, holds]
  rfl

/-- A loop reports what the body reports in each round. -/
theorem errors_round_le_foreach {binders : List Assignment} (span : Span) {found : List Source}
    {body : Progress → Progress} {i : Nat} (hbody : ∀ q, Leads q (body q))
    (hfound : (p.sources host mode binders).2 = some found) (haligned : Aligned found)
    (hi : i < rounds found) :
  p.errors ≤ ((p.sources host mode binders).1.bodyStart host span found body i).errors ∧
    (body ((p.sources host mode binders).1.bodyStart host span found body i)).errors ≤
      (p.foreach host mode binders span body).errors
  := by
  have hsources : p.errors ≤ (p.sources host mode binders).1.errors :=
    (sources_runs binders).errors_le
  rw [foreach_of_found hfound, unroll_of_aligned host span found body haligned,
    ← roundStart_succ host span found body]
  generalize (p.sources host mode binders).1 = r at hsources
  have hround : r.errors ≤ (r.roundStart host span found body i).errors :=
    (roundStart_leads hbody r (Nat.zero_le i)).errors_le
  have hbinds : (r.roundStart host span found body i).errors ≤
      (r.bodyStart host span found body i).errors := by
    apply Leads.errors_le
    apply Leads.foldl
    intro element _ q
    exact ⟨_, bindElement_runs span element⟩
  exact ⟨Nat.le_trans hsources (Nat.le_trans hround hbinds),
    (roundStart_leads hbody r hi).errors_le⟩

/-- What has been reported in front of a node an expansion comes to, and what the node
reports, is there in the end. -/
theorem Reaches.errors_le {ns : List Node} (h : Reaches host mode p ns q n) :
  p.errors ≤ q.errors ∧ (q.node host mode n).errors ≤ (p.nodes host mode ns).errors
  := by
  induction h with
  | here => exact ⟨Nat.le_refl _, (errors_le_behind _ _).2⟩
  | behind h ih => exact ⟨Nat.le_trans (errors_le_behind _ []).1 ih.1, ih.2⟩
  | @inConditional p q test children rest span answer n accepted answered holds h ih =>
    refine ⟨ih.1, Nat.le_trans ih.2 ?_⟩
    apply Nat.le_trans _ (errors_le_behind (.conditional test children span) rest).2
    have hbody : (p.node host mode (.conditional test children span)).errors =
        (nodes host mode { p with
          session := (p.session.append host.evaluator none (trimmed test)).1 } children).errors :=
      errors_conditional_of_holds accepted answered holds
    exact Nat.le_of_eq hbody.symm
  | @inLoop p q binders children rest span found i n found_eq aligned round h ih =>
    obtain ⟨hstart, hround⟩ := errors_round_le_foreach span
      (fun q => nodes_leads host mode q children) found_eq aligned round
    refine ⟨Nat.le_trans hstart ih.1, Nat.le_trans ih.2 ?_⟩
    exact Nat.le_trans hround (errors_le_behind (.foreach binders children span) rest).2

end Reaches

end Progress

/-! ### Whole templates -/

theorem eq_ok_of_toOption {ε α : Type} {r : Except ε α} {a : α} (h : r.toOption = some a) :
  r = .ok a
  := by
  cases r with
  | error e => cases h
  | ok b =>
    cases h
    rfl

namespace Template

theorem isError_diagnostic (m : Marker) :
  m.diagnostic.isError = true
  := rfl

theorem countP_diagnostics (t : Template) :
  t.diagnostics.countP Diagnostic.isError = t.diagnostics.length
  := by
  rw [List.countP_eq_length]
  intro d hd
  obtain ⟨m, -, rfl⟩ := List.mem_map.mp hd
  apply isError_diagnostic

theorem countP_inSourceOrder (ds : List Diagnostic) :
  (Diagnostic.inSourceOrder ds).countP Diagnostic.isError = ds.countP Diagnostic.isError
  := (Text.sorted_perm _ ds).countP_eq _

/-- The errors of an expansion are those of the markup and those of the expressions. -/
theorem errors_expand {t : Template} (h : t.fatal = none) (host : Host) (session : Session) :
  (t.expand host session).2.errors.length = t.diagnostics.length +
    (Progress.nodes host t.mode { session := session } t.nodes).errors
  := by
  rw [expand, h, Expansion.errors, ← List.countP_eq_length_filter, countP_inSourceOrder,
    List.countP_append, countP_diagnostics, countP_inSourceOrder, List.countP_reverse]
  rfl

/-- What is wrong with the markup is among the errors. -/
theorem length_diagnostics_le_errors (t : Template) (host : Host) (session : Session) :
  t.diagnostics.length ≤ (t.expand host session).2.errors.length
  := by
  cases hfatal : t.fatal with
  | some fault =>
    rw [expand, hfatal, Expansion.errors, ← List.countP_eq_length_filter, countP_diagnostics]
  | none =>
    rw [errors_expand hfatal]
    exact Nat.le_add_right _ _

/-- The bindings an expansion adds have failed as often, at most, as it reports errors. -/
theorem countP_failed_le_errors (t : Template) (host : Host) (session : Session) :
  ((t.expand host session).1.bindings.drop session.length).countP
      (fun b => b.outcome.error?.isSome) ≤ (t.expand host session).2.errors.length
  := by
  obtain ⟨added, hadded⟩ := t.expand_log_suffix host session
  have hdrop : (t.expand host session).1.bindings.drop session.length = added.reverse := by
    rw [Session.bindings, hadded, List.reverse_append, Session.length, ← List.length_reverse,
      List.drop_left]
  rw [hdrop, List.countP_reverse]
  cases hfatal : t.fatal with
  | some fault =>
    have hnone : added = [] := by
      rw [expand, hfatal] at hadded
      exact List.self_eq_append_left.mp hadded
    rw [hnone]
    exact Nat.zero_le _
  | none =>
    have hruns := (Progress.nodes_runs host t.mode { session := session } t.nodes).failures_le
    rw [← expand_of_not_fatal hfatal, Session.failures, hadded, List.countP_append] at hruns
    rw [errors_expand hfatal]
    change _ + session.failures + 0 ≤ session.failures + _ at hruns
    omega

/-- An expansion has as many failed bindings, at most, as it reports errors.  If it is valid,
none has failed, nothing is wrong with the markup, and every node it comes to is flawless. -/
theorem expand_fails_closed (t : Template) (host : Host) (session : Session) :
  ((t.expand host session).1.bindings.drop session.length).countP
      (fun b => b.outcome.error?.isSome) ≤ (t.expand host session).2.errors.length ∧
    ((t.expand host session).2.isValid = true →
      (∀ b ∈ (t.expand host session).1.bindings.drop session.length, b.outcome.error? = none) ∧
      t.diagnostics = [] ∧
      (t.fatal = none → ∀ q n,
        Progress.Reaches host t.mode { session := session } t.nodes q n →
          Progress.Flawless host t.mode q n))
  := by
  refine ⟨countP_failed_le_errors t host session, ?_⟩
  intro hvalid
  have hquiet : (t.expand host session).2.errors = [] := by
    rw [Expansion.errors, List.filter_eq_nil_iff]
    simpa [Expansion.isValid, Diagnostic.hasErrors] using hvalid
  refine ⟨?_, ?_, ?_⟩
  · intro b hb
    have hcount := countP_failed_le_errors t host session
    rw [hquiet, List.length_nil, Nat.le_zero, List.countP_eq_zero] at hcount
    simpa using hcount b hb
  · have hmarkers := length_diagnostics_le_errors t host session
    rw [hquiet, List.length_nil, Nat.le_zero, List.length_eq_zero_iff] at hmarkers
    exact hmarkers
  · intro hfatal q n hreaches
    have hcount := errors_expand hfatal host session
    rw [hquiet, List.length_nil] at hcount
    have hlater := hreaches.errors_le.2
    apply Progress.flawless_of_quiet
    omega

/-- A name that is bound, and a condition about it with a math segment inside it. -/
def boundAndTested : Template :=
  { source := ""
    mode := .student
    nodes := [.define [⟨"x", "3", nowhere⟩] nowhere,
      .conditional "is(x>2)" [.math .value "x+1" nowhere] nowhere]
    markers := []
    fatal := none }

/-- The valid expansion of a condition that holds comes to the segment inside it, and the
segment has a value. -/
theorem expand_fails_closed_condition :
  (boundAndTested.expand { evaluator := Algebra.calculator } {}).2.isValid = true ∧
    ∃ q, Progress.Reaches { evaluator := Algebra.calculator } .student { session := {} }
        boundAndTested.nodes q (.math .value "x+1" nowhere) ∧
      Progress.Flawless { evaluator := Algebra.calculator } .student q
        (.math .value "x+1" nowhere)
  := by
  have hvalid : (boundAndTested.expand { evaluator := Algebra.calculator } {}).2.isValid =
      true := by
    decide +kernel
  have haccepted : Check.issues .student [] none (trimmed "is(x>2)") = [] := by
    decide +kernel
  have htruth : (((({ session := {} } : Progress).node { evaluator := Algebra.calculator } .student
      (.define [⟨"x", "3", nowhere⟩] nowhere)).session.append Algebra.calculator none
        (trimmed "is(x>2)")).2.result.toOption.bind fun e => e.value.truth?) = some true := by
    decide +kernel
  obtain ⟨q, hreaches⟩ : ∃ q, Progress.Reaches { evaluator := Algebra.calculator } .student
      { session := {} } boundAndTested.nodes q (.math .value "x+1" nowhere) := by
    obtain ⟨answer, hanswer, hholds⟩ := Option.bind_eq_some_iff.mp htruth
    have hok := eq_ok_of_toOption hanswer
    exact ⟨_, .behind (.inConditional haccepted hok hholds .here)⟩
  obtain ⟨-, -, hflawless⟩ := (expand_fails_closed boundAndTested _ {}).2 hvalid
  exact ⟨hvalid, q, hreaches, hflawless rfl q _ hreaches⟩

end Template

end MathTemplate
