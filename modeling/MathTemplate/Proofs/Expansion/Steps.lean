import MathTemplate.Proofs.Expansion.Gate

/-!
# The steps of an expansion

Whatever the nodes of a template are, their expansion is made of steps of few kinds: a text is
put out, something is reported, an entry is appended to the session, with an error reported if
it has no value, and a block is left.  `Runs p keys q` says that such steps lead from the
progress `p` to `q`, and which keys they ask for outside the blocks that are left.

The expansion of a node runs so (`node_runs`), and asks for keys that do not depend on what is
inside it (`Node.ownKeys`).  What holds of every step holds of every expansion; so no entry of
the session an expansion begins with is touched (`Runs.log_suffix`).
-/

namespace MathTemplate

open Template (Node Assignment)
open Text (Span trimmed)

/-- The keys a node asks for outside the blocks inside it; `none` stands for a generated
key. -/
def Template.Node.ownKeys : Node → List (Option String)
  | .math _ raw _ => [(Check.splitAssignment (trimmed raw)).1]
  | .conditional .. => [none]
  | .define assignments _ => assignments.map fun a => some a.name
  | .foreach binders _ _ => binders.map fun _ => none
  | _ => []

namespace Progress

/-! ### Steps -/

/-- An entry is appended under a key, and what is wrong with it is reported. -/
def appended (p : Progress) (key : Option String) (raw expression : String) (outcome : Outcome)
    (reported : List Diagnostic) : Progress :=
  { p with
    session :=
      (p.session.asked key).record ⟨p.session.keyOr key, raw, expression, outcome, false⟩
    diagnostics := reported ++ p.diagnostics }

/-- A block is left. -/
def leave (p : Progress) (m : Mark) : Progress := { p with session := p.session.restore m }

/-- Steps that lead from one progress to another, with the keys they ask for outside the
blocks that are left. -/
inductive Runs : Progress → List (Option String) → Progress → Prop
  | done {p : Progress} : Runs p [] p
  | write {p : Progress} (text : String) : Runs p [] (p.write text)
  | report {p : Progress} (d : Diagnostic) : Runs p [] (p.report d)
  | append {p : Progress} (key : Option String) (raw expression : String) (outcome : Outcome)
      (reported : List Diagnostic)
      (told : outcome.error?.isSome = true → ∃ d ∈ reported, d.isError = true) :
      Runs p [key] (p.appended key raw expression outcome reported)
  | trans {p q r : Progress} {keys more : List (Option String)} (h : Runs p keys q)
      (h' : Runs q more r) : Runs p (keys ++ more) r
  | block {p q : Progress} {keys : List (Option String)} (h : Runs p keys q) :
      Runs p [] (q.leave p.session.mark)

/-- A progress from which some steps lead to another. -/
def Leads (p q : Progress) : Prop := ∃ keys, Runs p keys q

namespace Leads

variable {p q r : Progress}

theorem trans (h : Leads p q) (h' : Leads q r) :
  Leads p r
  := by
  obtain ⟨keys, hkeys⟩ := h
  obtain ⟨more, hmore⟩ := h'
  exact ⟨keys ++ more, hkeys.trans hmore⟩

theorem foldl {α : Type} {step : Progress → α → Progress} {as : List α}
    (h : ∀ a ∈ as, ∀ q, Leads q (step q a)) :
  Leads p (as.foldl step p)
  := by
  induction as generalizing p with
  | nil => exact ⟨[], .done⟩
  | cons a as ih =>
    obtain ⟨ha, has⟩ := List.forall_mem_cons.mp h
    exact (ha p).trans (ih has)

end Leads

/-! ### The parts of an expansion -/

theorem reportIssues_eq (p : Progress) (span : Span) (issues : List Check.Issue) :
  p.reportIssues span issues =
    { p with diagnostics := (issues.map (issueDiagnostic span)).reverse ++ p.diagnostics }
  := by
  unfold reportIssues
  induction issues generalizing p with
  | nil => rfl
  | cons issue issues ih =>
    rw [List.foldl_cons, ih, List.map_cons, List.reverse_cons, List.append_assoc]
    rfl

/-- A diagnostic about a kind of problem is an error. -/
theorem isError_error (kind : ProblemKind) (problem : String) (span : Span) :
  (kind.error problem span).isError = true
  := rfl

theorem isError_issueDiagnostic (span : Span) (issue : Check.Issue) :
  (issueDiagnostic span issue).isError = true
  := rfl

theorem isError_evalDiagnostic (expression : String) (span : Span) (e : EvalError) :
  (evalDiagnostic expression span e).isError = true
  := by
  cases e with
  | malformed message suggestion => rfl
  | failed message => rfl

section Parts

variable {host : Host} {mode : Mode} {p : Progress}

/-- A rejected expression leaves an entry, and each of its issues is reported. -/
theorem rejected_runs (key : Option String) (raw : String) (span : Span) (first : Check.Issue)
    (more : List Check.Issue) :
  Runs p [key]
    (reportIssues { p with session := (p.session.appendInvalid key raw first.message).1 } span
      (first :: more))
  := by
  rw [reportIssues_eq]
  apply Runs.append
  intro _
  refine ⟨issueDiagnostic span first, ?_, isError_issueDiagnostic span first⟩
  rw [List.mem_reverse]
  apply List.mem_cons_self

theorem checked_runs {key name : Option String} {raw expression : String} {span : Span}
    {next : Progress → Progress} (h : Runs p [key] (next p)) :
  Runs p [key] (p.checked host mode key name raw expression span next)
  := by
  unfold checked
  split
  · exact h
  · apply rejected_runs

theorem settle_runs {key : Option String} {raw expression text : String} {span : Span}
    {next : Progress → Evaluation → Progress} (h : ∀ q answer, Runs q [] (next q answer)) :
  Runs p [key]
    (p.settle ((p.session.asked key).push host.evaluator (p.session.keyOr key) raw expression)
      text span next)
  := by
  unfold settle Session.push
  dsimp only
  split
  · rename_i answer hanswer
    rw [hanswer]
    apply Runs.trans (Runs.append key raw expression _ [] _) (h _ answer)
    intro herror
    cases herror
  · rename_i e hanswer
    rw [hanswer]
    apply Runs.append key raw expression _ [evalDiagnostic text span e]
    intro _
    exact ⟨_, List.mem_singleton_self _, isError_evalDiagnostic text span e⟩

theorem plot_runs (request : PlotRequest) (span : Span) :
  Runs p [] (p.plot host request span)
  := by
  unfold plot
  split
  · apply Runs.write
  · apply Runs.report

theorem math_runs (delimiter : Delimiter) (raw : String) (span : Span) :
  Runs p [(Check.splitAssignment (trimmed raw)).1] (p.math host mode delimiter raw span)
  := by
  unfold math
  apply checked_runs
  obtain ⟨written, hpush⟩ := p.session.addAssignment_eq_push (trimmed raw)
  rw [hpush]
  apply settle_runs
  intro q answer
  split
  · apply plot_runs
  · apply Runs.write

theorem bind_runs (a : Assignment) :
  Runs p [some a.name] (p.bind host mode a)
  := by
  unfold bind
  apply checked_runs
  apply settle_runs
  intro q answer
  exact .done

theorem binds_runs (assignments : List Assignment) :
  Runs p (assignments.map fun a => some a.name) (assignments.foldl (bind host mode) p)
  := by
  induction assignments generalizing p with
  | nil => exact .done
  | cons a assignments ih => exact (bind_runs a).trans ih

theorem conditional_runs {test : String} {span : Span} {body : Progress → Progress}
    (hbody : ∀ q, Leads q (body q)) :
  Runs p [none] (p.conditional host mode test span body)
  := by
  unfold conditional
  apply checked_runs
  apply settle_runs
  intro q answer
  split
  · obtain ⟨keys, hkeys⟩ := hbody q
    exact .block hkeys
  · exact .done
  · apply Runs.report

/-- The search for a source is a check, an evaluation and a look at its value. -/
theorem source_fst (a : Assignment) :
  (p.source host mode a).1 =
    p.checked host mode none (some a.name) (trimmed a.expression) (trimmed a.expression) a.span
      fun q => q.settle (q.session.append host.evaluator none (trimmed a.expression))
        (trimmed a.expression) a.span
        fun q answer => (q.sourceOf a (trimmed a.expression) answer).1
  := by
  unfold source checked settle
  dsimp only
  cases Check.issues mode host.forbiddenWords (some a.name) (trimmed a.expression) with
  | cons first more => rfl
  | nil =>
    dsimp only
    cases (p.session.append host.evaluator none (trimmed a.expression)).2.result with
    | ok answer => rfl
    | error e => rfl

theorem source_runs (a : Assignment) :
  Runs p [none] (p.source host mode a).1
  := by
  rw [source_fst]
  apply checked_runs
  apply settle_runs
  intro q answer
  unfold sourceOf
  split
  · exact .done
  · apply Runs.report

theorem sources_runs (binders : List Assignment) :
  Runs p (binders.map fun _ => none) (p.sources host mode binders).1
  := by
  induction binders generalizing p with
  | nil => exact .done
  | cons a binders ih => exact (source_runs a).trans ih

theorem bindElement_runs (span : Span) (element : String × Value) :
  Runs p [some element.1] (p.bindElement host span element)
  := by
  unfold bindElement
  apply settle_runs
  intro q answer
  exact .done

theorem iterate_leads {span : Span} {found : List Source} {body : Progress → Progress}
    (hbody : ∀ q, Leads q (body q)) (i : Nat) :
  Leads p (p.iterate host span found body i)
  := by
  unfold iterate
  apply Leads.trans _ (hbody _)
  apply Leads.foldl
  intro element _ q
  exact ⟨_, bindElement_runs span element⟩

theorem unroll_runs {span : Span} {found : List Source} {body : Progress → Progress}
    (hbody : ∀ q, Leads q (body q)) :
  Runs p [] (p.unroll host span found body)
  := by
  unfold unroll
  dsimp only
  split
  · apply Runs.report
  · obtain ⟨keys, hkeys⟩ : Leads p ((List.range _).foldl (iterate host span found body) p) :=
      Leads.foldl fun i _ q => iterate_leads hbody i
    exact .block hkeys

theorem foreach_runs {binders : List Assignment} {span : Span} {body : Progress → Progress}
    (hbody : ∀ q, Leads q (body q)) :
  Runs p (binders.map fun _ => none) (p.foreach host mode binders span body)
  := by
  have hsources : Runs p (binders.map fun _ => none) (p.sources host mode binders).1 :=
    sources_runs binders
  unfold foreach
  split
  · rename_i q found hfound
    rw [hfound] at hsources
    have hunroll : Runs q [] (q.unroll host span found body) := unroll_runs hbody
    have hruns := hsources.trans hunroll
    rwa [List.append_nil] at hruns
  · rename_i q hnone
    rw [hnone] at hsources
    exact hsources

theorem factSheet_runs (key : String) (span : Span) :
  Runs p [] (p.factSheet host key span)
  := by
  unfold factSheet
  split
  · apply Runs.write
  · apply Runs.report

end Parts

/-! ### Nodes -/

mutual

/-- The expansion of a node runs, and asks for the keys of the node. -/
theorem node_runs (host : Host) (mode : Mode) (p : Progress) (n : Node) :
  Runs p n.ownKeys (p.node host mode n)
  := by
  cases n with
  | text text span => apply Runs.write
  | math delimiter raw span => apply math_runs
  | conditional test children span =>
    apply conditional_runs
    intro q
    exact ⟨_, nodes_runs host mode q children⟩
  | define assignments span => apply binds_runs
  | foreach binders children span =>
    apply foreach_runs
    intro q
    exact ⟨_, nodes_runs host mode q children⟩
  | facts key span => apply factSheet_runs
  | error marker => exact .done

theorem nodes_runs (host : Host) (mode : Mode) (p : Progress) (ns : List Node) :
  Runs p (ns.flatMap Node.ownKeys) (p.nodes host mode ns)
  := by
  cases ns with
  | nil => exact .done
  | cons n rest =>
    exact (node_runs host mode p n).trans (nodes_runs host mode _ rest)

end

/-! ### The log -/

namespace Runs

variable {p q : Progress} {keys : List (Option String)}

/-- A block that is left hides the entries that were appended in it, and no others. -/
theorem log_leave {s s' : Session} {added : List Binding} (h : s'.log = added ++ s.log) :
  (s'.restore s.mark).log = added.map Session.hide ++ s.log
  := by
  have hlater : s'.length - s.mark.length = added.length := by
    rw [Session.length, h, List.length_append]
    exact Nat.add_sub_cancel_right _ _
  rw [Session.log_restore, hlater, h, List.take_left, List.drop_left]

/-- The entries of the session an expansion begins with stay as they are. -/
theorem log_suffix (h : Runs p keys q) :
  ∃ added, q.session.log = added ++ p.session.log
  := by
  induction h with
  | done => exact ⟨[], rfl⟩
  | write text => exact ⟨[], rfl⟩
  | report d => exact ⟨[], rfl⟩
  | append key raw expression outcome reported told => exact ⟨[_], rfl⟩
  | trans h h' ih ih' =>
    obtain ⟨added, hadded⟩ := ih
    obtain ⟨more, hmore⟩ := ih'
    use more ++ added
    rw [hmore, hadded, List.append_assoc]
  | block h ih =>
    obtain ⟨added, hadded⟩ := ih
    exact ⟨added.map Session.hide, log_leave hadded⟩

end Runs

end Progress

end MathTemplate
