import MathTemplate.Expansion
import MathTemplate.Proofs.Text.Trim

/-!
# The check in front of the evaluator

Whatever an expansion hands to the evaluator has an entry in the log of the session, and the
entry shows what was evaluated.  `Admitted` says what may stand there: a text that passes the
check under the name it is bound to, or an element of the value of a loop's source, whose own
text has passed the check.  The text evaluated is the text that was checked, although a math
segment is split into name and expression once for the check and once for the evaluation
(`addAssignment_eq_push`).

An expansion runs the nodes of a template with the evaluator as a parameter, so that what it
asks the evaluator shows in what it depends on: `Gated` says that a run appends only admitted
entries, and that any other evaluator with the same answers to the texts of these entries
leads to the same result.  It holds of every node (`node_gated`), by induction on the tree.
-/

namespace MathTemplate

open Template (Node Assignment)
open Text (Span trimmed trimmed_trimmed)

/-! ### What was evaluated -/

/-- Whether an expression came to the evaluator. -/
def Outcome.Evaluated : Outcome → Prop
  | rejected _ => False
  | _ => True

namespace Session

theorem outcomeOf_evaluated (r : Except EvalError Evaluation) :
  (outcomeOf r).Evaluated
  := by
  cases r with
  | error e => trivial
  | ok e => trivial

/-- The entries of a session, whether or not their blocks have been left, the latest
first. -/
def entries (s : Session) : List Binding := s.log.map hide

@[simp]
theorem entries_restore (s : Session) (m : Mark) :
  (s.restore m).entries = s.entries
  := by
  have hhide : hide ∘ hide = hide := rfl
  simp only [entries, restore, List.map_append, List.map_map, hhide]
  rw [← List.map_append, List.take_append_drop]

/-- A text taken for an assignment is evaluated as the expression it splits into, and bound
to the name it splits into, or to the next generated key. -/
theorem addAssignment_eq_push (s : Session) (text : String) :
  ∃ raw, ∀ evaluator, s.addAssignment evaluator text =
    (s.asked (Check.splitAssignment text).1).push evaluator
      (s.keyOr (Check.splitAssignment text).1) raw (Check.splitAssignment text).2
  := by
  unfold addAssignment Check.splitAssignment
  cases Check.elementTarget? text with
  | some name => exact ⟨trimmed text, fun _ => rfl⟩
  | none =>
    cases hplain : Check.plainAssignment? text with
    | none =>
      use trimmed text
      intro evaluator
      simp only [append, trimmed_trimmed]
    | some parts =>
      obtain ⟨name, value⟩ := parts
      have hvalue : trimmed value = value := by
        simp only [Check.plainAssignment?, Option.bind_eq_bind, Option.bind_eq_some_iff,
          Option.pure_def, Option.some.injEq, Prod.mk.injEq] at hplain
        obtain ⟨_, _, rest, _, _, rfl⟩ := hplain
        apply trimmed_trimmed
      use name ++ ":" ++ value
      intro evaluator
      simp only [assign, hvalue]
      rfl

end Session

theorem Check.issues_trimmed (mode : Mode) (words : List String) (name : Option String)
    (text : String) :
  issues mode words name (trimmed text) = issues mode words name text
  := by
  simp only [issues, trimmed_trimmed]

/-! ### What may be evaluated -/

/-- The entry `b` may be evaluated for a node: its text passes the check under the name it
is bound to, or the node is a loop, the entry an element of the value an entry of the log
holds for a source of the loop, without the blanks at its ends, and the text of the source
passes the check.  What may be evaluated for a node inside a block may be for the block. -/
inductive Admitted (mode : Mode) (words : List String) (log : List Binding) :
    Node → Binding → Prop
  | math {delimiter : Delimiter} {raw : String} {span : Span} {b : Binding}
      {name : Option String}
      (split : Check.splitAssignment (trimmed raw) = (name, b.expression))
      (bound : ∀ key, name = some key → b.key = key)
      (passes : Check.issues mode words name b.expression = []) :
      Admitted mode words log (.math delimiter raw span) b
  | test {test : String} {children : List Node} {span : Span} {b : Binding}
      (text : b.expression = trimmed test)
      (passes : Check.issues mode words none b.expression = []) :
      Admitted mode words log (.conditional test children span) b
  | definition {assignments : List Assignment} {span : Span} {b : Binding} {a : Assignment}
      (mem : a ∈ assignments) (bound : b.key = a.name) (text : b.expression = trimmed a.expression)
      (passes : Check.issues mode words (some a.name) b.expression = []) :
      Admitted mode words log (.define assignments span) b
  | source {binders : List Assignment} {children : List Node} {span : Span} {b : Binding}
      {a : Assignment}
      (mem : a ∈ binders) (text : b.expression = trimmed a.expression)
      (passes : Check.issues mode words (some a.name) b.expression = []) :
      Admitted mode words log (.foreach binders children span) b
  | element {binders : List Assignment} {children : List Node} {span : Span} {b source : Binding}
      {a : Assignment} {value : Value} {display : String} {items : List Value} {v : Value}
      (mem : a ∈ binders) (logged : source ∈ log) (text : source.expression = trimmed a.expression)
      (passes : Check.issues mode words (some a.name) source.expression = [])
      (answer : source.outcome = .bound value display) (gone : value.elements? = some items)
      (item : v ∈ items) (bound : b.key = a.name) (printed : b.expression = trimmed v.text) :
      Admitted mode words log (.foreach binders children span) b
  | inConditional {test : String} {children : List Node} {span : Span} {n : Node} {b : Binding}
      (mem : n ∈ children) (inner : Admitted mode words log n b) :
      Admitted mode words log (.conditional test children span) b
  | inLoop {binders : List Assignment} {children : List Node} {span : Span} {n : Node}
      {b : Binding}
      (mem : n ∈ children) (inner : Admitted mode words log n b) :
      Admitted mode words log (.foreach binders children span) b

/-! ### Runs -/

/-- Two evaluators answer alike to the texts of all entries that were evaluated. -/
def AgreeOn (added : List Binding) (evaluator other : Evaluator) : Prop :=
  ∀ b ∈ added, b.outcome.Evaluated → other b.expression = evaluator b.expression

/-- The run, from the progress `p` on, appends the entries `added`, all of which `Adm` admits
once the log holds them, and no other answers of the evaluator matter than those to the texts
of these entries. -/
structure GatedBy {ρ : Type} (progress : ρ → Progress) (Adm : List Binding → Binding → Prop)
    (evaluator : Evaluator) (p : Progress) (run : Evaluator → ρ) (added : List Binding) :
    Prop where
  entries : (progress (run evaluator)).session.entries = added ++ p.session.entries
  admitted : ∀ log, added ⊆ log → ∀ b ∈ added, b.outcome.Evaluated → Adm log b
  determined : ∀ other, AgreeOn added evaluator other → run other = run evaluator

/-- The run appends only entries that `Adm` admits. -/
def Gated (Adm : List Binding → Binding → Prop) (evaluator : Evaluator) (p : Progress)
    (run : Evaluator → Progress) : Prop :=
  ∃ added, GatedBy id Adm evaluator p run added

section Gated

variable {ρ : Type} {progress : ρ → Progress} {Adm : List Binding → Binding → Prop}
  {evaluator : Evaluator} {p : Progress}

theorem AgreeOn.mono {added more : List Binding} {evaluator other : Evaluator}
    (h : AgreeOn more evaluator other) (hsub : added ⊆ more) :
  AgreeOn added evaluator other
  := fun b hb => h b (hsub hb)

/-- A run that asks the evaluator nothing and appends nothing. -/
theorem Gated.of_entries_eq {q : Progress} (h : q.session.entries = p.session.entries) :
  Gated Adm evaluator p (fun _ => q)
  := by
  use []
  constructor
  · exact h
  · simp
  · intro other _
    rfl

/-- One run behind another. -/
theorem GatedBy.comp {τ : Type} {progress' : τ → Progress} {run : Evaluator → ρ}
    {k : ρ → Evaluator → τ} {added more : List Binding}
    (h : GatedBy progress Adm evaluator p run added)
    (hk : GatedBy progress' (fun log b => added ⊆ log → Adm log b) evaluator
      (progress (run evaluator)) (k (run evaluator)) more) :
  GatedBy progress' Adm evaluator p (fun e => k (run e) e) (more ++ added)
  := by
  constructor
  · rw [List.append_assoc, ← h.entries]
    apply hk.entries
  · intro log hlog b hb hevaluated
    obtain ⟨hlogmore, hlogadded⟩ := List.append_subset.mp hlog
    rcases List.mem_append.mp hb with hb | hb
    · apply hk.admitted log hlogmore b hb hevaluated hlogadded
    · apply h.admitted log hlogadded b hb hevaluated
  · intro other hother
    rw [h.determined other (hother.mono (List.subset_append_right more added))]
    apply hk.determined other (hother.mono (List.subset_append_left more added))

theorem GatedBy.then {run : Evaluator → ρ} {k : ρ → Evaluator → Progress}
    {added : List Binding} (h : GatedBy progress Adm evaluator p run added)
    (hk : Gated (fun log b => added ⊆ log → Adm log b) evaluator (progress (run evaluator))
      (k (run evaluator))) :
  Gated Adm evaluator p (fun e => k (run e) e)
  := by
  obtain ⟨more, hmore⟩ := hk
  exact ⟨more ++ added, h.comp hmore⟩

theorem GatedBy.mono {Adm' : List Binding → Binding → Prop} {run : Evaluator → ρ}
    {added : List Binding} (h : GatedBy progress Adm evaluator p run added)
    (hAdm : ∀ log b, Adm log b → Adm' log b) :
  GatedBy progress Adm' evaluator p run added
  := by
  constructor
  · exact h.entries
  · intro log hlog b hb hevaluated
    apply hAdm log b
    apply h.admitted log hlog b hb hevaluated
  · exact h.determined

theorem Gated.mono {Adm' : List Binding → Binding → Prop} {run : Evaluator → Progress}
    (h : Gated Adm evaluator p run) (hAdm : ∀ log b, Adm log b → Adm' log b) :
  Gated Adm' evaluator p run
  := by
  obtain ⟨added, hadded⟩ := h
  exact ⟨added, hadded.mono hAdm⟩

theorem Gated.comp {run : Evaluator → Progress} {k : Progress → Evaluator → Progress}
    (h : Gated Adm evaluator p run) (hk : ∀ q, Gated Adm evaluator q (k q)) :
  Gated Adm evaluator p (fun e => k (run e) e)
  := by
  obtain ⟨added, hadded⟩ := h
  apply hadded.then
  apply (hk _).mono
  intro log b hb _
  exact hb

/-- A fold whose steps are gated. -/
theorem Gated.foldl {α : Type} {step : Evaluator → Progress → α → Progress} {as : List α}
    (h : ∀ a ∈ as, ∀ q, Gated Adm evaluator q (fun e => step e q a)) :
  Gated Adm evaluator p (fun e => as.foldl (step e) p)
  := by
  induction as generalizing p with
  | nil => apply Gated.of_entries_eq rfl
  | cons a as ih =>
    apply Gated.comp (k := fun q e => as.foldl (step e) q) (h a List.mem_cons_self p)
    intro q
    apply ih
    intro a' ha'
    apply h a' (List.mem_cons_of_mem a ha')

end Gated

/-! ### The parts of an expansion -/

/-- The same host with another evaluator. -/
def Host.asking (host : Host) (evaluator : Evaluator) : Host :=
  { host with evaluator := evaluator }

namespace Progress

theorem reportIssues_session (p : Progress) (span : Span) (issues : List Check.Issue) :
  (p.reportIssues span issues).session = p.session
  := by
  unfold reportIssues
  induction issues generalizing p with
  | nil => rfl
  | cons issue issues ih =>
    rw [List.foldl_cons, ih]
    rfl

section Parts

variable {host : Host} {mode : Mode} {Adm : List Binding → Binding → Prop}
  {evaluator : Evaluator} {p : Progress}

/-- A rejected expression leaves one entry, which was not evaluated. -/
theorem rejected_gatedBy {ρ : Type} {progress : ρ → Progress} {r : ρ} {key : Option String}
    {raw message : String}
    (h : (progress r).session = (p.session.appendInvalid key raw message).1) :
  GatedBy progress Adm evaluator p (fun _ => r)
    [Session.hide ⟨p.session.keyOr key, trimmed raw, (Check.splitAssignment raw).2,
      .rejected message, false⟩]
  := by
  constructor
  · rw [h]
    rfl
  · intro log _ b hb hevaluated
    obtain rfl := List.mem_singleton.mp hb
    apply hevaluated.elim
  · intro other _
    rfl

theorem checked_gated {key name : Option String} {raw expression : String} {span : Span}
    {next : Evaluator → Progress → Progress}
    (h : Check.issues mode host.forbiddenWords name expression = [] →
      Gated Adm evaluator p (fun e => next e p)) :
  Gated Adm evaluator p
    (fun e => p.checked (host.asking e) mode key name raw expression span (next e))
  := by
  unfold checked
  simp only [Host.asking]
  cases hissues : Check.issues mode host.forbiddenWords name expression with
  | nil => exact h hissues
  | cons first more =>
    exact ⟨_, rejected_gatedBy (reportIssues_session _ _ _)⟩

/-- An evaluation leaves one entry with the text that was evaluated. -/
theorem push_gatedBy {ρ : Type} {progress : ρ → Progress} {s : Session}
    {key raw expression : String} {k : Session × Appended → ρ}
    (hs : s.entries = p.session.entries)
    (hsession : ∀ done, (progress (k done)).session = done.1)
    (hAdm : ∀ log b, b.key = key → b.expression = expression → Adm log b) :
  GatedBy progress Adm evaluator p (fun e => k (s.push e key raw expression))
    [Session.hide ⟨key, raw, expression,
      Session.outcomeOf (evaluator expression s.valueOf? s.options), false⟩]
  := by
  constructor
  · rw [hsession, ← hs]
    rfl
  · intro log _ b hb _
    obtain rfl := List.mem_singleton.mp hb
    apply hAdm log _ rfl rfl
  · intro other hother
    have h := hother _ (List.mem_singleton_self _) (Session.outcomeOf_evaluated _)
    simp only [Session.hide] at h
    simp only [Session.push, h]

theorem settle_gated {s : Session} {key raw expression text : String} {span : Span}
    {next : Evaluator → Progress → Evaluation → Progress}
    (hs : s.entries = p.session.entries)
    (hAdm : ∀ log b, b.key = key → b.expression = expression → Adm log b)
    (hnext : ∀ q answer, Gated Adm evaluator q (fun e => next e q answer)) :
  Gated Adm evaluator p (fun e => p.settle (s.push e key raw expression) text span (next e))
  := by
  have hpush : GatedBy (fun done : Session × Appended => { p with session := done.1 }) Adm
      evaluator p (fun e => s.push e key raw expression) _ :=
    push_gatedBy (k := id) hs (fun _ => rfl) hAdm
  apply hpush.then (k := fun done e => p.settle done text span (next e))
  unfold settle
  split
  · apply (hnext _ _).mono
    intro log b hb _
    exact hb
  · exact Gated.of_entries_eq rfl

/-- What a block does to the session at its end leaves the entries as they are. -/
theorem Gated.restore {run : Evaluator → Progress} {m : Mark}
    (h : Gated Adm evaluator p run) :
  Gated Adm evaluator p
    (fun e => { run e with session := (run e).session.restore m })
  := by
  apply Gated.comp (k := fun q _ => { q with session := q.session.restore m }) h
  intro q
  apply Gated.of_entries_eq
  apply Session.entries_restore

theorem plot_gated {request : PlotRequest} {span : Span} :
  Gated Adm evaluator p (fun e => p.plot (host.asking e) request span)
  := by
  change Gated Adm evaluator p (fun _ => p.plot host request span)
  apply Gated.of_entries_eq
  unfold plot
  split
  · rfl
  · rfl

theorem math_gated {delimiter : Delimiter} {raw : String} {span : Span} :
  Gated (Admitted mode host.forbiddenWords · (.math delimiter raw span)) evaluator p
    (fun e => p.math (host.asking e) mode delimiter raw span)
  := by
  unfold math
  apply checked_gated
  intro hpasses
  obtain ⟨written, hpush⟩ := p.session.addAssignment_eq_push (trimmed raw)
  simp only [Host.asking, hpush]
  apply settle_gated
  · rfl
  · intro log b hb hexpression
    apply Admitted.math
    · rw [hexpression]
    · intro key hkey
      rw [hb, hkey]
      rfl
    · rw [hexpression]
      exact hpasses
  · intro q answer
    split
    · apply plot_gated
    · exact Gated.of_entries_eq rfl

theorem bind_gated {assignments : List Assignment} {span : Span} {a : Assignment}
    (ha : a ∈ assignments) :
  Gated (Admitted mode host.forbiddenWords · (.define assignments span)) evaluator p
    (fun e => p.bind (host.asking e) mode a)
  := by
  unfold bind
  apply checked_gated
  intro hpasses
  apply settle_gated
  · rfl
  · intro log b hb hexpression
    apply Admitted.definition ha hb
    · rw [hexpression, trimmed_trimmed]
    · rw [hexpression, Check.issues_trimmed]
      exact hpasses
  · intro q answer
    apply Gated.of_entries_eq rfl

theorem conditional_gated {test : String} {children : List Node} {span : Span}
    {body : Evaluator → Progress → Progress}
    (hbody : ∀ q, Gated (fun log b => ∃ n ∈ children, Admitted mode host.forbiddenWords log n b)
      evaluator q (fun e => body e q)) :
  Gated (Admitted mode host.forbiddenWords · (.conditional test children span)) evaluator p
    (fun e => p.conditional (host.asking e) mode test span (body e))
  := by
  unfold conditional
  apply checked_gated
  intro hpasses
  apply settle_gated
  · rfl
  · intro log b hb hexpression
    apply Admitted.test
    · rw [hexpression, trimmed_trimmed]
    · rw [hexpression, Check.issues_trimmed]
      exact hpasses
  · intro q answer
    split
    · apply Gated.restore
      apply (hbody q).mono
      rintro log b ⟨n, hn, hb⟩
      apply Admitted.inConditional hn hb
    · apply Gated.of_entries_eq rfl
    · exact Gated.of_entries_eq rfl

/-! ### Loops -/

/-- The entry in the log that holds the value a source of a loop goes through. -/
def Logged (mode : Mode) (words : List String) (log : List Binding) (binders : List Assignment)
    (found : Source) : Prop :=
  ∃ a ∈ binders, found.name = a.name ∧ ∃ b ∈ log, b.expression = trimmed a.expression ∧
    Check.issues mode words (some a.name) b.expression = [] ∧
    ∃ value display, b.outcome = .bound value display ∧ value.elements? = some found.items

/-- The value of a source is in the entry its evaluation leaves. -/
theorem sourceOf_snd {a : Assignment} {expression : String} {answer : Evaluation} {s : Source}
    (hs : s ∈ (p.sourceOf a expression answer).2) :
  s.name = a.name ∧ answer.value.elements? = some s.items
  := by
  unfold sourceOf at hs
  split at hs
  · rename_i items hitems
    obtain rfl := Option.some.inj hs
    exact ⟨rfl, hitems⟩
  · cases hs

theorem sourceOf_session (a : Assignment) (expression : String) (answer : Evaluation) :
  (p.sourceOf a expression answer).1.session = p.session
  := by
  unfold sourceOf
  split
  · rfl
  · rfl

/-- What an evaluation came to, taken for the value of a source. -/
def settleSource (p : Progress) (a : Assignment) (expression : String)
    (done : Session × Appended) : Progress × Option Source :=
  match done.2.result with
  | .ok e => { p with session := done.1 }.sourceOf a expression e
  | .error e => ({ p with session := done.1 }.reportEval expression a.span e, none)

theorem source_gatedBy {binders : List Assignment} {children : List Node} {span : Span}
    {a : Assignment} (ha : a ∈ binders) :
  ∃ added, GatedBy Prod.fst
      (Admitted mode host.forbiddenWords · (.foreach binders children span)) evaluator p
      (fun e => p.source (host.asking e) mode a) added ∧
    ∀ s ∈ (p.source (host.asking evaluator) mode a).2,
      Logged mode host.forbiddenWords added binders s
  := by
  unfold source
  simp only [Host.asking]
  cases hissues : Check.issues mode host.forbiddenWords (some a.name) (trimmed a.expression) with
  | cons first more =>
    refine ⟨_, rejected_gatedBy (reportIssues_session _ _ _), ?_⟩
    intro s hs
    cases hs
  | nil =>
    refine ⟨_, push_gatedBy (s := p.session.asked none)
      (k := p.settleSource a (trimmed a.expression)) rfl ?_ ?_, ?_⟩
    · intro done
      unfold settleSource
      split
      · apply sourceOf_session
      · rfl
    · intro log b _ hexpression
      apply Admitted.source ha
      · rw [hexpression, trimmed_trimmed]
      · rw [hexpression, Check.issues_trimmed]
        exact hissues
    · intro s hs
      refine ⟨a, ha, ?_⟩
      simp only [Session.append, Session.push] at hs
      split at hs
      · rename_i answer hanswer
        obtain ⟨hname, hitems⟩ := sourceOf_snd hs
        refine ⟨hname, _, List.mem_singleton_self _, ?_, ?_, ?_⟩
        · apply trimmed_trimmed
        · rw [← hissues]
          apply Check.issues_trimmed
        · refine ⟨answer.value, answer.display, ?_, hitems⟩
          simp only [Session.hide, hanswer, Session.outcomeOf]
      · cases hs

theorem Logged.mono {words : List String} {log more : List Binding} {binders : List Assignment}
    {s : Source} (h : Logged mode words log binders s) (hsub : log ⊆ more) :
  Logged mode words more binders s
  := by
  obtain ⟨a, ha, hname, b, hb, hrest⟩ := h
  exact ⟨a, ha, hname, b, hsub hb, hrest⟩

theorem sources_gatedBy {binders rest : List Assignment} {children : List Node} {span : Span}
    (hrest : rest ⊆ binders) :
  ∃ added, GatedBy Prod.fst
      (Admitted mode host.forbiddenWords · (.foreach binders children span)) evaluator p
      (fun e => p.sources (host.asking e) mode rest) added ∧
    ∀ found ∈ (p.sources (host.asking evaluator) mode rest).2,
      ∀ s ∈ found, Logged mode host.forbiddenWords added binders s
  := by
  induction rest generalizing p with
  | nil =>
    refine ⟨[], ⟨rfl, by simp, fun _ _ => rfl⟩, ?_⟩
    intro found hfound s hs
    obtain rfl := Option.some.inj hfound
    cases hs
  | cons a rest ih =>
    obtain ⟨hmem, hsub⟩ := List.cons_subset.mp hrest
    obtain ⟨added, hadded, hfirst⟩ :
        ∃ added, GatedBy Prod.fst
          (Admitted mode host.forbiddenWords · (.foreach binders children span)) evaluator p
          (fun e => p.source (host.asking e) mode a) added ∧
        ∀ s ∈ (p.source (host.asking evaluator) mode a).2,
          Logged mode host.forbiddenWords added binders s :=
      source_gatedBy hmem
    obtain ⟨more, hmore, hothers⟩ := ih (p := (p.source (host.asking evaluator) mode a).1) hsub
    refine ⟨more ++ added, ?_, ?_⟩
    · let k (first : Progress × Option Source) (e : Evaluator) : Progress × Option (List Source) :=
        let others := first.1.sources (host.asking e) mode rest
        (others.1, do return (← first.2) :: (← others.2))
      apply hadded.comp (k := k)
      constructor
      · apply hmore.entries
      · intro log hlog b hb hevaluated _
        apply hmore.admitted log hlog b hb hevaluated
      · intro other hother
        simp only [k, hmore.determined other hother]
    · intro found hfound s hs
      simp only [sources, Option.mem_def, Option.bind_eq_bind, Option.bind_eq_some_iff,
        Option.pure_def, Option.some.injEq] at hfound
      obtain ⟨s₀, hs₀, found₀, hfound₀, rfl⟩ := hfound
      rcases List.mem_cons.mp hs with rfl | hs
      · exact (hfirst s hs₀).mono (List.subset_append_right more added)
      · exact (hothers found₀ hfound₀ s hs).mono (List.subset_append_left more added)

/-- What a loop binds in front of its body is in the values of its sources. -/
theorem elementsAt_mem {found : List Source} {i : Nat} {element : String × Value}
    (h : element ∈ elementsAt found i) :
  ∃ s ∈ found, element.1 = s.name ∧ element.2 ∈ s.items
  := by
  obtain ⟨s, hs, hitem⟩ := List.mem_filterMap.mp h
  obtain ⟨v, hv, rfl⟩ := Option.map_eq_some_iff.mp hitem
  exact ⟨s, hs, rfl, List.mem_of_getElem? hv⟩

theorem bindElement_gated {span : Span} {element : String × Value}
    (hAdm : ∀ log b, b.key = element.1 → b.expression = trimmed element.2.text → Adm log b) :
  Gated Adm evaluator p (fun e => p.bindElement (host.asking e) span element)
  := by
  unfold bindElement
  apply settle_gated
  · rfl
  · exact hAdm
  · intro q answer
    apply Gated.of_entries_eq rfl

theorem unroll_gated {span : Span} {found : List Source} {body : Evaluator → Progress → Progress}
    (hAdm : ∀ s ∈ found, ∀ v ∈ s.items, ∀ log b, b.key = s.name →
      b.expression = trimmed v.text → Adm log b)
    (hbody : ∀ q, Gated Adm evaluator q (fun e => body e q)) :
  Gated Adm evaluator p (fun e => p.unroll (host.asking e) span found (body e))
  := by
  unfold unroll
  dsimp only
  split
  · exact Gated.of_entries_eq rfl
  · apply Gated.restore
    apply Gated.foldl
    intro i _ q
    unfold iterate
    apply Gated.comp (k := fun q e => body e q) _ hbody
    apply Gated.foldl
    intro element helement q
    obtain ⟨s, hs, hname, hitem⟩ := elementsAt_mem helement
    apply bindElement_gated
    rw [hname]
    apply hAdm s hs element.2 hitem

/-- The rest of a loop behind the search for its sources. -/
def unrollFound (host : Host) (span : Span) (body : Evaluator → Progress → Progress) :
    Progress × Option (List Source) → Evaluator → Progress
  | (p, some found), e => p.unroll (host.asking e) span found (body e)
  | (p, none), _ => p

theorem foreach_eq_unrollFound {binders : List Assignment} {span : Span}
    {body : Evaluator → Progress → Progress} :
  p.foreach (host.asking evaluator) mode binders span (body evaluator) =
    unrollFound host span body (p.sources (host.asking evaluator) mode binders) evaluator
  := by
  unfold foreach
  cases p.sources (host.asking evaluator) mode binders with
  | mk q result =>
    cases result with
    | none => rfl
    | some found => rfl

theorem foreach_gated {binders : List Assignment} {children : List Node} {span : Span}
    {body : Evaluator → Progress → Progress}
    (hbody : ∀ q, Gated (fun log b => ∃ n ∈ children, Admitted mode host.forbiddenWords log n b)
      evaluator q (fun e => body e q)) :
  Gated (Admitted mode host.forbiddenWords · (.foreach binders children span)) evaluator p
    (fun e => p.foreach (host.asking e) mode binders span (body e))
  := by
  obtain ⟨added, hadded, hfound⟩ :
      ∃ added, GatedBy Prod.fst
        (Admitted mode host.forbiddenWords · (.foreach binders children span)) evaluator p
        (fun e => p.sources (host.asking e) mode binders) added ∧
      ∀ found ∈ (p.sources (host.asking evaluator) mode binders).2,
        ∀ s ∈ found, Logged mode host.forbiddenWords added binders s :=
    sources_gatedBy (List.Subset.refl binders)
  simp only [foreach_eq_unrollFound]
  apply hadded.then (k := unrollFound host span body)
  cases hresult : p.sources (host.asking evaluator) mode binders with
  | mk q result =>
    cases result with
    | none => apply Gated.of_entries_eq rfl
    | some found =>
      rw [hresult] at hfound
      apply unroll_gated
      · intro s hs v hv log b hkey hexpression hlog
        obtain ⟨a, ha, hname, source, hsource, htext, hpasses, value, display, houtcome, hitems⟩ :=
          (hfound found rfl s hs).mono hlog
        apply Admitted.element ha hsource htext hpasses houtcome hitems hv _ hexpression
        rw [hkey, hname]
      · intro r
        apply (hbody r).mono
        rintro log b ⟨n, hn, hb⟩ _
        apply Admitted.inLoop hn hb

/-! ### Nodes -/

theorem factSheet_gated {key : String} {span : Span} :
  Gated Adm evaluator p (fun e => p.factSheet (host.asking e) key span)
  := by
  change Gated Adm evaluator p (fun _ => p.factSheet host key span)
  apply Gated.of_entries_eq
  unfold factSheet
  split
  · rfl
  · rfl

end Parts

mutual

/-- The expansion of a node hands to the evaluator only what is admitted for the node. -/
theorem node_gated (host : Host) (mode : Mode) (evaluator : Evaluator) (p : Progress) (n : Node) :
  Gated (Admitted mode host.forbiddenWords · n) evaluator p
    (fun e => p.node (host.asking e) mode n)
  := by
  cases n with
  | text text span => exact Gated.of_entries_eq rfl
  | math delimiter raw span => apply math_gated
  | conditional test children span =>
    apply conditional_gated
    intro q
    apply nodes_gated
  | define assignments span =>
    apply Gated.foldl
    intro a ha q
    apply bind_gated ha
  | foreach binders children span =>
    apply foreach_gated
    intro q
    apply nodes_gated
  | facts key span => apply factSheet_gated
  | error marker => apply Gated.of_entries_eq rfl

theorem nodes_gated (host : Host) (mode : Mode) (evaluator : Evaluator) (p : Progress)
    (ns : List Node) :
  Gated (fun log b => ∃ n ∈ ns, Admitted mode host.forbiddenWords log n b) evaluator p
    (fun e => p.nodes (host.asking e) mode ns)
  := by
  cases ns with
  | nil => apply Gated.of_entries_eq rfl
  | cons n rest =>
    apply Gated.comp (k := fun q e => q.nodes (host.asking e) mode rest)
    · apply (node_gated host mode evaluator p n).mono
      intro log b hb
      exact ⟨n, List.mem_cons_self, hb⟩
    · intro q
      apply (nodes_gated host mode evaluator q rest).mono
      rintro log b ⟨n', hn', hb⟩
      exact ⟨n', List.mem_cons_of_mem n hn', hb⟩

end

end Progress

/-! ### Whole templates -/

/-- An expansion appends entries to the session, and hands to the evaluator the texts of those
of them that were evaluated, and no other text: nothing else that another evaluator would
answer makes a difference.  Each of these entries is admitted for a node of the template. -/
theorem Template.expand_evaluates_only_admitted (t : Template) (host : Host)
    (session : Session) :
  ∃ added : List Binding,
    (t.expand host session).1.entries = added ++ session.entries ∧
    (∀ b ∈ added, b.outcome.Evaluated →
      ∃ n ∈ t.nodes, Admitted t.mode host.forbiddenWords added n b) ∧
    ∀ other, AgreeOn added host.evaluator other →
      t.expand (host.asking other) session = t.expand host session
  := by
  cases hfatal : t.fatal with
  | some fault =>
    refine ⟨[], ?_, by simp, ?_⟩
    · simp only [expand, hfatal, List.nil_append]
    · intro other _
      simp only [expand, hfatal]
  | none =>
    obtain ⟨added, hadded⟩ := Progress.nodes_gated host t.mode host.evaluator
      { session := session } t.nodes
    refine ⟨added, ?_, ?_, ?_⟩
    · simp only [expand, hfatal]
      apply hadded.entries
    · apply hadded.admitted added (List.Subset.refl added)
    · intro other hother
      have hrun := hadded.determined other hother
      change Progress.nodes (host.asking other) t.mode { session := session } t.nodes =
        Progress.nodes host t.mode { session := session } t.nodes at hrun
      simp only [expand, hfatal, hrun]

/-! ### Blanks around an element -/

/-- An evaluator that answers with a list whose element is a text between blanks. -/
def blankedElement : Evaluator := fun text _ _ =>
  if text = "[q]" then .ok { value := .list [.atom " system "], display := "q" }
  else .ok { value := .atom "0", display := "0" }

/-- A loop over the list `[q]`. -/
def loopOverList : Template :=
  { source := ""
    mode := .teacher
    nodes := [.foreach [⟨"i", "[q]", ⟨0, .start, .start⟩⟩] [] ⟨0, .start, .start⟩]
    markers := []
    fatal := none }

/-- An element is evaluated without the blanks at its ends, so that what is evaluated may
neither pass the check nor be the text of any element the evaluator answered with. -/
theorem loopOverList_evaluates_unprinted :
  ∃ b ∈ (loopOverList.expand { evaluator := blankedElement } {}).1.entries,
    b.outcome.Evaluated ∧ b.expression = "system" ∧
    (∀ name, name = none ∨ name = some b.key →
      Check.issues loopOverList.mode [] name b.expression ≠ []) ∧
    ∀ text env options e items, blankedElement text env options = .ok e →
      e.value.elements? = some items → ∀ v ∈ items, v.text ≠ b.expression
  := by
  have hpasses : Check.issues .teacher [] (some "i") (trimmed "[q]") = [] := by decide +kernel
  refine ⟨⟨"i", "system", "system", .bound (.atom "0") "0", true⟩, ?_, trivial, rfl, ?_, ?_⟩
  · simp only [loopOverList, Template.expand, Progress.nodes, Progress.node, Progress.foreach,
      Progress.sources, Progress.source, hpasses]
    apply List.mem_cons_self
  · rintro name (rfl | rfl)
    · decide +kernel
    · decide +kernel
  · intro text env options e items he hitems v hv
    unfold blankedElement at he
    split at he
    · cases he
      cases hitems
      obtain rfl := List.mem_singleton.mp hv
      decide
    · cases he
      cases hitems

end MathTemplate
